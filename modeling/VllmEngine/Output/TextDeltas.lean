import Mathlib.Data.List.MinMax
import VllmEngine.Output.StopGrouping

namespace VllmEngine.Output

open Lib List BaseIncrementalDetokenizer

inductive DetokenizerCall
  | update (newTokens : List DecodedToken) (stopTerminated : Bool)
  | getNextOutputText

namespace BaseIncrementalDetokenizer

variable {d : BaseIncrementalDetokenizer} {g : List DecodedToken}

def finish (d : BaseIncrementalDetokenizer) : List Text × BaseIncrementalDetokenizer :=
  let (text, d) := d.getNextOutputText true true
  ([text], d)

/-- The deltas of a run and the detokenizer at its end, after the first reported stop string or the
last call. -/
def stream (d : BaseIncrementalDetokenizer) :
    List DetokenizerCall → List Text × BaseIncrementalDetokenizer
  | [] => d.finish
  | .update newTokens stopTerminated :: calls =>
    match d.update newTokens stopTerminated with
    | (some _, d) => d.finish
    | (none, d) => d.stream calls
  | .getNextOutputText :: calls =>
    let (text, d) := d.getNextOutputText false true
    let (texts, d) := d.stream calls
    (text :: texts, d)

@[simp] theorem appendTokens_stopBufferLength :
    (d.appendTokens g).stopBufferLength = d.stopBufferLength := rfl

theorem update_decodes (g) (stopTerminated) :
    ∃ more : List DecodedToken, more.map (·.id) = g.map (·.id) ∧
      (d.update g stopTerminated = (none, d.appendTokens more) ∨
        ∃ s ∈ d.params.stop, ∃ e ∈ d.windowEnds more s,
          d.update g stopTerminated = (some s, (d.appendTokens more).stopAt s e)) := by
  have hplain : ∀ {more : List DecodedToken}, more ≠ [] →
      d.update more false = (none, d.appendTokens more) ∨
        ∃ s ∈ d.params.stop, ∃ e ∈ d.windowEnds more s,
          d.update more false = (some s, (d.appendTokens more).stopAt s e) := by
    intro more hmore
    obtain ⟨hnone, -⟩ | ⟨s, hs, e, he, hsome⟩ := d.update_cases hmore
    · exact .inl hnone
    · exact .inr ⟨s, hs, e, he.1, hsome⟩
  obtain rfl | ⟨front, last, rfl⟩ := eq_nil_or_concat' g
  · exact ⟨[], rfl, .inl (by simp [update_nil])⟩
  cases stopTerminated with
  | false => exact ⟨_, rfl, hplain (by simp)⟩
  | true =>
    cases hinc : d.params.includeStopStrInOutput with
    | true =>
      rw [update_of_include hinc]
      exact ⟨_, rfl, hplain (by simp)⟩
    | false =>
      rw [update_skip hinc]
      exact ⟨_, by simp [DecodedToken.skip], hplain (by simp)⟩

theorem length_le_stopBufferLength {s} (hs : s ∈ d.params.stop)
    (hinc : d.params.includeStopStrInOutput = false) : s.length ≤ d.stopBufferLength + 1 := by
  have hmax : s.length ≤ (d.params.stop.map length).foldr max 0 :=
    le_max_of_le' 0 (mem_map_of_mem hs) le_rfl
  rw [stopBufferLength, if_pos ⟨ne_nil_of_mem hs, hinc⟩]
  omega

theorem stopAt_outputText (s) (e) :
    ((d.appendTokens g).stopAt s e).outputText = (d.outputText ++ textOf g).take
      (if d.params.includeStopStrInOutput then e else e - s.length) := rfl

theorem le_length_stopAt {s} (hs : s ∈ d.params.stop) {e} (he : e ∈ d.windowEnds g s) :
    d.outputText.length - d.stopBufferLength ≤ ((d.appendTokens g).stopAt s e).outputText.length := by
  have hlow : d.outputText.length < e := outputText_length_le_shielded.trans_lt he.1
  have hend := he.2.1
  rw [appendTokens_outputText] at hend
  rw [stopAt_outputText, length_take]
  cases hinc : d.params.includeStopStrInOutput with
  | true =>
    simp only [if_true]
    omega
  | false =>
    have := length_le_stopBufferLength hs hinc
    simp only [Bool.false_eq_true, if_false]
    omega

theorem stopAt_take {s} (hs : s ∈ d.params.stop) {e k} (he : e ∈ d.windowEnds g s)
    (hk : k ≤ d.outputText.length - d.stopBufferLength) :
    ((d.appendTokens g).stopAt s e).outputText.take k = d.outputText.take k := by
  have hcut := hk.trans (le_length_stopAt hs he)
  rw [stopAt_outputText, length_take] at hcut
  rw [stopAt_outputText, take_take, min_eq_left (hcut.trans (min_le_left _ _)),
    take_append_of_le_length (by omega)]

theorem drop_take_append {α : Type*} {l : List α} {a b} (h : a ≤ b) :
    (l.take b).drop a ++ l.drop b = l.drop a := by
  rw [drop_take, ← Nat.add_sub_cancel' h, ← drop_drop, Nat.add_sub_cancel_left, take_append_drop]

theorem finish_outputText : d.finish.2.outputText = d.outputText := by
  simp only [finish, getNextOutputText, Bool.not_true, Bool.false_eq_true, if_false]
  split_ifs <;> rfl

theorem finish_flatten : d.finish.1.flatten = d.outputText.drop d.lastOutputTextOffset := by
  by_cases hlt : d.lastOutputTextOffset < d.outputText.length
  · simp [finish, getNextOutputText, hlt]
  · simp [finish, getNextOutputText, hlt, drop_eq_nil_of_le (not_lt.mp hlt)]

/-- From a state in which all that was sent is out of the reach of a stop string, the deltas to come
complete the final text. -/
theorem stream_spec (calls : List DetokenizerCall)
    (h : d.lastOutputTextOffset ≤ d.outputText.length - d.stopBufferLength) :
    (d.stream calls).2.outputText.take d.lastOutputTextOffset =
        d.outputText.take d.lastOutputTextOffset ∧
      (d.stream calls).1.flatten = (d.stream calls).2.outputText.drop d.lastOutputTextOffset := by
  induction calls generalizing d with
  | nil => exact ⟨by rw [stream, finish_outputText], by rw [stream, finish_flatten, finish_outputText]⟩
  | cons call calls ih =>
    cases call with
    | update newTokens stopTerminated =>
      obtain ⟨more, -, hnone | ⟨s, hs, e, he, hsome⟩⟩ := d.update_decodes newTokens stopTerminated
      · simp only [stream, hnone]
        obtain ⟨htake, hdrop⟩ := ih (d := d.appendTokens more)
          (by simp only [appendTokens_lastOutputTextOffset, appendTokens_outputText,
                appendTokens_stopBufferLength, length_append]; omega)
        refine ⟨?_, hdrop⟩
        rw [appendTokens_lastOutputTextOffset] at htake
        rw [htake, appendTokens_outputText, take_append_of_le_length (by omega)]
      · simp only [stream, hsome, finish_outputText, finish_flatten]
        exact ⟨stopAt_take hs he h, rfl⟩
    | getNextOutputText =>
      simp only [stream, getNextOutputText, Bool.not_true, Bool.false_eq_true, if_false]
      by_cases hlt : d.lastOutputTextOffset < d.outputText.length - d.stopBufferLength
      · simp only [hlt, if_true]
        obtain ⟨htake, hdrop⟩ := ih
          (d := { d with lastOutputTextOffset := d.outputText.length - d.stopBufferLength }) le_rfl
        refine ⟨?_, ?_⟩
        · have := congrArg (take d.lastOutputTextOffset) htake
          simpa only [take_take, min_eq_left h] using this
        · rw [flatten_cons, hdrop, ← htake]
          exact drop_take_append h
      · simp only [hlt, if_false, flatten_cons, nil_append]
        exact ih h

end BaseIncrementalDetokenizer

/-- The deltas of every run add up to its final text, and those streamed so far are a beginning of
it. -/
theorem streamed_text_eq_output_text (params : StopParams) (promptTokenIds : List ℕ)
    (calls : List DetokenizerCall) :
    let run := (new params promptTokenIds).stream calls
    run.1.flatten = run.2.outputText ∧
      ∀ texts, texts <+: run.1 → texts.flatten <+: run.2.outputText := by
  intro run
  have h := (new params promptTokenIds).stream_spec calls (Nat.zero_le _)
  have hall : run.1.flatten = run.2.outputText := h.2
  refine ⟨hall, ?_⟩
  rintro texts ⟨rest, hrest⟩
  rw [← hall, ← hrest, flatten_append]
  exact prefix_append _ _

end VllmEngine.Output
