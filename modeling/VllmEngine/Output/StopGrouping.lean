import VllmEngine.Output.Detokenizer

namespace VllmEngine.Output

open Lib List

def textOf (tokens : List DecodedToken) : Text := tokens.flatMap (·.text)

@[simp] theorem textOf_nil : textOf [] = [] := rfl

@[simp] theorem textOf_cons (token) (tokens) :
    textOf (token :: tokens) = token.text ++ textOf tokens := rfl

@[simp] theorem textOf_append (a b) :
    textOf (a ++ b) = textOf a ++ textOf b := flatMap_append

theorem textOf_replicate (n id) : textOf (replicate n ⟨id, []⟩) = [] := by
  induction n with
  | zero => rfl
  | succ n ih => rw [replicate_succ, textOf_cons, ih, append_nil]

def DecodedToken.skip (token : DecodedToken) : DecodedToken := { token with text := [] }

/-- Wherever another string of the list ends, the first one ends there or before; only there, if
`min_tokens` may shield what is before. -/
def StopParams.FirstLeads (params : StopParams) : Prop :=
  ∀ h ∈ params.stop.head?, ∀ t ∈ params.stop,
    if params.minTokens = 0 then h <:+: t else h <:+ t

namespace BaseIncrementalDetokenizer

variable {d : BaseIncrementalDetokenizer} {g tokens : List DecodedToken}

def appendTokens (d : BaseIncrementalDetokenizer) (tokens : List DecodedToken) :
    BaseIncrementalDetokenizer :=
  { d with
    tokenIds := d.tokenIds ++ tokens.map (·.id)
    outputText := d.outputText ++ textOf tokens
    promptLen_le := by have := d.promptLen_le; simp only [length_append]; omega }

@[simp] theorem appendTokens_params : (d.appendTokens g).params = d.params := rfl

@[simp] theorem appendTokens_outputText :
    (d.appendTokens g).outputText = d.outputText ++ textOf g := rfl

@[simp] theorem appendTokens_lastOutputTextOffset :
    (d.appendTokens g).lastOutputTextOffset = d.lastOutputTextOffset := rfl

@[simp] theorem appendTokens_numOutputTokens :
    (d.appendTokens g).numOutputTokens = d.numOutputTokens + g.length := by
  have := d.promptLen_le
  simp only [numOutputTokens, appendTokens, length_append, length_map]
  omega

@[simp] theorem appendTokens_nil : d.appendTokens [] = d := by simp [appendTokens]

theorem appendTokens_append (a b) :
    d.appendTokens (a ++ b) = (d.appendTokens a).appendTokens b := by
  simp [appendTokens]

def shielded (d : BaseIncrementalDetokenizer) (tokens : List DecodedToken) : ℕ :=
  (d.outputText ++ textOf (tokens.take (d.params.minTokens - d.numOutputTokens))).length

theorem decode_cons (token) (off) :
    d.decode (token :: g) off = (d.appendTokens [token]).decode g
      (if d.params.minTokens ≠ 0 ∧ d.numOutputTokens + 1 ≤ d.params.minTokens then
        (d.outputText ++ token.text).length
      else off) := by
  have hd : ({ d.appendTokenId token.id with outputText := d.outputText ++ token.text } :
      BaseIncrementalDetokenizer) = d.appendTokens [token] := by
    simp [appendTokens, appendTokenId]
  rw [decode, hd]
  simp only [appendTokens_params, appendTokens_numOutputTokens, length_singleton,
    appendTokens_outputText, textOf_cons, textOf_nil, append_nil]

theorem decode_eq (off) : d.decode g off = (d.appendTokens g,
    if d.numOutputTokens < d.params.minTokens ∧ g ≠ [] then d.shielded g else off) := by
  induction g generalizing d off with
  | nil => simp [decode]
  | cons token g ih =>
    rw [decode_cons, ih, ← appendTokens_append]
    simp only [singleton_append, Prod.mk.injEq, true_and, appendTokens_params,
      appendTokens_numOutputTokens, length_singleton]
    by_cases hlt : d.numOutputTokens < d.params.minTokens
    · have htake : d.params.minTokens - d.numOutputTokens =
          d.params.minTokens - (d.numOutputTokens + 1) + 1 := by omega
      have hshield : d.shielded (token :: g) = (d.appendTokens [token]).shielded g := by
        simp only [shielded, appendTokens_params, appendTokens_numOutputTokens,
          length_singleton, htake, take_succ_cons, textOf_cons,
          appendTokens_outputText, textOf_nil, append_nil, append_assoc]
      by_cases hnext : d.numOutputTokens + 1 < d.params.minTokens ∧ g ≠ []
      · rw [if_pos hnext, if_pos ⟨hlt, by simp⟩, hshield]
      rw [if_neg hnext, if_pos ⟨by omega, by omega⟩, if_pos ⟨hlt, by simp⟩, hshield]
      obtain rfl | hend : g = [] ∨ d.params.minTokens - (d.numOutputTokens + 1) = 0 := by
        by_cases hg : g = []
        · exact .inl hg
        · exact .inr (by have := mt (fun h ↦ ⟨h, hg⟩) hnext; omega)
      · simp [shielded]
      · simp [shielded, hend]
    · rw [if_neg (by omega), if_neg (by omega), if_neg (by omega)]

theorem decode_from_end : d.decode g d.outputText.length = (d.appendTokens g, d.shielded g) := by
  rw [decode_eq]
  split_ifs with h
  · rfl
  by_cases hg : g = []
  · simp [hg, shielded]
  have : d.params.minTokens - d.numOutputTokens = 0 := by
    have := mt (fun hlt ↦ ⟨hlt, hg⟩) h
    omega
  simp [shielded, this]

theorem update_nil (stopTerminated) : d.update [] stopTerminated = (none, d) := rfl

theorem update_eq (hg : g ≠ []) :
    d.update g false = (d.appendTokens g).evaluateStop (d.shielded g) := by
  obtain ⟨last, hlast⟩ := getLast?_isSome.mpr hg |> Option.isSome_iff_exists.mp
  simp only [update, hlast, Bool.false_and, Bool.false_eq_true, if_false, decode_from_end]

theorem update_of_include (hinc : d.params.includeStopStrInOutput = true) (stopTerminated) :
    d.update g stopTerminated = d.update g false := by
  simp only [update, hinc, Bool.not_true, Bool.and_false]

theorem update_skip (hinc : d.params.includeStopStrInOutput = false) (last) :
    d.update (g ++ [last]) true = d.update (g ++ [last.skip]) false := by
  have hids : (d.appendTokens g).appendTokenId last.id = d.appendTokens (g ++ [last.skip]) := by
    simp [appendTokens, appendTokenId, DecodedToken.skip]
  have htext : textOf [last.skip] = [] := rfl
  rw [update_eq (by simp), update]
  simp only [getLast?_concat, hinc, Bool.not_false, Bool.and_true, if_true,
    dropLast_concat, decode_from_end, hids]
  congr 1
  simp only [shielded, take_append, textOf_append, length_append]
  have : (textOf ([last.skip].take (d.params.minTokens - d.numOutputTokens - g.length))) = [] := by
    rcases d.params.minTokens - d.numOutputTokens - g.length with _ | n
    · rfl
    · simp [htext]
  rw [this, length_nil, add_zero]

theorem shielded_of_le (h : d.numOutputTokens + g.length ≤ d.params.minTokens) :
    d.shielded g = (d.appendTokens g).outputText.length := by
  rw [shielded, take_of_length_le (by omega), appendTokens_outputText]

theorem shielded_of_ge (h : d.params.minTokens ≤ d.numOutputTokens) :
    d.shielded g = d.outputText.length := by
  simp [shielded, Nat.sub_eq_zero_of_le h]

theorem shielded_le : d.shielded g ≤ (d.appendTokens g).outputText.length := by
  have hsplit := congrArg (fun l ↦ (textOf l).length)
    (take_append_drop (d.params.minTokens - d.numOutputTokens) g)
  simp only [textOf_append, length_append] at hsplit
  simp only [shielded, appendTokens_outputText, length_append]
  omega

theorem outputText_length_le_shielded : d.outputText.length ≤ d.shielded g := by
  simp [shielded]

theorem shielded_append_of_le (h : d.numOutputTokens + g.length ≤ d.params.minTokens) :
    d.shielded (g ++ tokens) = (d.appendTokens g).shielded tokens := by
  simp only [shielded, appendTokens_params, appendTokens_numOutputTokens, appendTokens_outputText,
    take_append, textOf_append, take_of_length_le (Nat.le_sub_of_add_le' h),
    append_assoc, Nat.sub_sub]

theorem shielded_append_of_ge (h : d.params.minTokens ≤ d.numOutputTokens + g.length) :
    d.shielded (g ++ tokens) = d.shielded g := by
  have hle : d.params.minTokens - d.numOutputTokens ≤ g.length := by omega
  simp only [shielded, take_append_of_le_length hle]

def windowEnds (d : BaseIncrementalDetokenizer) (g : List DecodedToken) (s : Text) : Set ℕ :=
  {e | d.shielded g < e ∧ EndsAt s (d.appendTokens g).outputText e}

def stopAt (d : BaseIncrementalDetokenizer) (s : Text) (e : ℕ) : BaseIncrementalDetokenizer :=
  { d with outputText := cutAt d.outputText s d.params.includeStopStrInOutput e }

variable {s : Text} {e : ℕ} {groups : List (List DecodedToken)} {stopTerminated : Bool}
  {params : StopParams}

theorem minTokens_lt_of_mem_windowEnds (he : e ∈ d.windowEnds g s) :
    d.params.minTokens < d.numOutputTokens + g.length := by
  by_contra hle
  have := he.2.1
  have := he.1
  rw [shielded_of_le (by omega)] at this
  omega

theorem evaluateStop_eq (hs : s ∈ d.params.stop)
    (hmin : d.params.minTokens < d.numOutputTokens) (off) :
    d.evaluateStop off =
      match checkStopStrings d.outputText (d.outputText.length - off)
        d.params.includeStopStrInOutput d.params.stop with
      | some (stopString, truncateTo) =>
        (some stopString, { d with outputText := truncate d.outputText truncateTo })
      | none => (none, d) :=
  if_pos ⟨ne_nil_of_mem hs, hmin⟩

theorem update_cases (hg : g ≠ []) : (d.update g false = (none, d.appendTokens g) ∧
        ∀ s ∈ d.params.stop, ∀ e, e ∉ d.windowEnds g s) ∨
      ∃ s ∈ d.params.stop, ∃ e, IsLeast (d.windowEnds g s) e ∧
        d.update g false = (some s, (d.appendTokens g).stopAt s e) := by
  rw [update_eq hg]
  by_cases hnone : ∀ s ∈ d.params.stop, ∀ e, e ∉ d.windowEnds g s
  · refine .inl ⟨?_, hnone⟩
    have hcheck : checkStopStrings _ (_ - _) d.params.includeStopStrInOutput d.params.stop = none :=
      (checkStopStrings_eq_none_iff d.params.stop_ne_nil).mpr
        fun s hs e hoff hocc ↦ hnone s hs e ⟨hoff, hocc⟩
    simp only [evaluateStop, appendTokens_params, hcheck, ite_self]
  · right
    obtain ⟨s, hs, e, he⟩ : ∃ s ∈ d.params.stop, ∃ e, e ∈ d.windowEnds g s := by
      simpa only [not_forall, not_not, exists_prop] using hnone
    have hmin := minTokens_lt_of_mem_windowEnds he
    rw [evaluateStop_eq (d := d.appendTokens g) hs (by simpa using hmin)]
    split
    next s' cut hcheck =>
      obtain ⟨hs', e', he', htext⟩ := of_checkStopStrings d.params.stop_ne_nil hcheck
      exact ⟨s', hs', e', he', by rw [htext]; rfl⟩
    next hcheck =>
      exact absurd he.2 ((checkStopStrings_eq_none_iff d.params.stop_ne_nil).mp hcheck s hs e he.1)

theorem update_head {h stop} (hstop : d.params.stop = h :: stop)
    (hg : g ≠ []) (he : IsLeast (d.windowEnds g h) e) :
    d.update g false = (some h, (d.appendTokens g).stopAt h e) := by
  have hmin := minTokens_lt_of_mem_windowEnds he.1
  have hne := d.params.stop_ne_nil
  rw [hstop] at hne
  obtain ⟨cut, hcheck, htext⟩ :=
    checkStopStrings_head d.params.includeStopStrInOutput hne he
  rw [update_eq hg, evaluateStop_eq (s := h) (by simp [hstop]) (by simpa using hmin)]
  simp only [appendTokens_params, hstop, hcheck, htext]
  rfl

/-- Calls of `update`, each with its group of tokens, up to the first report. A stop token of the
engine is in the last one. -/
def feed (d : BaseIncrementalDetokenizer) (stopTerminated : Bool) :
    List (List DecodedToken) → Option Text × BaseIncrementalDetokenizer
  | [] => (none, d)
  | g :: groups =>
    match d.update g (stopTerminated && groups.isEmpty) with
    | (some s, d) => (some s, d)
    | (none, d) => d.feed stopTerminated groups

def outcome (result : Option Text × BaseIncrementalDetokenizer) : Option Text × Text :=
  (result.1, result.2.outputText)

/-- The text up to the first end after `off` of the first stop string, whatever the others. -/
def firstMatch (params : StopParams) (text : Text) (off : ℕ) : Option Text × Text :=
  match params.stop with
  | [] => (none, text)
  | h :: _ =>
    match findFrom h text (off + 1 - h.length) with
    | some i => (some h, cutAt text h params.includeStopStrInOutput (i + h.length))
    | none => (none, text)

theorem feed_cons_none
    (h : d.update g (stopTerminated && groups.isEmpty) = (none, d.appendTokens g)) :
    d.feed stopTerminated (g :: groups) = (d.appendTokens g).feed stopTerminated groups := by
  rw [feed, h]

theorem feed_cons_some {d'} (h : d.update g (stopTerminated && groups.isEmpty) = (some s, d')) :
    d.feed stopTerminated (g :: groups) = (some s, d') := by
  rw [feed, h]

theorem cutAt_append {text more inc} (he : e ≤ text.length) :
    cutAt (text ++ more) s inc e = cutAt text s inc e := by
  rw [cutAt, cutAt, take_append_of_le_length]
  split_ifs <;> omega

section

variable {h : Text} {stop : List Text} (hstop : d.params.stop = h :: stop)
include hstop

theorem firstMatch_of_isLeast {text off e} (he : IsLeast {e | off < e ∧ EndsAt h text e} e) :
    firstMatch d.params text off = (some h, cutAt text h d.params.includeStopStrInOutput e) := by
  have hle := he.1.2.length_le
  have hfind := findFrom_window.mpr (by rwa [Nat.sub_add_cancel hle])
  simp only [firstMatch, hstop, hfind, Nat.sub_add_cancel hle]

theorem firstMatch_congr {text off off'} (hle : off ≤ off')
    (hno : ∀ e, off < e → e ≤ off' → ¬ EndsAt h text e) :
    firstMatch d.params text off = firstMatch d.params text off' := by
  simp only [firstMatch, hstop, findFrom_window_congr hle hno]

section

variable (hleads : d.params.FirstLeads)
  (hno : d.params.minTokens = 0 → ∀ e, ¬ EndsAt h d.outputText e)

include hleads hno

theorem exists_leading_end {s} (hs : s ∈ d.params.stop) {e} (he : e ∈ d.windowEnds g s) :
    ∃ e, e ∈ d.windowEnds g h := by
  have hlead := hleads h (by simp [hstop]) s hs
  by_cases hmin : d.params.minTokens = 0
  · rw [if_pos hmin] at hlead
    obtain ⟨e', -, he'⟩ := he.2.of_isInfix hlead
    refine ⟨e', ?_, he'⟩
    rw [shielded_of_ge (by omega)]
    by_contra hle
    exact hno hmin e' ((endsAt_append (by omega)).mp he')
  · rw [if_neg hmin] at hlead
    exact ⟨e, he.1, he.2.of_isSuffix hlead⟩

theorem update_leading (hg : g ≠ []) :
    (d.update g false = (none, d.appendTokens g) ∧ ∀ e, e ∉ d.windowEnds g h) ∨
      ∃ e, IsLeast (d.windowEnds g h) e ∧
        d.update g false = (some h, (d.appendTokens g).stopAt h e) := by
  by_cases hfound : ∃ e, e ∈ d.windowEnds g h
  · classical
    right
    have hleast : IsLeast (d.windowEnds g h) (Nat.find hfound) :=
      ⟨Nat.find_spec hfound, fun _ he ↦ Nat.find_min' hfound he⟩
    exact ⟨_, hleast, update_head hstop hg hleast⟩
  · left
    obtain hnone | ⟨s, hs, e, he, -⟩ := d.update_cases hg
    · exact ⟨hnone.1, hnone.2 h (by simp [hstop])⟩
    · exact absurd (exists_leading_end hstop hleads hno hs he.1) hfound

theorem feed_leading {groups} (hgroups : ∀ g ∈ groups, g ≠ []) :
    outcome (d.feed false groups) = firstMatch d.params
      (d.appendTokens groups.flatten).outputText (d.shielded groups.flatten) := by
  induction groups generalizing d with
  | nil =>
    have hnone : findFrom h d.outputText (d.outputText.length + 1 - h.length) = none := by
      rw [findFrom_window_eq_none]
      intro e he hocc
      have := hocc.1
      omega
    simp [feed, outcome, firstMatch, hstop, shielded, hnone]
  | cons g groups ih =>
    have hg := hgroups g (by simp)
    rw [flatten_cons, appendTokens_append, appendTokens_outputText]
    obtain ⟨hupdate, hwindow⟩ | ⟨e, he, hupdate⟩ := update_leading hstop hleads hno hg
    · have hno' : d.params.minTokens = 0 → ∀ e, ¬ EndsAt h (d.appendTokens g).outputText e := by
        intro hmin e hocc
        by_cases hlt : d.outputText.length < e
        · exact hwindow e ⟨by rw [shielded_of_ge (by omega)]; exact hlt, hocc⟩
        · exact hno hmin e ((endsAt_append (by omega)).mp hocc)
      have hih := ih (d := d.appendTokens g) hstop hleads hno'
        fun g' hg' ↦ hgroups g' (by simp [hg'])
      rw [feed_cons_none (by simpa using hupdate), hih]
      by_cases hmin : d.numOutputTokens + g.length ≤ d.params.minTokens
      · rw [shielded_append_of_le hmin]
        rfl
      rw [shielded_append_of_ge (by omega), shielded_of_ge
        (by rw [appendTokens_params, appendTokens_numOutputTokens]; omega)]
      refine (firstMatch_congr hstop shielded_le fun e hlt hle hocc ↦ ?_).symm
      exact hwindow e ⟨hlt, (endsAt_append hle).mp hocc⟩
    · have hmin := minTokens_lt_of_mem_windowEnds he.1
      have hlen : e ≤ (d.appendTokens g).outputText.length := he.1.2.1
      rw [feed_cons_some (by simpa using hupdate), shielded_append_of_ge (by omega),
        firstMatch_of_isLeast hstop]
      · exact Prod.ext rfl (cutAt_append hlen).symm
      · refine ⟨⟨he.1.1, he.1.2.append _⟩, fun e' he' ↦ ?_⟩
        by_contra hlt
        exact hlt (he.2 ⟨he'.1, (endsAt_append (by omega)).mp he'.2⟩)

end

end

theorem feed_of_no_stop (hstop : d.params.stop = []) (hgroups : ∀ g ∈ groups, g ≠ []) :
    d.feed false groups = (none, d.appendTokens groups.flatten) := by
  induction groups generalizing d with
  | nil => simp [feed]
  | cons g groups ih =>
    obtain ⟨hupdate, -⟩ | ⟨s, hs, -⟩ := d.update_cases (hgroups g (by simp))
    · rw [feed_cons_none (by simpa using hupdate), flatten_cons, appendTokens_append]
      exact ih hstop fun g' hg' ↦ hgroups g' (by simp [hg'])
    · simp [hstop] at hs

def decodedTokens (d : BaseIncrementalDetokenizer) (stopTerminated : Bool)
    (tokens : List DecodedToken) : List DecodedToken :=
  if stopTerminated && !d.params.includeStopStrInOutput then
    tokens.dropLast ++ (tokens.getLast?.map DecodedToken.skip).toList
  else tokens

theorem decodedTokens_appendTokens (stopTerminated) :
    (d.appendTokens g).decodedTokens stopTerminated tokens = d.decodedTokens stopTerminated tokens :=
  rfl

theorem feed_stopTerminated (stopTerminated) (hgroups : ∀ g ∈ groups, g ≠ []) :
    ∃ groups' : List (List DecodedToken), (∀ g ∈ groups', g ≠ []) ∧
      groups'.flatten = d.decodedTokens stopTerminated groups.flatten ∧
      d.feed stopTerminated groups = d.feed false groups' := by
  induction groups generalizing d with
  | nil => exact ⟨[], by simp, by simp [decodedTokens], rfl⟩
  | cons g groups ih =>
    have hg := hgroups g (by simp)
    have hrest : ∀ g ∈ groups, g ≠ [] := fun g' hg' ↦ hgroups g' (by simp [hg'])
    by_cases hlast : groups = []
    · subst hlast
      by_cases hskip : stopTerminated = true ∧ d.params.includeStopStrInOutput = false
      · obtain ⟨rfl, hinc⟩ := hskip
        obtain ⟨front, last, rfl⟩ := (eq_nil_or_concat' g).resolve_left hg
        refine ⟨[front ++ [last.skip]], by simp, by simp [decodedTokens, hinc], ?_⟩
        simp only [feed, isEmpty_nil, Bool.and_true, update_skip hinc]
      · refine ⟨[g], by simpa using hg, ?_, ?_⟩
        · cases stopTerminated <;> simp_all [decodedTokens]
        cases stopTerminated with
        | false => rfl
        | true =>
          simp only [true_and, Bool.not_eq_false] at hskip
          simp only [feed, isEmpty_nil, Bool.and_true, update_of_include hskip]
    · have hmore : (stopTerminated && groups.isEmpty) = false := by simp [hlast]
      obtain ⟨groups', hne, hflat, hfeed⟩ := ih (d := d.appendTokens g) hrest
      have hflatten : groups.flatten ≠ [] := by
        intro hnil
        obtain ⟨g', hg'⟩ := exists_mem_of_ne_nil _ hlast
        exact hrest g' hg' (flatten_eq_nil_iff.mp hnil g' hg')
      refine ⟨g :: groups', by simpa using ⟨hg, hne⟩, ?_, ?_⟩
      · rw [flatten_cons, hflat, flatten_cons, decodedTokens_appendTokens, decodedTokens,
          decodedTokens]
        by_cases hskip : (stopTerminated && !d.params.includeStopStrInOutput) = true
        · rw [if_pos hskip, if_pos hskip, dropLast_append_of_ne_nil hflatten,
            getLast?_append_of_ne_nil _ hflatten, append_assoc]
        · rw [if_neg hskip, if_neg hskip]
      · obtain ⟨hupdate, -⟩ | ⟨s, -, e, -, hupdate⟩ := d.update_cases hg
        · rw [feed_cons_none (by rw [hmore, hupdate]), hfeed,
            feed_cons_none (by simpa using hupdate)]
        · rw [feed_cons_some (by rw [hmore, hupdate]), feed_cons_some (by simpa using hupdate)]

theorem feed_new (hleads : params.FirstLeads) (promptTokenIds)
    (stopTerminated) (hgroups : ∀ g ∈ groups, g ≠ []) :
    let d := new params promptTokenIds
    let tokens := d.decodedTokens stopTerminated groups.flatten
    outcome (d.feed stopTerminated groups) = firstMatch params (textOf tokens) (d.shielded tokens) := by
  intro d tokens
  obtain ⟨groups', hne, hflat, hfeed⟩ := d.feed_stopTerminated stopTerminated hgroups
  rw [hfeed]
  cases hstop : params.stop with
  | nil =>
    rw [feed_of_no_stop hstop hne, hflat]
    simp [outcome, firstMatch, hstop, d, tokens, new]
  | cons h stop =>
    rw [feed_leading hstop hleads _ hne, hflat]
    · rfl
    · rintro - e ⟨he, hsuffix⟩
      have hnil : h = [] := by simpa [d, new] using hsuffix
      exact params.stop_ne_nil h (by simp [hstop]) hnil

theorem update_other {h} (hs : s ∈ d.params.stop) (hg : g ≠ [])
    (he : e ∈ d.windowEnds g s) (hh : ∀ e, e ∉ d.windowEnds g h) :
    ∃ s' d', s' ≠ h ∧ d.update g false = (some s', d') := by
  obtain ⟨-, hnone⟩ | ⟨s', -, e', he', hupdate⟩ := d.update_cases hg
  · exact absurd he (hnone s hs e)
  · refine ⟨s', _, ?_, hupdate⟩
    intro heq
    exact hh e' (heq ▸ he'.1)

theorem groupings_differ {h t q stop front} (hstop : params.stop = h :: stop) (ht : t ∈ params.stop)
    (hfront : front.length = params.minTokens) (htext : textOf front ++ q = t) (hq : q ≠ [])
    (hno : ∀ e, (textOf front).length < e → ¬ EndsAt h t e) :
    let d := new params []
    let start := front ++ [⟨0, q⟩]
    outcome (d.feed false [start, [⟨0, h⟩]]) ≠ outcome (d.feed false [start ++ [⟨0, h⟩]]) := by
  intro d start
  have hcount : d.numOutputTokens = 0 := by simp [d, new, numOutputTokens]
  have hstart : (d.appendTokens start).outputText = t := by simp [d, new, start, htext]
  have hshield : d.shielded start = (textOf front).length := by
    simp [d, shielded, start, new, numOutputTokens, ← hfront]
  have hshield' : d.shielded (start ++ [⟨0, h⟩]) = (textOf front).length := by
    rw [shielded_append_of_ge, hshield]
    simp only [hcount, start, length_append, hfront]
    exact Nat.le_add_right _ _ |>.trans (Nat.le_add_left _ _)
  have hlen : (textOf front).length < t.length := by
    have := length_pos_iff.mpr hq
    rw [← htext, length_append]
    omega
  obtain ⟨s, d1, hs, hfirst⟩ := update_other ht (g := start) (by simp [start])
    ⟨by rwa [hshield], by rw [hstart, endsAt_length]⟩
    fun e he ↦ hno e (by rw [← hshield]; exact he.1) (by rw [← hstart]; exact he.2)
  have hsecond : ∃ d2, d.update (start ++ [⟨0, h⟩]) false = (some h, d2) := by
    have hend : ∃ e, e ∈ d.windowEnds (start ++ [⟨0, h⟩]) h := by
      refine ⟨(t ++ h).length, ?_, ?_⟩
      · rw [hshield', length_append]
        omega
      · rw [appendTokens_append, appendTokens_outputText, hstart, textOf_cons, textOf_nil,
          append_nil, endsAt_length]
        exact suffix_append _ _
    classical
    exact ⟨_, update_head hstop (by simp) ⟨Nat.find_spec hend, fun _ he ↦ Nat.find_min' hend he⟩⟩
  obtain ⟨d2, hsecond⟩ := hsecond
  rw [feed_cons_some (by simpa using hfirst), feed_cons_some (by simpa using hsecond)]
  intro heq
  exact hs (Option.some.inj (congrArg Prod.fst heq))

theorem firstLeads_of_groupings
    (hsame : ∀ groups : List (List DecodedToken), (∀ g ∈ groups, g ≠ []) →
      outcome ((new params []).feed false groups) =
        outcome ((new params []).feed false (groups.flatten.map ([·])))) :
    params.FirstLeads := by
  intro h hh t ht
  obtain ⟨stop, hstop⟩ : ∃ stop, params.stop = h :: stop :=
    ⟨params.stop.tail, (cons_head?_tail hh).symm⟩
  have htne := params.stop_ne_nil t ht
  -- the two groupings hold the same tokens
  have hdiffer : ∀ (front : List DecodedToken) (q : Text), front.length = params.minTokens →
      textOf front ++ q = t → q ≠ [] →
      (∀ e, (textOf front).length < e → ¬ EndsAt h t e) → False := by
    intro front q hfront htext hq hno
    refine groupings_differ hstop ht hfront htext hq hno ?_
    rw [hsame _ (by simp), hsame [_ ++ _] (by simp)]
    simp
  split_ifs with hmin
  · by_contra hinfix
    refine hdiffer [] t (by simp [hmin]) (by simp) htne fun e _ hocc ↦ ?_
    exact hinfix (isInfix_iff_endsAt.mpr ⟨e, hocc⟩)
  by_contra hsuffix
  refine hdiffer (⟨0, t.dropLast⟩ :: replicate (params.minTokens - 1) ⟨0, []⟩)
    [t.getLast htne] ?_ ?_ (by simp) fun e he hocc ↦ ?_
  · simp only [length_cons, length_replicate]
    omega
  · rw [textOf_cons, textOf_replicate, append_nil, dropLast_append_getLast]
  have hlen := hocc.1
  rw [textOf_cons, textOf_replicate, append_nil, length_dropLast] at he
  have : e = t.length := by omega
  exact hsuffix (endsAt_length.mp (this ▸ hocc))

end BaseIncrementalDetokenizer

open BaseIncrementalDetokenizer in
/-- How the tokens are grouped never matters exactly when the first stop string ends wherever
another one does, or before. -/
theorem stop_outcome_independent_iff (params : StopParams) :
    (∀ (promptTokenIds : List ℕ) (stopTerminated : Bool) (groups : List (List DecodedToken)),
      (∀ g ∈ groups, g ≠ []) →
      outcome ((new params promptTokenIds).feed stopTerminated groups) =
        outcome ((new params promptTokenIds).feed stopTerminated
          (groups.flatten.map ([·])))) ↔ params.FirstLeads := by
  constructor
  · intro h
    exact firstLeads_of_groupings fun groups hgroups ↦ h [] false groups hgroups
  intro hleads promptTokenIds stopTerminated groups hgroups
  have hsingle : (groups.flatten.map ([·])).flatten = groups.flatten := by
    rw [← flatMap_def, flatMap_singleton']
  have hone : ∀ g ∈ groups.flatten.map ([·]), g ≠ [] := by
    intro g hg
    obtain ⟨token, -, rfl⟩ := mem_map.mp hg
    simp
  rw [feed_new hleads _ _ hgroups, feed_new hleads _ _ hone, hsingle]

open BaseIncrementalDetokenizer in
/-- Stop strings `b` and `a` in this order, and tokens `a` and `b`: together they report `b`. -/
theorem grouped_stop_differs :
    let params : StopParams := { stop := [['b'], ['a']] }
    outcome ((new params []).feed false [[⟨0, ['a']⟩], [⟨1, ['b']⟩]]) = (some ['a'], []) ∧
      outcome ((new params []).feed false [[⟨0, ['a']⟩, ⟨1, ['b']⟩]]) = (some ['b'], ['a']) := by
  decide

end VllmEngine.Output
