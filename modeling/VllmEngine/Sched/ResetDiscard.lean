import VllmEngine.Sched.OutputBalance
import VllmEngine.Sched.SessionHashes

namespace VllmEngine.Sched

open VllmEngine.Core EngineRequest ReqOp

variable {H : Hashing} {cfg : EngineConfig} {st : RequestState}

theorem RunOf.balanced {C} (hasync : cfg.asyncScheduling = true)
    (hC : ∀ st op, C st op → OneInFlight st op) (h : RunOf H cfg C st)
    (hgo : st.request.status.isFinished = false) : Balanced st := by
  induction h with
  | new h => exact h.balanced
  | @step st st' op h hop hrun ih =>
    cases hfin : st.request.status.isFinished with
    | true =>
      rw [(move hrun).finished hfin] at hgo
      cases hgo
    | false => exact (ih hfin).move hasync (hC st op hop) (move hrun) hgo

theorem output_of_negative {op : ReqOp} {e} (he : e ≠ .disabled)
    (hrun : op.run H cfg st = .error e) : ∃ s rest generated ga, st.inFlight = s :: rest ∧
      op = .output generated ga ∧ s.Returns generated ∧ st.request.status.isFinished = false ∧
      st.request.applyOutput H cfg s generated ga = .error e := by
  have hdisabled {e' : Fault} (h : (.error e' : Except Fault RequestState) = .error e) :
      e' ≠ .disabled := fun h' ↦ he (h' ▸ (Except.error.inj h).symm)
  cases op with
  | output generated ga =>
    simp only [run] at hrun
    split at hrun
    · exact absurd rfl (hdisabled hrun)
    next s rest hin =>
      split at hrun
      next hret =>
        unfold EngineRequest.updateFromOutput at hrun
        cases hfin : st.request.status.isFinished with
        | true =>
          rw [if_pos hfin] at hrun
          cases hrun
        | false =>
          rw [if_neg (by simp [hfin])] at hrun
          cases happ : st.request.applyOutput H cfg s generated ga with
          | error e' =>
            rw [happ] at hrun
            obtain rfl : e' = e := Except.error.inj hrun
            exact ⟨s, rest, generated, ga, hin, rfl, hret, rfl, happ⟩
          | ok out => rw [happ] at hrun; cases hrun
      next => exact absurd rfl (hdisabled hrun)
  | _ =>
    simp only [run] at hrun
    repeat' split at hrun
    all_goals first
      | exact absurd rfl (hdisabled hrun)
      | cases hrun

/-- For a request of the asynchronous scheduler. -/
theorem reset_discards_tokens_of_earlier_steps (hasync : cfg.asyncScheduling = true)
    (h : RunOf H cfg OneInFlight st) :
    (∀ op, OneInFlight st op → op.run H cfg st ≠ .error .negativeOutputPlaceholders ∧
      op.run H cfg st ≠ .error .negativeComputedTokens) ∧
    ∀ s ∈ st.inFlight.head?, st.request.status.isFinished = false →
      ∀ generated ga, s.Returns generated → OneInFlight st (.output generated ga) →
        ∃ r' kept stopped, st.request.applyOutput H cfg s generated ga = .ok (r', kept, stopped) ∧
          (s.stale = true → kept = []) ∧
          (s.stale = false → kept <+: generated ∧ (generated ≠ [] → kept ≠ []) ∧
            (stopped = false → kept = generated)) := by
  have hout : ∀ s rest, st.inFlight = s :: rest → st.request.status.isFinished = false →
      ∀ generated ga, s.Returns generated → OneInFlight st (.output generated ga) →
        ∃ out, st.request.applyOutput H cfg s generated ga = .ok out ∧
          Applied s generated st.request out.1 out.2.1 out.2.2 := by
    intro s rest hin hgo generated ga hret hC
    have hb := h.balanced hasync (fun _ _ hop ↦ hop) hgo
    exact applyOutput_applied hasync (hb.covered hin hret (hC s (by simp [hin]))) ga
  constructor
  · intro op hC
    have hno : ∀ e, e ≠ .disabled → op.run H cfg st ≠ .error e := by
      intro e he hrun
      obtain ⟨s, rest, generated, ga, hin, rfl, hret, hgo, happ⟩ := output_of_negative he hrun
      obtain ⟨out, hok, -⟩ := hout s rest hin hgo generated ga hret hC
      rw [happ] at hok
      cases hok
    exact ⟨hno _ (by decide), hno _ (by decide)⟩
  · intro s hs hgo generated ga hret hC
    obtain ⟨rest, hin⟩ : ∃ rest, st.inFlight = s :: rest := List.head?_eq_some_iff.mp hs
    obtain ⟨⟨r', kept, stopped⟩, hok, ha⟩ := hout s rest hin hgo generated ga hret hC
    have hb := h.balanced hasync (fun _ _ hop ↦ hop) hgo
    refine ⟨r', kept, stopped, hok, fun hstale ↦ ?_, fun hstale ↦ ⟨ha.initial, fun hne ↦ ?_, fun hstop ↦ ?_⟩⟩
    · by_cases hnil : generated = []
      · exact List.prefix_nil.mp (hnil ▸ ha.initial)
      · have hchunk : s.isPrefillChunk = false := by simpa [hnil] using hret.1
        exact (ha.discarded hnil ((hb.head_stale hin hchunk).trans hstale)).2.1
    · have hchunk : s.isPrefillChunk = false := by simpa [hne] using hret.1
      exact (ha.accepted hne ((hb.head_stale hin hchunk).trans hstale)).2
    · by_cases hnil : generated = []
      · rw [hnil]
        exact List.prefix_nil.mp (hnil ▸ ha.initial)
      · have hchunk : s.isPrefillChunk = false := by simpa [hnil] using hret.1
        exact (ha.going hstop).2 ((hb.head_stale hin hchunk).trans hstale)

instance (st : RequestState) (s : Step) (generated : List ℕ) :
    Decidable (LateRejection st s generated) :=
  inferInstanceAs (Decidable (_ ∧ _ ∧ (_ ∨ _)))

instance (st : RequestState) (op : ReqOp) : Decidable (OneInFlight st op) :=
  match op with
  | .forcePreempt => inferInstanceAs (Decidable (_ = _))
  | .output generated _ =>
    inferInstanceAs (Decidable (∀ s ∈ st.inFlight.head?, ¬ LateRejection st s generated))
  | .outputInvalid _ =>
    inferInstanceAs (Decidable (∀ s ∈ st.inFlight.head?, s.stale = true → s.isPrefillChunk = true))
  | .scheduleRunning _ | .scheduleWaiting .. | .preempt | .invalidBlocks _ | .drafts _
  | .streamingUpdate _ | .loadRemote _ | .remoteLoaded _ | .grammarReady | .finish _ =>
    .isTrue trivial

def asyncConfig : EngineConfig where
  blockSize := 2
  maxModelLen := 100
  asyncScheduling := true

def twoTokens : EngineRequest where
  requestId := "a"
  allTokenIds := [1, 2]
  promptTokenIds := [1, 2]
  numPromptTokens := 2
  maxTokens := 10

theorem twoTokens_fresh : twoTokens.Fresh := by
  unfold EngineRequest.Fresh
  decide

/-- With two steps in flight the second output counts placeholders that the reset dropped. Without
one the flag is left to a later output. -/
theorem reset_miscounts_outputs : runAll tokenHashing asyncConfig
        [.scheduleWaiting ⟨100, none⟩ 0, .scheduleRunning ⟨100, none⟩, .forcePreempt,
          .output [5] true, .output [6] true] ⟨twoTokens, []⟩ = .error .negativeOutputPlaceholders ∧
      ∃ st s rest r', runAll tokenHashing asyncConfig
          [.scheduleWaiting ⟨100, none⟩ 0, .output [5] true, .forcePreempt,
            .scheduleWaiting ⟨100, none⟩ 0] ⟨twoTokens, []⟩ = .ok st ∧
        st.inFlight = s :: rest ∧ s.stale = false ∧
        st.request.applyOutput tokenHashing asyncConfig s [6] true = .ok (r', [], false) :=
  ⟨rfl, _, _, _, _, rfl, rfl, rfl, rfl⟩

theorem reset_discards_tokens_of_one_step :
    ∃ st s rest r' stopped, runGuarded tokenHashing asyncConfig OneInFlight
        [.scheduleWaiting ⟨100, none⟩ 0, .forcePreempt, .scheduleWaiting ⟨100, none⟩ 0]
        ⟨twoTokens, []⟩ = .ok st ∧
      st.inFlight = s :: rest ∧ s.stale = true ∧
      st.request.applyOutput tokenHashing asyncConfig s [5] true = .ok (r', [], stopped) := by
  obtain ⟨st, s, rest, hrun, hin, hstale, hret, hgo, hC⟩ : ∃ st s rest,
      runGuarded tokenHashing asyncConfig OneInFlight
        [.scheduleWaiting ⟨100, none⟩ 0, .forcePreempt, .scheduleWaiting ⟨100, none⟩ 0]
        ⟨twoTokens, []⟩ = .ok st ∧
      st.inFlight = s :: rest ∧ s.stale = true ∧ s.Returns [5] ∧
      st.request.status.isFinished = false ∧ OneInFlight st (.output [5] true) :=
    ⟨_, _, _, rfl, rfl, rfl, by decide, rfl, by decide⟩
  have h := RunOf.runGuarded (.new twoTokens_fresh) hrun
  obtain ⟨r', kept, stopped, hout, hdiscard, -⟩ :=
    (reset_discards_tokens_of_earlier_steps rfl h).2 s (by simp [hin]) hgo [5] true hret hC
  obtain rfl := hdiscard hstale
  exact ⟨st, s, rest, r', stopped, hrun, hin, hstale, hout⟩

end VllmEngine.Sched
