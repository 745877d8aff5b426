import VllmEngine.Sched.StepSpecs
import VllmEngine.Structured.Manager
import Mathlib.Data.List.TakeDrop

namespace VllmEngine.Structured

open VllmEngine.Core Sched EngineRequest List

variable {H : Hashing} {cfg : EngineConfig} {r : EngineRequest} {s : Step} {generated : List ℕ}

def Stops (cfg : SchedulerConfig) (r : SchedRequest) (tokens : List ℕ) : Prop :=
  SchedRequest.checkStop cfg { r with
    allTokenIds := r.allTokenIds ++ tokens, outputTokenIds := r.outputTokenIds ++ tokens } ≠ none

instance (cfg : SchedulerConfig) (r : SchedRequest) (tokens : List ℕ) :
    Decidable (Stops cfg r tokens) := by
  unfold Stops
  infer_instance

theorem checkStop_congr (cfg) {r r'}
    (hall : r'.allTokenIds = r.allTokenIds) (hout : r'.outputTokenIds = r.outputTokenIds)
    (hparams : r'.samplingParams = r.samplingParams) (hmax : r'.maxTokens = r.maxTokens) :
    SchedRequest.checkStop cfg r' = SchedRequest.checkStop cfg r := by
  unfold SchedRequest.checkStop Request.numTokens
  rw [hall, hout, hparams, hmax]

theorem stops_appendOutputTokenId {cfg r tokenId tokens} : Stops cfg
    (SchedRequest.appendOutputTokenId H cfg r tokenId) tokens ↔
      Stops cfg r (tokenId :: tokens) := by
  have heq : SchedRequest.checkStop cfg { SchedRequest.appendOutputTokenId H cfg r tokenId with
      allTokenIds := r.allTokenIds ++ [tokenId] ++ tokens
      outputTokenIds := r.outputTokenIds ++ [tokenId] ++ tokens } =
    SchedRequest.checkStop cfg { r with
      allTokenIds := r.allTokenIds ++ tokenId :: tokens
      outputTokenIds := r.outputTokenIds ++ tokenId :: tokens } :=
    checkStop_congr cfg (append_assoc _ _ _) (append_assoc _ _ _) rfl rfl
  exact not_congr (iff_of_eq (congrArg (· = none) heq))

def Suffices (cfg : SchedulerConfig) (r : SchedRequest) (generated first : List ℕ) : Prop :=
  first = generated ∨ first ≠ [] ∧ Stops cfg r first

instance (cfg : SchedulerConfig) (r : SchedRequest) (generated first : List ℕ) :
    Decidable (Suffices cfg r generated first) := by
  unfold Suffices
  infer_instance

structure Kept (cfg : SchedulerConfig) (r : SchedRequest) (generated : List ℕ)
    (out : SchedRequest × List ℕ × Bool) : Prop where
  all : out.1.allTokenIds = r.allTokenIds ++ out.2.1
  output : out.1.outputTokenIds = r.outputTokenIds ++ out.2.1
  least : ∀ first, first <+: generated → Suffices cfg r generated first → out.2.1 <+: first
  stops : out.2.2 = true → out.2.1 ≠ [] ∧ Stops cfg r out.2.1
  resumable : out.1.resumable = r.resumable
  queue : out.1.streamingQueue = r.streamingQueue

theorem updateRequestWithOutput_kept (H) (cfg) (r) (generated) :
    Kept cfg r generated (SchedRequest.updateRequestWithOutput H cfg r generated) := by
  induction generated generalizing r with
  | nil =>
    refine ⟨?_, ?_, fun _ _ _ ↦ nil_prefix, fun h ↦ ?_, rfl, rfl⟩
    · exact (append_nil _).symm
    · exact (append_nil _).symm
    · cases h
  | cons tokenId tokenIds ih =>
    unfold SchedRequest.updateRequestWithOutput
    dsimp only
    split
    next status hstop =>
      refine ⟨rfl, rfl, fun first hfirst hsuff ↦ ?_, fun _ ↦ ⟨by simp, ?_⟩, rfl, rfl⟩
      · cases first with
        | nil => rcases hsuff with h | h <;> simp at h
        | cons t first =>
          obtain ⟨rfl, -⟩ := cons_prefix_cons.mp hfirst
          exact ⟨first, rfl⟩
      · intro hnone
        have hsame : SchedRequest.checkStop cfg (SchedRequest.appendOutputTokenId H cfg r tokenId) =
          none := hnone
        rw [hsame] at hstop
        cases hstop
    next hgo =>
      have h := ih (SchedRequest.appendOutputTokenId H cfg r tokenId)
      refine ⟨?_, ?_, fun first hfirst hsuff ↦ ?_, fun hs ↦ ⟨by simp, ?_⟩, h.resumable, h.queue⟩
      · exact h.all.trans (append_assoc r.allTokenIds [tokenId] _)
      · exact h.output.trans (append_assoc r.outputTokenIds [tokenId] _)
      · cases first with
        | nil => rcases hsuff with h | h <;> simp at h
        | cons t first =>
          obtain ⟨rfl, hrest⟩ := cons_prefix_cons.mp hfirst
          refine cons_prefix_cons.mpr ⟨rfl, h.least first hrest ?_⟩
          rcases hsuff with heq | ⟨-, hs⟩
          · exact .inl (cons.inj heq).2
          · refine .inr ⟨fun hnil ↦ ?_, stops_appendOutputTokenId.mpr hs⟩
            rw [hnil] at hs
            exact hs hgo
      · exact stops_appendOutputTokenId.mp (h.stops hs).2

structure Counted (cfg : EngineConfig) (s : Step) (r r' : EngineRequest) (generated kept : List ℕ) :
    Prop where
  computed : r'.numComputedTokens = r.numComputedTokens - numRejected s generated
  computed_le : 0 < r.numComputedTokens → numRejected s generated ≤ r.numComputedTokens
  placeholders : r'.numOutputPlaceholders + (if cfg.asyncScheduling then kept.length else 0) =
    r.numOutputPlaceholders - numRejected s generated
  placeholders_le : 0 < r.numOutputPlaceholders → numRejected s generated ≤ r.numOutputPlaceholders
  fresh : kept ≠ [] → cfg.asyncScheduling = true → r.discardLatestAsyncTokens = false

variable {out : EngineRequest × List ℕ × Bool} {st next : RequestState} {grammarAccepts : Bool}

theorem appendOutput_spec (h : appendOutput H cfg s generated r = .ok out) :
    Kept cfg.toSchedulerConfig r.toSchedRequest generated (out.1.toSchedRequest, out.2) ∧
      Counted cfg s r out.1 generated out.2.1 := by
  unfold appendOutput rejectDrafts at h
  split at h
  · cases h
  next hnc =>
    split at h
    · cases h
    next hph =>
      change updateRequestWithOutput H cfg generated _ = _ at h
      unfold updateRequestWithOutput at h
      split at h
      next hnil =>
        cases h
        refine ⟨⟨(append_nil _).symm, (append_nil _).symm, fun _ _ _ ↦ nil_prefix,
          fun hs ↦ ?_, rfl, rfl⟩, ⟨rfl, by omega, by simp, by omega, fun h ↦ absurd rfl h⟩⟩
        cases hs
      next hne =>
        split at h
        next hdiscard =>
          cases h
          refine ⟨⟨(append_nil _).symm, (append_nil _).symm, fun _ _ _ ↦ nil_prefix,
            fun hs ↦ ?_, rfl, rfl⟩, ⟨rfl, by omega, by simp, by omega, fun h ↦ absurd rfl h⟩⟩
          cases hs
        next hdiscard =>
          have hk := updateRequestWithOutput_kept H cfg.toSchedulerConfig { r.toSchedRequest with
            numComputedTokens := r.numComputedTokens - numRejected s generated
            numOutputPlaceholders := r.numOutputPlaceholders - numRejected s generated } generated
          have ha := SchedRequest.updateRequestWithOutput_appended H cfg.toSchedulerConfig
            { r.toSchedRequest with
              numComputedTokens := r.numComputedTokens - numRejected s generated
              numOutputPlaceholders := r.numOutputPlaceholders - numRejected s generated } generated
          dsimp only at h
          split at h
          next hsync =>
            cases h
            refine ⟨⟨hk.all, hk.output, hk.least, hk.stops, hk.resumable, hk.queue⟩,
              ⟨ha.computed, by omega, ?_, by omega, fun _ hasync ↦ by simpa [hasync] using hdiscard⟩⟩
            rw [if_neg (by simp [hsync])]
            exact ha.placeholders
          next hasync =>
            split at h
            · cases h
            next hroom =>
              cases h
              refine ⟨⟨hk.all, hk.output, hk.least, hk.stops, hk.resumable, hk.queue⟩,
                ⟨ha.computed, by omega, ?_, by omega, fun _ hasync ↦ by simpa [hasync] using hdiscard⟩⟩
              rw [if_pos (by simpa using hasync)]
              exact (Nat.sub_add_cancel (Nat.not_lt.mp hroom)).trans ha.placeholders

def Current (cfg : EngineConfig) (r : EngineRequest) (s : Step) : Prop :=
  if cfg.asyncScheduling then r.numComputedTokens + 1 = r.numTokens + r.numOutputPlaceholders
  else r.numComputedTokens = r.numTokens + s.specTokenIds.length ∧ r.numOutputPlaceholders = 0

instance (cfg : EngineConfig) (r : EngineRequest) (s : Step) : Decidable (Current cfg r s) := by
  unfold Current
  infer_instance

theorem delta_of_current (hcur : Current cfg r s) (hret : s.Returns generated) {r' kept}
    (hc : Counted cfg s r r' generated kept) (hpre : kept <+: generated) (hne : kept ≠ []) :
    ∃ n : ℕ, (r'.numComputedTokens : ℤ) - r'.numOutputPlaceholders = n ∧
      r.numTokens + kept.length ≤ n + 1 ∧ (kept = generated → n + 1 = r.numTokens + kept.length) := by
  have hpos : 0 < kept.length := length_pos_iff.mpr hne
  have hlen := hpre.length_le
  obtain ⟨hnc, hncle, hph, hphle, -⟩ := hc
  unfold Current at hcur
  split at hcur
  next hasync =>
    rw [if_pos hasync] at hph
    exact ⟨r.numTokens + kept.length - 1, by omega, by omega, fun _ ↦ by omega⟩
  next hsync =>
    rw [if_neg hsync] at hph
    have hgen : generated ≠ [] := by
      rintro rfl
      exact hne (prefix_nil.mp hpre)
    have hrej : numRejected s generated = s.specTokenIds.length - (generated.length - 1) := by
      unfold numRejected
      by_cases hspec : s.specTokenIds = []
      · simp [hspec]
      · rw [if_pos ⟨hspec, hgen⟩]
    have hroom := hret.2
    refine ⟨r.numTokens + generated.length - 1, by omega, by omega, fun heq ↦ ?_⟩
    rw [heq]
    omega

open StructuredOutputManager in
theorem examined_of_current (hcur : Current cfg r s) (hret : s.Returns generated) {out}
    (h : appendOutput H cfg s generated r = .ok out) (hne : out.2.1 ≠ []) :
    (∀ t ∈ examined out.1, t = out.2.1.getLast hne) ∧
      (out.2.1 = generated → examined out.1 = [out.2.1.getLast hne]) := by
  obtain ⟨hk, hc⟩ := appendOutput_spec h
  obtain ⟨n, hn, hle, heq⟩ := delta_of_current hcur hret hc (hk.least _ prefix_rfl (.inl rfl)) hne
  have hall : out.1.allTokenIds = r.allTokenIds ++ out.2.1 := hk.all
  have hexam : examined out.1 = (r.allTokenIds ++ out.2.1).drop n := by
    unfold examined
    dsimp only
    rw [hn, hall, if_pos (Int.natCast_nonneg n), Int.toNat_natCast]
  have hlast : (r.allTokenIds ++ out.2.1).drop (r.numTokens + out.2.1.length - 1) =
      [out.2.1.getLast hne] := by
    have hnil : r.allTokenIds ++ out.2.1 ≠ [] := by simp [hne]
    have hdrop := drop_length_sub_one hnil
    rw [length_append, getLast_append_of_ne_nil hnil hne] at hdrop
    exact hdrop
  rw [hexam]
  refine ⟨fun t ht ↦ ?_, fun hall ↦ ?_⟩
  · have hsub : t ∈ (r.allTokenIds ++ out.2.1).drop (r.numTokens + out.2.1.length - 1) :=
      drop_subset_drop_left _ (by omega) ht
    rw [hlast] at hsub
    exact mem_singleton.mp hsub
  · rw [show n = r.numTokens + out.2.1.length - 1 by have := heq hall; omega, hlast]

open StructuredOutputManager in
theorem examined_of_settled {e} (hne : r.outputTokenIds ≠ [])
    (hcur : r.numComputedTokens + 1 = r.numTokens + r.numOutputPlaceholders)
    (hlast : r.outputTokenIds <:+ r.allTokenIds) (habsent : e ∉ r.outputTokenIds) :
    e ∉ examined r := by
  obtain ⟨before, hall⟩ := hlast
  have hpos := length_pos_iff.mpr hne
  have hnum : r.numTokens = before.length + r.outputTokenIds.length := by
    rw [Request.numTokens, ← hall, length_append]
  have hdelta : (r.numComputedTokens : ℤ) - r.numOutputPlaceholders = (r.numTokens - 1 : ℕ) := by omega
  have hexam : examined r = r.allTokenIds.drop (r.numTokens - 1) := by
    unfold examined
    dsimp only
    rw [hdelta, if_pos (Int.natCast_nonneg _), Int.toNat_natCast]
  rw [hexam, ← hall, drop_append, drop_eq_nil_of_le (by omega), nil_append]
  exact fun hmem ↦ habsent (drop_subset _ _ hmem)

theorem applyOutput_eq (grammarAccepts) (h : appendOutput H cfg s generated r = .ok out) :
    r.applyOutput H cfg s generated grammarAccepts =
      if out.2.1 ≠ [] ∧ grammarAccepts = false then
        .ok ({ out.1 with status := .finishedError, resumable := false }, out.2.1, true)
      else .ok out := by
  unfold appendOutput at h
  unfold applyOutput
  cases hr : r.rejectDrafts (numRejected s generated) with
  | error e =>
    rw [hr] at h
    cases h
  | ok r1 =>
    rw [hr] at h
    change updateRequestWithOutput H cfg generated r1 = _ at h
    change (do
      let out ← updateRequestWithOutput H cfg generated r1
      if out.2.1 ≠ [] ∧ grammarAccepts = false then
        pure ({ out.1 with status := .finishedError, resumable := false }, out.2.1, true)
      else pure out : Except Fault _) = _
    rw [h]
    rfl

def SameTokens (r r' : EngineRequest) : Prop :=
  r'.outputTokenIds = r.outputTokenIds ∧ r'.allTokenIds = r.allTokenIds

theorem handleStoppedRequest_tokens (H) (cfg) (r) :
    SameTokens r (r.handleStoppedRequest H cfg) ∨
      (r.handleStoppedRequest H cfg).outputTokenIds = [] ∧ r.toSchedRequest.nextUpdate ≠ none := by
  unfold handleStoppedRequest SchedRequest.handleStoppedRequest SchedRequest.nextUpdate
  split
  next hres =>
    split
    · exact .inl ⟨rfl, rfl⟩
    next hqueue => exact .inr ⟨rfl, by simp [hqueue]⟩
    · exact .inl ⟨rfl, rfl⟩
    · exact .inl ⟨rfl, rfl⟩
  · exact .inl ⟨rfl, rfl⟩

theorem output_tokens {rest} (hflight : st.inFlight = s :: rest)
    (hgoing : st.request.status.isFinished = false)
    (h : appendOutput H cfg s generated st.request = .ok out)
    (hrun : (ReqOp.output generated grammarAccepts).run H cfg st = .ok next) :
    s.Returns generated ∧ (SameTokens out.1 next.request ∨ next.request.outputTokenIds = [] ∧
      out.2.2 = true ∧ st.request.toSchedRequest.nextUpdate ≠ none) := by
  have hmove := ReqOp.move hrun
  have hk := (appendOutput_spec h).1
  cases hmove with
  | late hret hfin =>
    rw [hfin] at hgoing
    cases hgoing
  | @output r s' l _ _ out' hret _ happ =>
    obtain ⟨rfl, rfl⟩ := cons.inj hflight
    refine ⟨hret, ?_⟩
    rw [applyOutput_eq grammarAccepts h] at happ
    have hnext : out.1.toSchedRequest.nextUpdate ≠ none → r.toSchedRequest.nextUpdate ≠ none := by
      have hres : out.1.resumable = r.resumable := hk.resumable
      have hqueue : out.1.streamingQueue = r.streamingQueue := hk.queue
      unfold SchedRequest.nextUpdate
      rw [hres, hqueue]
      split
      · split <;> simp
      · simp
    split at happ
    · cases happ
      rcases handleStoppedRequest_tokens H cfg
        { out.1 with status := .finishedError, resumable := false } with hsame | ⟨-, hupdate⟩
      · exact .inl hsame
      · exact absurd rfl hupdate
    · cases happ
      split
      next hstop =>
        rcases handleStoppedRequest_tokens H cfg out.1 with hsame | ⟨hnil, hupdate⟩
        · exact .inl hsame
        · exact .inr ⟨hnil, hstop, hnext hupdate⟩
      next => exact .inl ⟨rfl, rfl⟩

theorem late_tokens (hfin : st.request.status.isFinished = true)
    (hrun : (ReqOp.output generated grammarAccepts).run H cfg st = .ok next) :
    SameTokens st.request next.request := by
  cases ReqOp.move hrun with
  | late => exact ⟨rfl, rfl⟩
  | output _ hgoing =>
    rw [hgoing] at hfin
    cases hfin

theorem updateAfterSchedule_tokens (n) (spec) :
    SameTokens r (updateAfterSchedule cfg n spec r) := by
  unfold updateAfterSchedule
  dsimp only
  split
  · exact ⟨rfl, rfl⟩
  · exact ⟨rfl, rfl⟩

theorem drafts_tokens {st' specTokenIds}
    (hrun : (ReqOp.drafts specTokenIds).run H cfg st = .ok st') :
    SameTokens st.request st'.request := by
  cases ReqOp.move hrun with
  | drafts =>
    simp only [SameTokens, SchedRequest.updateDraftTokenIds]
    split
    · exact ⟨rfl, rfl⟩
    · exact ⟨rfl, rfl⟩

theorem move_tokens {st' op} (hmove : Move H cfg st op st') (hop : consults op = false) :
    SameTokens st.request st'.request ∨ st'.request.outputTokenIds = [] ∧
      st.request.status = .waitingForStreamingReq ∧ ∃ update, op = .streamingUpdate (some update) := by
  cases hmove with
  | @running r r' s l b h =>
    unfold scheduleRunning at h
    dsimp only at h
    split at h
    next hc =>
      cases h
      exact .inl (updateAfterSchedule_tokens _ _)
    · cases h
  | @waiting r r' s l b hits h =>
    unfold scheduleWaiting at h
    dsimp only at h
    split at h
    · cases h
    next n hn =>
      split at h
      next hc =>
        cases h
        exact .inl (updateAfterSchedule_tokens (r := { r with
          status := .running, numComputedTokens := r.startTokens hits }) _ _)
      · cases h
  | output | late | drafts => cases hop
  | @session r l update hst => exact .inr ⟨rfl, hst, update, rfl⟩
  | preempt | forcePreempt | outputInvalid | invalidBlocks | queued | sessionEnd | loadRemote
  | remoteLoaded | grammarReady | finish => exact .inl ⟨rfl, rfl⟩

end VllmEngine.Structured
