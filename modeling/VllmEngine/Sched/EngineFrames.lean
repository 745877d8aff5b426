import VllmEngine.Sched.OutputBalance
import VllmEngine.Sched.WindowRun

namespace VllmEngine.Sched

open Lib Lib.EState VllmEngine.Core BlockHash BlockPool KVCacheManager SingleTypeKVCacheManager
  SchedRequest EngineRequest

section

variable {H : Hashing} {cfg : EngineConfig} {r r' : EngineRequest} {s : Step}
  {st st' : RequestState} {op : ReqOp}

theorem SchedRequest.updateRequestWithOutput_requestId (H) (cfg) (r) (generated) :
    (updateRequestWithOutput H cfg r generated).1.requestId = r.requestId := by
  induction generated generalizing r with
  | nil => rfl
  | cons tokenId tokenIds ih =>
    unfold updateRequestWithOutput
    dsimp only
    split
    · rfl
    · exact ih _

structure EngineRequest.Outputs (r r' : EngineRequest) (stopped : Bool) : Prop where
  requestId : r'.requestId = r.requestId
  computed : r'.numComputedTokens ≤ r.numComputedTokens
  going : stopped = false → r'.status = r.status
  finished : stopped = true → r'.status.isFinished = true

variable {out : EngineRequest × List ℕ × Bool} {generated : List ℕ} {b : Budget}

theorem EngineRequest.updateRequestWithOutput_outputs
    (h : r.updateRequestWithOutput H cfg generated = .ok out) : Outputs r out.1 out.2.2 := by
  have ha := updateRequestWithOutput_appended H cfg.toSchedulerConfig r.toSchedRequest generated
  have hid := updateRequestWithOutput_requestId H cfg.toSchedulerConfig r.toSchedRequest generated
  unfold updateRequestWithOutput at h
  split at h
  · cases h
    exact ⟨rfl, le_rfl, fun _ ↦ rfl, fun hs ↦ by cases hs⟩
  split at h
  · cases h
    exact ⟨rfl, le_rfl, fun _ ↦ rfl, fun hs ↦ by cases hs⟩
  dsimp only at h
  split at h
  · cases h
    exact ⟨hid, ha.computed.le, fun hs ↦ (ha.going hs).2, ha.finished⟩
  split at h
  · cases h
  · cases h
    exact ⟨hid, ha.computed.le, fun hs ↦ (ha.going hs).2, ha.finished⟩

theorem EngineRequest.applyOutput_outputs {grammarAccepts}
    (h : r.applyOutput H cfg s generated grammarAccepts = .ok out) : Outputs r out.1 out.2.2 := by
  obtain ⟨r1, hreject, h⟩ := of_bind_eq_ok h
  obtain ⟨out1, hout, h⟩ := of_bind_eq_ok h
  have ho := updateRequestWithOutput_outputs hout
  have hr1 : r1.requestId = r.requestId ∧ r1.numComputedTokens ≤ r.numComputedTokens ∧
      r1.status = r.status := by
    unfold rejectDrafts at hreject
    split at hreject
    · cases hreject
    split at hreject
    · cases hreject
    · cases hreject
      exact ⟨rfl, Nat.sub_le _ _, rfl⟩
  split at h
  · cases h
    exact ⟨ho.requestId.trans hr1.1, ho.computed.trans hr1.2.1, fun hs ↦ (by cases hs), fun _ ↦ rfl⟩
  · cases h
    exact ⟨ho.requestId.trans hr1.1, ho.computed.trans hr1.2.1,
      fun hs ↦ (ho.going hs).trans hr1.2.2, ho.finished⟩

theorem EngineRequest.handleStoppedRequest_requestId (H : Hashing) (cfg : EngineConfig)
    (r : EngineRequest) : (r.handleStoppedRequest H cfg).requestId = r.requestId := by
  change (SchedRequest.handleStoppedRequest H cfg.toSchedulerConfig r.toSchedRequest).1.requestId = _
  unfold SchedRequest.handleStoppedRequest
  split
  · split <;> rfl
  · rfl

theorem EngineRequest.updateAfterSchedule_frame (cfg) (n) (spec) (r) :
    (updateAfterSchedule cfg n spec r).requestId = r.requestId ∧
      (updateAfterSchedule cfg n spec r).status = r.status := by
  unfold updateAfterSchedule
  dsimp only
  split <;> exact ⟨rfl, rfl⟩

theorem EngineRequest.scheduleRunning_frame (h : r.scheduleRunning cfg b = some (r', s)) :
    r'.requestId = r.requestId ∧ r.status = .running ∧ r'.status = .running := by
  unfold scheduleRunning at h
  dsimp only at h
  split at h
  next hc =>
    cases h
    obtain ⟨hid, hst⟩ := updateAfterSchedule_frame cfg
      (numNewTokensRunning cfg.toSchedulerConfig b r.toSchedRequest).toNat
      (r.scheduledSpecTokenIds (numNewTokensRunning cfg.toSchedulerConfig b
        r.toSchedRequest).toNat) { r with specTokenIds := [] }
    exact ⟨hid, hc.1, hst.trans hc.1⟩
  · cases h

theorem EngineRequest.scheduleWaiting_frame {hits}
    (h : r.scheduleWaiting cfg b hits = some (r', s)) :
    r'.requestId = r.requestId ∧ (r.status = .waiting ∨ r.status = .preempted) ∧
      r'.status = .running := by
  unfold scheduleWaiting at h
  dsimp only at h
  split at h
  · cases h
  next n _ =>
    split at h
    next hc =>
      cases h
      obtain ⟨hid, hst⟩ := updateAfterSchedule_frame cfg n.toNat []
        { r with status := .running, numComputedTokens := r.startTokens hits }
      exact ⟨hid, hc.1, hst⟩
    · cases h

theorem EngineRequest.updateAfterSchedule_computed (cfg) (n) (spec) (r) :
    (updateAfterSchedule cfg n spec r).numComputedTokens = r.numComputedTokens + n := by
  unfold updateAfterSchedule
  dsimp only
  split <;> rfl

theorem EngineRequest.scheduleRunning_computed (h : r.scheduleRunning cfg b = some (r', s)) :
    r'.numComputedTokens = r.numComputedTokens + s.numScheduledTokens := by
  unfold scheduleRunning at h
  dsimp only at h
  split at h
  · cases h
    exact updateAfterSchedule_computed cfg _ _ _
  · cases h

theorem EngineRequest.scheduleWaiting_computed {hits}
    (h : r.scheduleWaiting cfg b hits = some (r', s)) :
    r'.numComputedTokens = r.startTokens hits + s.numScheduledTokens := by
  unfold scheduleWaiting at h
  dsimp only at h
  split at h
  · cases h
  split at h
  · cases h
    exact updateAfterSchedule_computed cfg _ _ _
  · cases h

theorem Move.requestId (h : Move H cfg st op st') : st'.request.requestId = st.request.requestId := by
  cases h with
  | running h => exact (scheduleRunning_frame h).1
  | waiting h => exact (scheduleWaiting_frame h).1
  | @output r s l generated accepts out hret hgoing h =>
    have ho := applyOutput_outputs h
    split
    · rw [handleStoppedRequest_requestId, ho.requestId]
    · exact ho.requestId
  | drafts hsync =>
    unfold updateDraftTokenIds
    split <;> rfl
  | preempt | forcePreempt | late | outputInvalid | invalidBlocks | queued | session | sessionEnd
  | loadRemote | remoteLoaded | grammarReady | finish => rfl

theorem Move.computed_le (h : Move H cfg st op st') (hno : op.TakesNoSlots) :
    st'.request.numComputedTokens ≤ st.request.numComputedTokens := by
  cases h with
  | running | waiting | loadRemote | remoteLoaded => exact hno.elim
  | preempt | forcePreempt => exact Nat.zero_le _
  | @output r s l generated accepts out hret hgoing h =>
    have ho := applyOutput_outputs h
    split
    next hstop =>
      have hs := handleStoppedRequest_stopped H cfg.toSchedulerConfig (ho.finished hstop)
      exact hs.computed.le.trans ho.computed
    · exact ho.computed
  | outputInvalid _ hle => exact (Nat.le_add_right _ _).trans hle
  | invalidBlocks _ hle => exact hle
  | drafts hsync =>
    unfold updateDraftTokenIds
    split <;> exact le_rfl
  | late | queued | session | sessionEnd | grammarReady | finish => exact le_rfl

end

variable {H : Hashing} {cfg : EngineConfig} {e : Engine}

def Engine.Named (e : Engine) : Prop :=
  ∀ id st, e.requests.get? id = some st → st.request.requestId = id

variable {id : ReqId}

theorem Engine.Named.set (h : e.Named) {st}
    (hst : st.request.requestId = id) : (e.setRequest id st).Named := by
  intro id' st' hget
  rw [Engine.setRequest, Dict.get?_set] at hget
  split at hget
  next heq => rw [← Option.some.inj hget, hst, heq]
  · exact h id' st' hget

theorem Engine.Named.erase (h : e.Named) (id) {id' st}
    (hget : (e.requests.erase id).get? id' = some st) : st.request.requestId = id' := by
  rw [Dict.get?_erase] at hget
  split at hget
  · cases hget
  · exact h id' st hget

theorem Turn.request_of_call (hn : e.Named) {turn : Turn} {c} (h : turn.slotCall H cfg e = .ok c) :
    c.request.requestId = turn.id ∧ c.next.request.requestId = turn.id := by
  cases turn with
  | running id b n | cancelled id b n =>
    obtain ⟨st, r, s, hst, hs, rfl⟩ := Engine.of_runningCall h
    exact ⟨hn id st hst, (scheduleRunning_frame hs).1.trans (hn id st hst)⟩
  | waiting id b o =>
    obtain ⟨st, found, hst, -, -, hcase⟩ := Engine.of_waitingCall h
    rcases hcase with ⟨r, s, hs, rfl⟩ | ⟨next, -, hnext, rfl⟩
    · exact ⟨hn id st hst, (scheduleWaiting_frame hs).1.trans (hn id st hst)⟩
    · exact ⟨hn id st hst, (ReqOp.move hnext).requestId.trans (hn id st hst)⟩

theorem Engine.get?_setRequest_ne {id'} (h : id' ≠ id) (st) :
    (e.setRequest id st).requests.get? id' = e.requests.get? id' := Dict.get?_set_ne _ h st

theorem Turn.grant_requests (turn : Turn) (next : RequestState) (e : Engine)
    (hid : id ≠ turn.id) : (turn.grant next e).requests.get? id = e.requests.get? id := by
  cases turn with
  | running id' b n | waiting id' b o => exact Engine.get?_setRequest_ne hid next
  | cancelled id' b n => rfl

end VllmEngine.Sched
