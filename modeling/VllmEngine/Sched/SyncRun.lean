import VllmEngine.Sched.Schedule

namespace VllmEngine.Sched

open VllmEngine.Core SchedRequest

/-- A request between two actions of the synchronous scheduler, with the drafts of the step being
executed, if any. -/
structure SyncState where
  request : SchedRequest
  inFlight : Option (List ℤ) := none
  deriving DecidableEq

/-- The actions of the scheduler on one request, with what the rest of the engine contributes. -/
inductive SyncOp
  | scheduleRunning (b : Budget)
  | scheduleWaiting (b : Budget) (hits : ℕ)
  | preempt
  | output (generated : List ℕ) (grammarAccepts : Bool)
  | drafts (specTokenIds : List ℤ)
  | streamingUpdate (update : Option StreamingUpdate)
  | loadRemote (numComputedTokens : ℕ)
  | remoteLoaded (numComputedTokens : ℕ) (status : RequestStatus)
  | finish (status : RequestStatus)

namespace SyncOp

variable (H : Hashing) (cfg : SchedulerConfig)

/-- The calls of `_update_request_as_session` in an action: for a queued update when the request
stops, or for one that finds the session waiting. -/
def sessionUpdate (st : SyncState) : SyncOp → Option (SchedRequest × StreamingUpdate)
  | .output generated grammarAccepts =>
    match st.inFlight with
    | none => none
    | some spec =>
      let out := applyOutput H cfg st.request spec generated grammarAccepts
      if st.request.status.isFinished = false ∧ out.2 = true then out.1.nextUpdate else none
  | .streamingUpdate (some update) =>
    if st.request.status = .waitingForStreamingReq then some (st.request, update) else none
  | _ => none

def run (st : SyncState) : SyncOp → Option SyncState
  | .scheduleRunning b =>
    if st.inFlight = none then
      (SchedRequest.scheduleRunning cfg b st.request).map fun out ↦ ⟨out.1, some out.2⟩
    else none
  | .scheduleWaiting b hits =>
    if st.inFlight = none then
      (SchedRequest.scheduleWaiting cfg b st.request hits).map fun r ↦ ⟨r, some []⟩
    else none
  | .preempt =>
    if st.inFlight = none ∧ st.request.status = .running then
      some { st with request := preemptRequest st.request }
    else none
  | .output generated grammarAccepts =>
    match st.inFlight with
    | none => none
    | some spec =>
      -- one token more than the accepted drafts, and none in the middle of a prompt
      if generated.length ≤ spec.length + 1 ∧ (st.request.isPrefillChunk = true → generated = []) then
        some ⟨updateFromOutput H cfg st.request spec generated grammarAccepts, none⟩
      else none
  | .drafts specTokenIds =>
    if st.inFlight = none then
      some { st with request := updateDraftTokenIds st.request specTokenIds }
    else none
  | .streamingUpdate update =>
    if st.request.status.isFinished then none
    else if st.request.status ≠ .waitingForStreamingReq then
      -- `assert existing.streaming_queue is not None`
      st.request.streamingQueue.map fun queue ↦
        { st with request := { st.request with streamingQueue := some (queue ++ [update]) } }
    else
      match update with
      | some update => some { st with request := updateRequestAsSession H cfg st.request update }
      | none => some { st with request := { st.request with status := .finishedAborted } }
  | .loadRemote numComputedTokens =>
    if st.inFlight = none ∧ (st.request.status = .waiting ∨ st.request.status = .preempted) then
      some { st with request :=
        { st.request with status := .waitingForRemoteKvs, numComputedTokens } }
    else none
  | .remoteLoaded numComputedTokens status =>
    if st.request.status = .waitingForRemoteKvs ∧ (status = .waiting ∨ status = .preempted) then
      some { st with request := { st.request with status, numComputedTokens } }
    else none
  | .finish status =>
    if st.request.status.isFinished = false ∧ status.isFinished = true then
      some { st with request := { st.request with status } }
    else none

end SyncOp

end VllmEngine.Sched
