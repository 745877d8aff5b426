import VllmEngine.Sched.Schedule

namespace VllmEngine.Sched

open VllmEngine.Core

structure EngineConfig extends SchedulerConfig where
  asyncScheduling : Bool := false

/-- A request with the fields that `AsyncScheduler` adds to its bookkeeping. -/
structure EngineRequest extends SchedRequest where
  discardLatestAsyncTokens : Bool := false
  numPreemptions : ℕ := 0
  deriving DecidableEq

/-- What ends a run: an action not taken in this state, or a counter that turns negative. -/
inductive Fault
  | disabled
  | negativeComputedTokens
  | negativeOutputPlaceholders
  deriving DecidableEq

/-- The share of a request in a scheduler output not yet processed. The last two fields record what
happened since: a preemption, and one that `reset_prefix_cache` forced. -/
structure Step where
  numScheduledTokens : ℕ
  specTokenIds : List ℤ := []
  isPrefillChunk : Bool := false
  outdated : Bool := false
  stale : Bool := false
  deriving DecidableEq

namespace EngineRequest

variable (H : Hashing) (cfg : EngineConfig)

/-- The test at the top of the loop over running requests: the token that reaches `max_tokens` is in
flight. -/
def awaitsLastToken (r : EngineRequest) : Prop :=
  0 < r.numOutputPlaceholders ∧
    r.numPromptTokens + r.maxTokens + r.numOutputPlaceholders ≤ r.numComputedTokens + 2

instance (r : EngineRequest) : Decidable r.awaitsLastToken := by
  unfold awaitsLastToken
  infer_instance

def updateAfterSchedule (n : ℕ) (scheduledSpecTokenIds : List ℤ) (r : EngineRequest) :
    EngineRequest :=
  let r := { r with toSchedRequest := r.toSchedRequest.updateAfterSchedule n }
  if cfg.asyncScheduling = true ∧ r.isPrefillChunk = false then
    { r with
      numOutputPlaceholders := r.numOutputPlaceholders + (1 + scheduledSpecTokenIds.length)
      specTokenIds := List.replicate cfg.numSpecTokens (-1) }
  else r

def scheduleRunning (b : Budget) (r : EngineRequest) : Option (EngineRequest × Step) :=
  let n := SchedRequest.numNewTokensRunning cfg.toSchedulerConfig b r.toSchedRequest
  if r.status = .running ∧ ¬ r.awaitsLastToken ∧ 0 < n then
    let spec := r.scheduledSpecTokenIds n.toNat
    let r' := updateAfterSchedule cfg n.toNat spec { r with specTokenIds := [] }
    some (r', { numScheduledTokens := n.toNat, specTokenIds := spec, isPrefillChunk := r'.isPrefillChunk })
  else none

def startTokens (hits : ℕ) (r : EngineRequest) : ℕ :=
  if r.numComputedTokens = 0 then hits else r.numComputedTokens

def scheduleWaiting (b : Budget) (hits : ℕ) (r : EngineRequest) : Option (EngineRequest × Step) :=
  let computed := r.startTokens hits
  match SchedRequest.numNewTokensWaiting cfg.toSchedulerConfig b r.toSchedRequest computed with
  | none => none
  | some n =>
    if (r.status = .waiting ∨ r.status = .preempted) ∧ computed ≤ r.numTokens ∧ 0 < n then
      let r' := updateAfterSchedule cfg n.toNat []
        { r with status := .running, numComputedTokens := computed }
      some (r', { numScheduledTokens := n.toNat, isPrefillChunk := r'.isPrefillChunk })
    else none

def preemptRequest (r : EngineRequest) : EngineRequest :=
  { r with
    toSchedRequest := r.toSchedRequest.preemptRequest
    numPreemptions := r.numPreemptions + 1 }

/-- The loop of `reset_prefix_cache(reset_running_requests=True)`, for one running request. -/
def forcePreempt (r : EngineRequest) : EngineRequest :=
  { r.preemptRequest with numOutputPlaceholders := 0, discardLatestAsyncTokens := true }

def numRejected (s : Step) (generated : List ℕ) : ℕ :=
  if s.specTokenIds ≠ [] ∧ generated ≠ [] then s.specTokenIds.length - (generated.length - 1) else 0

/-- Both counters are only lowered when they are positive. -/
def rejectDrafts (numRejected : ℕ) (r : EngineRequest) : Except Fault EngineRequest :=
  if 0 < r.numComputedTokens ∧ r.numComputedTokens < numRejected then .error .negativeComputedTokens
  else if 0 < r.numOutputPlaceholders ∧ r.numOutputPlaceholders < numRejected then
    .error .negativeOutputPlaceholders
  else .ok { r with
    numComputedTokens := r.numComputedTokens - numRejected
    numOutputPlaceholders := r.numOutputPlaceholders - numRejected }

/-- `_update_request_with_output`: the request, the tokens that were kept, and whether it stops. -/
def updateRequestWithOutput (generated : List ℕ) (r : EngineRequest) :
    Except Fault (EngineRequest × List ℕ × Bool) :=
  if generated = [] then .ok (r, [], false)
  else if cfg.asyncScheduling = true ∧ r.discardLatestAsyncTokens = true then
    .ok ({ r with discardLatestAsyncTokens := false }, [], false)
  else
    let out := SchedRequest.updateRequestWithOutput H cfg.toSchedulerConfig r.toSchedRequest generated
    if cfg.asyncScheduling = false then .ok ({ r with toSchedRequest := out.1 }, out.2)
    else if out.1.numOutputPlaceholders < out.2.1.length then .error .negativeOutputPlaceholders
    else .ok ({ r with toSchedRequest := { out.1 with
      numOutputPlaceholders := out.1.numOutputPlaceholders - out.2.1.length } }, out.2)

/-- The turn of an unfinished request in `update_from_output`, up to the handling of a stop. -/
def applyOutput (s : Step) (generated : List ℕ) (grammarAccepts : Bool) (r : EngineRequest) :
    Except Fault (EngineRequest × List ℕ × Bool) := do
  let r ← r.rejectDrafts (numRejected s generated)
  let out ← r.updateRequestWithOutput H cfg generated
  if out.2.1 ≠ [] ∧ grammarAccepts = false then
    pure ({ out.1 with status := .finishedError, resumable := false }, out.2.1, true)
  else pure out

def handleStoppedRequest (r : EngineRequest) : EngineRequest :=
  { r with toSchedRequest := (SchedRequest.handleStoppedRequest H cfg.toSchedulerConfig
      r.toSchedRequest).1 }

def updateRequestAsSession (update : StreamingUpdate) (r : EngineRequest) : EngineRequest :=
  { r with
    toSchedRequest := SchedRequest.updateRequestAsSession H cfg.toSchedulerConfig r.toSchedRequest
      update }

def updateFromOutput (s : Step) (generated : List ℕ) (grammarAccepts : Bool) (r : EngineRequest) :
    Except Fault EngineRequest :=
  if r.status.isFinished then .ok r
  else do
    let out ← r.applyOutput H cfg s generated grammarAccepts
    pure (if out.2.2 then out.1.handleStoppedRequest H cfg else out.1)

/-- `_update_waiting_for_remote_kv` and the promotion that follows it. -/
def remoteLoaded (failed : Bool) (r : EngineRequest) : EngineRequest :=
  { r with
    numComputedTokens :=
      if failed = false ∧ r.numComputedTokens = r.numTokens then r.numTokens - 1
      else r.numComputedTokens
    status := if 0 < r.numPreemptions then .preempted else .waiting }

end EngineRequest

end VllmEngine.Sched
