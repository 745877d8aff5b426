import VllmEngine.Lib.Dict
import VllmEngine.Sched.EngineRequest

namespace VllmEngine.Sched

open Lib VllmEngine.Core

inductive SchedulingPolicy
  | fcfs
  | priority
  deriving DecidableEq

inductive PauseState
  | unpaused
  | pausedNew
  | pausedAll
  deriving DecidableEq

/-- A request with the fields that its place in a queue depends on. -/
structure QueuedRequest extends EngineRequest where
  priority : ℤ := 0
  arrivalTime : ℕ := 0
  deriving DecidableEq

/-- The order of the pairs `(priority, arrival_time)`. -/
def QueuedRequest.Before (r r' : QueuedRequest) : Prop :=
  r.priority < r'.priority ∨ r.priority = r'.priority ∧ r.arrivalTime < r'.arrivalTime

instance (r r' : QueuedRequest) : Decidable (r.Before r') :=
  inferInstanceAs (Decidable (_ ∨ _))

structure SchedulerLimits extends EngineConfig where
  policy : SchedulingPolicy := .fcfs
  maxNumScheduledTokens : ℕ
  maxNumRunningReqs : ℕ
  maxLoras : Option ℕ := none

/-- The rest of the engine. `planEncoder` is `_try_schedule_encoder_inputs`, `none` without encoder
inputs, and `commitEncoder` allocates what it planned last. `receive` gives the computed tokens of a
request whose KV cache has arrived. `lookup` is `none` when the KV connector cannot tell yet, or the
computed tokens and whether the connector loads its own asynchronously. -/
structure Backend (σ : Type) where
  planEncoder : σ → QueuedRequest → ℕ → ℤ → Option ℤ × σ
  allocateSlots : σ → QueuedRequest → ℕ → Bool → ℤ → Bool × σ
  commitEncoder : σ → QueuedRequest → σ
  free : σ → QueuedRequest → Bool → σ
  receive : σ → QueuedRequest → Option ℕ × σ
  grammarReady : σ → QueuedRequest → Bool
  lookup : σ → QueuedRequest → Option (ℕ × Bool)

def later (last : Option QueuedRequest) (r : QueuedRequest) : Option QueuedRequest :=
  match last with
  | none => some r
  | some r' => if r'.Before r then some r else some r'

/-- The first of the requests that come last in the order. -/
def lastInOrder (running : List QueuedRequest) : Option QueuedRequest := running.foldl later none

def victim (policy : SchedulingPolicy) (running : List QueuedRequest) : Option QueuedRequest :=
  match policy with
  | .priority => lastInOrder running
  | .fcfs => running.getLast?

/-- The variables of the loop over the running requests, the requests `skipped` with nothing to
schedule, and whether the loop was left by `break`. -/
structure RunningLoop (σ : Type) where
  engine : σ
  running : List QueuedRequest
  tokenBudget : ℤ
  reqIndex : ℕ := 0
  scheduledRunningReqs : List QueuedRequest := []
  numScheduledTokens : Dict ReqId ℤ := .empty
  scheduledSpecDecodeTokens : Dict ReqId (List ℤ) := .empty
  preemptedReqs : List QueuedRequest := []
  skipped : List QueuedRequest := []
  broken : Bool := false

/-- The number of new tokens that `count` computes from the limit of the encoder inputs, if there
are any; that depends on the number without it and without the split for Mamba. -/
def planTokens {σ α : Type} (be : Backend σ) (cfg : SchedulerConfig) (tokenBudget : ℤ) (engine : σ)
    (r : QueuedRequest) (computed : ℕ) (count : SchedulerConfig → Budget → α) (limit : α → ℤ) :
    α × σ :=
  let n := limit (count { cfg with needMambaBlockAlignedSplit := false } ⟨tokenBudget.toNat, none⟩)
  let out := be.planEncoder engine r computed n
  (count cfg ⟨tokenBudget.toNat, out.1⟩, out.2)

namespace RunningLoop

variable {σ : Type} (be : Backend σ) (cfg : SchedulerLimits)

def isScheduled (l : RunningLoop σ) (r : QueuedRequest) : Bool :=
  l.scheduledRunningReqs.any (·.requestId = r.requestId)

def unschedule (l : RunningLoop σ) (r : QueuedRequest) : RunningLoop σ :=
  { l with
    scheduledRunningReqs := l.scheduledRunningReqs.filter (·.requestId ≠ r.requestId)
    tokenBudget := l.tokenBudget + (l.numScheduledTokens.get? r.requestId).getD 0
    numScheduledTokens := l.numScheduledTokens.erase r.requestId
    scheduledSpecDecodeTokens := l.scheduledSpecDecodeTokens.erase r.requestId
    reqIndex := l.reqIndex - 1 }

/-- The request leaves the running ones, and `_preempt_request` is called. -/
def preempt (r : QueuedRequest) (l : RunningLoop σ) : RunningLoop σ :=
  let scheduled := cfg.policy = .priority ∧ l.isScheduled r
  let l' := if scheduled then l.unschedule r else l
  { l' with
    running := l.running.filter (·.requestId ≠ r.requestId)
    engine := be.free l.engine r scheduled
    preemptedReqs := l.preemptedReqs ++ [r] }

/-- The `while True` loop around `allocate_slots`, with whether there are blocks. The running
requests, of which it is one, bound the number of turns. -/
def allocateLoop (request : QueuedRequest) (n : ℤ) : ℕ → RunningLoop σ → Bool × RunningLoop σ
  | 0, l => (false, l)
  | fuel + 1, l =>
    let out := be.allocateSlots l.engine request request.numComputedTokens false n
    let l := { l with engine := out.2 }
    if out.1 then (true, l)
    else
      match victim cfg.policy l.running with
      | none => (false, l)
      | some r =>
        let l := l.preempt be cfg r
        if r.requestId = request.requestId then (false, l) else allocateLoop request n fuel l

def plan (l : RunningLoop σ) (r : QueuedRequest) : ℤ × σ :=
  planTokens be cfg.toSchedulerConfig l.tokenBudget l.engine r r.numComputedTokens
    (fun cfg b ↦ SchedRequest.numNewTokensRunning cfg b r.toSchedRequest) id

section

variable (r : QueuedRequest)

def specTokenIds (n : ℤ) : List ℤ :=
  r.specTokenIds.take (n + r.numComputedTokens - r.numTokens - r.numOutputPlaceholders).toNat

def schedule (n : ℤ) (l : RunningLoop σ) : RunningLoop σ :=
  { l with
    engine := be.commitEncoder l.engine r
    running := l.running.map fun r' ↦
      if r'.requestId = r.requestId then { r' with specTokenIds := [] } else r'
    scheduledRunningReqs := l.scheduledRunningReqs ++ [r]
    numScheduledTokens := l.numScheduledTokens.set r.requestId n
    tokenBudget := l.tokenBudget - n
    reqIndex := l.reqIndex + 1
    scheduledSpecDecodeTokens :=
      if specTokenIds r n = [] then l.scheduledSpecDecodeTokens
      else l.scheduledSpecDecodeTokens.set r.requestId (specTokenIds r n) }

def skip (l : RunningLoop σ) : RunningLoop σ :=
  { l with reqIndex := l.reqIndex + 1, skipped := l.skipped ++ [r] }

def visit (l : RunningLoop σ) : RunningLoop σ :=
  if r.awaitsLastToken then l.skip r
  else
    let planned := l.plan be cfg r
    let l := { l with engine := planned.2 }
    if planned.1 = 0 then l.skip r
    else
      let out := l.allocateLoop be cfg r planned.1 l.running.length
      if out.1 then out.2.schedule be r planned.1 else { out.2 with broken := true }

end

/-- A turn that does not end the loop brings the index closer to the end of the list. -/
def loop : ℕ → RunningLoop σ → RunningLoop σ
  | 0, l => l
  | fuel + 1, l =>
    if l.broken = false ∧ 0 < l.tokenBudget then
      match l.running[l.reqIndex]? with
      | none => l
      | some r => loop fuel (l.visit be cfg r)
    else l

def start (engine : σ) (running : List QueuedRequest) (tokenBudget : ℤ) : RunningLoop σ :=
  loop be cfg running.length { engine, running, tokenBudget }

end RunningLoop

/-- `RequestQueue`. The request at the head can change while it is in the queue. -/
class RequestQueue (Q : Type) where
  empty : Q
  peekRequest : Q → Option QueuedRequest
  popRequest : Q → Q
  setHead : QueuedRequest → Q → Q
  prependRequest : QueuedRequest → Q → Q
  prependRequests : Q → Q → Q
  length : Q → ℕ

structure FCFSRequestQueue where
  deque : List QueuedRequest

instance : RequestQueue FCFSRequestQueue where
  empty := ⟨[]⟩
  peekRequest q := q.deque.head?
  popRequest q := ⟨q.deque.tail⟩
  setHead r q := ⟨r :: q.deque.tail⟩
  prependRequest r q := ⟨r :: q.deque⟩
  prependRequests q q' := ⟨q.deque.foldl (fun deque r ↦ r :: deque) q'.deque⟩
  length q := q.deque.length

structure WaitingLoop (σ Q : Type) where
  engine : σ
  running : List QueuedRequest
  waiting : Q
  skippedWaiting : Q
  stepSkippedWaiting : Q
  tokenBudget : ℤ
  scheduledLoras : List ℕ
  numScheduledTokens : Dict ReqId ℤ
  scheduledNewReqs : List QueuedRequest := []
  scheduledResumedReqs : List QueuedRequest := []

/-- What happens to the request at the head of a queue: it is set aside for the step, the loop ends,
an assertion fails, or it gets tokens. -/
inductive WaitingTurn (σ : Type)
  | setAside (request : QueuedRequest) (engine : σ)
  | stop (request : QueuedRequest) (engine : σ)
  | fail
  | schedule (request : QueuedRequest) (numComputedTokens : ℕ) (n : ℤ) (engine : σ)

namespace WaitingLoop

variable {σ Q : Type} [RequestQueue Q] (be : Backend σ) (cfg : SchedulerLimits)

/-- `_try_promote_blocked_waiting_request`, for a blocked status. -/
def promote (engine : σ) (r : QueuedRequest) : Option QueuedRequest × σ :=
  match r.status with
  | .waitingForRemoteKvs =>
    let out := be.receive engine r
    (out.1.map fun numComputedTokens ↦
      { r with
        numComputedTokens
        status := if r.numPreemptions = 0 then .waiting else .preempted }, out.2)
  | .waitingForStructuredOutputGrammar =>
    (if be.grammarReady engine r then some { r with status := .waiting } else none, engine)
  | .waitingForStreamingReq => (none, engine)
  | _ => (some r, engine)

section

variable (w : WaitingLoop σ Q)

def exceedsMaxLoras (r : QueuedRequest) : Bool :=
  match cfg.maxLoras, r.loraRequest with
  | some maxLoras, some lora =>
    w.scheduledLoras.length = maxLoras ∧ lora.loraIntId ∉ w.scheduledLoras
  | _, _ => false

/-- The rest of the turn, for a request that is not blocked and has `computed` tokens. -/
def admitRequest (engine : σ) (r : QueuedRequest) (computed : ℕ) : WaitingTurn σ :=
  let planned := planTokens be cfg.toSchedulerConfig w.tokenBudget engine r computed
    (fun cfg b ↦ SchedRequest.numNewTokensWaiting cfg b r.toSchedRequest computed) (·.getD 0)
  match planned.1 with
  | none => .stop r engine
  | some n =>
    if min ((r.numTokens : ℤ) - computed) w.tokenBudget ≤ 0 then .fail
    else if n = 0 then .stop r planned.2
    else
      let out := be.allocateSlots planned.2 r computed false n
      if out.1 = false then .stop r out.2
      else if r.status = .waiting ∨ r.status = .preempted then
        .schedule r computed n (be.commitEncoder out.2 r)
      else .fail

def turn (r : QueuedRequest) : WaitingTurn σ :=
  match promote be w.engine r with
  | (none, engine) => .setAside r engine
  | (some r, engine) =>
    if w.exceedsMaxLoras cfg r then .setAside r engine
    else
      match if r.numComputedTokens = 0 then be.lookup engine r
        else some (r.numComputedTokens, false) with
      | none => .setAside r engine
      | some (computed, false) => w.admitRequest be cfg engine r computed
      | some (computed, true) =>
        let out := be.allocateSlots engine r computed true 0
        if out.1 then
          .setAside { r with status := .waitingForRemoteKvs, numComputedTokens := computed } out.2
        else .stop r out.2

/-- `Request.__lt__` of two requests in the queues, whose ids differ. -/
def Precedes (r r' : QueuedRequest) : Prop :=
  r.Before r' ∨ ¬ r'.Before r ∧ r.requestId < r'.requestId

instance (r r' : QueuedRequest) : Decidable (Precedes r r') :=
  inferInstanceAs (Decidable (_ ∨ _))

/-- Whether `_select_waiting_queue_for_scheduling` returns the skipped requests. -/
def selectsSkipped : Bool :=
  match RequestQueue.peekRequest w.skippedWaiting, RequestQueue.peekRequest w.waiting with
  | none, _ => false
  | some _, none => true
  | some skipped, some waiting => cfg.policy = .fcfs ∨ ¬ Precedes waiting skipped

def onSelected (f : Q → Q) : WaitingLoop σ Q :=
  if w.selectsSkipped cfg then { w with skippedWaiting := f w.skippedWaiting }
  else { w with waiting := f w.waiting }

def apply : WaitingTurn σ → Option (WaitingLoop σ Q × Bool)
  | .setAside r engine => some ({ w.onSelected cfg RequestQueue.popRequest with
      engine
      stepSkippedWaiting := RequestQueue.prependRequest r w.stepSkippedWaiting }, true)
  | .stop r engine => some ({ w.onSelected cfg (RequestQueue.setHead r) with engine }, false)
  | .fail => none
  | .schedule r numComputedTokens n engine => some ({ w.onSelected cfg RequestQueue.popRequest with
      engine
      running := w.running ++ [{ r with status := .running, numComputedTokens }]
      scheduledNewReqs :=
        if r.status = .waiting then w.scheduledNewReqs ++ [r] else w.scheduledNewReqs
      scheduledResumedReqs :=
        if r.status = .waiting then w.scheduledResumedReqs else w.scheduledResumedReqs ++ [r]
      scheduledLoras :=
        match cfg.maxLoras, r.loraRequest with
        | some _, some lora => w.scheduledLoras.insert lora.loraIntId
        | _, _ => w.scheduledLoras
      numScheduledTokens := w.numScheduledTokens.set r.requestId n
      tokenBudget := w.tokenBudget - n }, true)

end

/-- Every turn that does not end the loop takes a request from a queue. -/
def loop : ℕ → WaitingLoop σ Q → Option (WaitingLoop σ Q)
  | 0, w => some w
  | fuel + 1, w =>
    if w.tokenBudget ≤ 0 ∨ w.running.length = cfg.maxNumRunningReqs then some w
    else
      match RequestQueue.peekRequest
        (if w.selectsSkipped cfg then w.skippedWaiting else w.waiting) with
      | none => some w
      | some r =>
        match w.apply cfg (w.turn be cfg r) with
        | none => none
        | some (w, false) => some w
        | some (w, true) => loop fuel w

end WaitingLoop

structure SchedulerState (σ Q : Type) where
  engine : σ
  running : List QueuedRequest
  waiting : Q
  skippedWaiting : Q

namespace SchedulerState

variable {σ Q : Type} [RequestQueue Q] (be : Backend σ) (cfg : SchedulerLimits)

def scheduledLoras (l : RunningLoop σ) : List ℕ :=
  (l.scheduledRunningReqs.filterMap (·.loraRequest)).foldl (fun loras lora ↦
    if 0 < lora.loraIntId then loras.insert lora.loraIntId else loras) []

def runningLoop (pauseState : PauseState) (s : SchedulerState σ Q) : RunningLoop σ :=
  RunningLoop.start be cfg s.engine s.running
    (if pauseState = .pausedAll then 0 else cfg.maxNumScheduledTokens)

/-- The state in which the loop over the running requests leaves the queues. -/
def enterWaiting (s : SchedulerState σ Q) (l : RunningLoop σ) : WaitingLoop σ Q where
  engine := l.engine
  running := l.running
  waiting := l.preemptedReqs.foldl (fun q r ↦ RequestQueue.prependRequest r q) s.waiting
  skippedWaiting := s.skippedWaiting
  stepSkippedWaiting := RequestQueue.empty
  tokenBudget := l.tokenBudget
  scheduledLoras := if cfg.maxLoras.isSome then scheduledLoras l else []
  numScheduledTokens := l.numScheduledTokens

/-- `schedule`, up to the construction of its output; `none` if an assertion fails. -/
def schedule (pauseState : PauseState) (s : SchedulerState σ Q) :
    Option (RunningLoop σ × WaitingLoop σ Q) :=
  let l := s.runningLoop be cfg pauseState
  let w := s.enterWaiting cfg l
  if ∃ maxLoras ∈ cfg.maxLoras, maxLoras < w.scheduledLoras.length then none
  else if l.preemptedReqs = [] ∧ pauseState = .unpaused then
    (w.loop be cfg (RequestQueue.length w.waiting + RequestQueue.length w.skippedWaiting)).map fun w ↦
      (l, { w with
        skippedWaiting := RequestQueue.prependRequests w.stepSkippedWaiting w.skippedWaiting })
  else some (l, w)

end SchedulerState

end VllmEngine.Sched
