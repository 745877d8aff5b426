import VllmEngine.Core.KVCacheManager
import VllmEngine.Sched.RequestRun

namespace VllmEngine.Sched

open Lib VllmEngine.Core BlockHash

/-- The requests of a scheduler with the KV cache manager whose blocks they hold. -/
structure Engine where
  kv : KVCacheManager
  pool : BlockPool
  requests : Dict ReqId RequestState := .empty

inductive EngineError
  | manager (e : ManagerError)
  | fault (e : Fault)
  deriving DecidableEq

/-- What `allocate_slots` is given for a waiting request: settings, the tokens of the encoder
inputs, and the answer of the KV connector. -/
structure WaitingOptions where
  numLookaheadTokens : ℕ := 0
  numEncoderTokens : ℕ := 0
  fullSequenceMustFit : Bool := false
  numExternalComputedTokens : ℕ := 0
  loadKvAsync : Bool := false
  deriving DecidableEq

/-- The turn of a request in `schedule`, if it gets as far as `allocate_slots`. A `cancelled` one is
preempted later in the same call and its tokens taken back. -/
inductive Turn
  | running (id : ReqId) (b : Budget) (numLookaheadTokens : ℕ)
  | cancelled (id : ReqId) (b : Budget) (numLookaheadTokens : ℕ)
  | waiting (id : ReqId) (b : Budget) (o : WaitingOptions)

/-- What happens to an engine. An action of `act` takes no slots; if it finishes the request, the KV
connector may keep the blocks until they are sent. -/
inductive Event
  | addRequest (r : EngineRequest)
  | schedule (turn : Turn)
  | act (id : ReqId) (op : ReqOp) (delayFreeBlocks : Bool)
  | remoteLoaded (id : ReqId) (failed : Bool)
  | finishedSending (id : ReqId)
  | resetPrefixCache
  | newStepStarts

/-- A call of `allocate_slots`, with what becomes of the request if it gets its slots. -/
structure SlotCall where
  request : Request
  args : KVCacheManager.SlotArgs
  next : RequestState

/-- The tokens of a request that need no computing: the cached blocks and their tokens, and the
tokens of the KV connector. -/
structure CachedTokens where
  newComputedBlocks : KVCacheBlocks
  numNewLocalComputedTokens : ℕ
  numExternalComputedTokens : ℕ

/-- What an event does to the blocks of a request. -/
inductive Change
  | none
  | granted (c : SlotCall)
  | freed (id : ReqId)

namespace Engine

variable (H : Hashing) (cfg : EngineConfig) (e : Engine)

def init (kvCacheConfig : KVCacheManagerConfig) : Except EngineError Engine :=
  match KVCacheManager.init { kvCacheConfig with maxModelLen := cfg.maxModelLen } with
  | .error err => .error (.manager err)
  | .ok (kv, pool) => .ok { kv, pool }

section

variable (id : ReqId)

def lookup : Except EngineError RequestState :=
  match e.requests.get? id with
  | none => .error (.fault .disabled)
  | some st => .ok st

def setRequest (st : RequestState) : Engine :=
  { e with requests := e.requests.set id st }

def onKv (m : ManagerM KVCacheManager) : Except EngineError Engine :=
  match m e.pool with
  | .error err _ => .error (.manager err)
  | .ok kv pool => .ok { e with kv, pool }

def freeBlocks : Except EngineError (Engine × Change) := do
  let e ← e.onKv (e.kv.free id)
  pure ({ e with requests := e.requests.erase id }, .freed id)

def runningCall (b : Budget) (numLookaheadTokens : ℕ) : Except EngineError SlotCall := do
  let st ← e.lookup id
  match st.request.scheduleRunning cfg b with
  | none => .error (.fault .disabled)
  | some (r, s) =>
    pure {
      request := st.request.toRequest
      args := { numNewTokens := s.numScheduledTokens, numLookaheadTokens }
      next := ⟨r, st.inFlight ++ [s]⟩ }

/-- The cached tokens of a waiting request. One with computed tokens keeps them. -/
def getComputedBlocks (r : EngineRequest) (o : WaitingOptions) : Except EngineError CachedTokens :=
  if r.numComputedTokens = 0 then
    match e.kv.getComputedBlocks e.pool r.toRequest with
    | .error err => .error (.manager err)
    | .ok (blocks, n) => .ok ⟨blocks, n, o.numExternalComputedTokens⟩
  else .ok ⟨none, 0, 0⟩

def waitingArgs (r : EngineRequest) (o : WaitingOptions) (found : CachedTokens) (loadKvAsync : Bool)
    (numNewTokens : ℕ) : KVCacheManager.SlotArgs where
  numNewTokens
  numNewComputedTokens := found.numNewLocalComputedTokens
  newComputedBlocks := found.newComputedBlocks
  numLookaheadTokens := if r.numComputedTokens = 0 then 0 else o.numLookaheadTokens
  numExternalComputedTokens := found.numExternalComputedTokens
  delayCacheBlocks := loadKvAsync
  numEncoderTokens := o.numEncoderTokens
  fullSequenceMustFit := o.fullSequenceMustFit

def waitingCall (b : Budget) (o : WaitingOptions) : Except EngineError SlotCall := do
  let st ← e.lookup id
  let found ← e.getComputedBlocks st.request o
  let numComputedTokens := found.numNewLocalComputedTokens + found.numExternalComputedTokens
  -- `_mamba_block_aligned_split` asserts that there are no external tokens
  if cfg.needMambaBlockAlignedSplit = true ∧ 0 < found.numExternalComputedTokens then
    .error (.fault .disabled)
  else if o.loadKvAsync = true ∧ st.request.numComputedTokens = 0 then
    -- `assert num_external_computed_tokens > 0`
    if 0 < found.numExternalComputedTokens then
      match ReqOp.run H cfg st (.loadRemote numComputedTokens) with
      | .error err => .error (.fault err)
      | .ok next =>
        pure { request := st.request.toRequest, args := waitingArgs st.request o found true 0, next }
    else .error (.fault .disabled)
  else
    match st.request.scheduleWaiting cfg b numComputedTokens with
    | none => .error (.fault .disabled)
    | some (r, s) =>
      pure {
        request := st.request.toRequest
        args := waitingArgs st.request o found false s.numScheduledTokens
        next := ⟨r, st.inFlight ++ [s]⟩ }

end

end Engine

namespace Turn

variable (H : Hashing) (cfg : EngineConfig) (e : Engine)

def id : Turn → ReqId
  | .running id .. | .cancelled id .. | .waiting id .. => id

def slotCall : Turn → Except EngineError SlotCall
  | .running id b numLookaheadTokens | .cancelled id b numLookaheadTokens =>
    e.runningCall cfg id b numLookaheadTokens
  | .waiting id b o => e.waitingCall H cfg id b o

def grant (next : RequestState) (e : Engine) : Turn → Engine
  | .running id .. | .waiting id .. => e.setRequest id next
  | .cancelled .. => e

def run (turn : Turn) : Except EngineError (Engine × Change) := do
  let c ← turn.slotCall H cfg e
  match e.kv.allocateSlots H c.request c.args e.pool with
  | .error err _ => .error (.manager err)
  | .ok (kv, blocks) pool =>
    let e := { e with kv, pool }
    pure (if blocks.isSome then (turn.grant c.next e, .granted c) else (e, .none))

end Turn

/-- The actions of the scheduler without a call of the KV cache manager, or with `free` only. -/
def ReqOp.TakesNoSlots : ReqOp → Prop
  | .scheduleRunning _ | .scheduleWaiting .. | .loadRemote _ | .remoteLoaded _ => False
  | .preempt | .forcePreempt | .output .. | .outputInvalid _ | .invalidBlocks _ | .drafts _
  | .streamingUpdate _ | .grammarReady | .finish _ => True

instance (op : ReqOp) : Decidable op.TakesNoSlots := by
  cases op <;> unfold ReqOp.TakesNoSlots <;> infer_instance

/-- `_preempt_request` is called. -/
def ReqOp.preempts : ReqOp → Bool
  | .preempt | .forcePreempt => true
  | _ => false

def Engine.settle (e : Engine) (id : ReqId) (op : ReqOp) (delayFreeBlocks : Bool)
    (st st' : RequestState) : Except EngineError (Engine × Change) :=
  if op.preempts then do
    let e ← (e.setRequest id st').onKv (e.kv.free id)
    pure (e, .freed id)
  else if st'.request.status.isFinished = true ∧ st.request.status.isFinished = false ∧
      delayFreeBlocks = false then e.freeBlocks id
  else .ok (e.setRequest id st', .none)

def Engine.updateWaitingForRemoteKv (H : Hashing) (e : Engine) (failed : Bool) (r : EngineRequest) :
    Except EngineError (Engine × Change) :=
  if failed = true ∧ r.numComputedTokens = 0 then do
    let e ← e.onKv (e.kv.free r.requestId)
    pure (e, .freed r.requestId)
  else if e.kv.enableCaching then do
    let e ← e.onKv (e.kv.cacheBlocks H r.toRequest r.numComputedTokens)
    pure (e, .none)
  else .ok (e, .none)

namespace Event

variable (H : Hashing) (cfg : EngineConfig) (e : Engine)

def run : Event → Except EngineError (Engine × Change)
  | .addRequest r =>
    if (e.requests.get? r.requestId).isNone then .ok (e.setRequest r.requestId ⟨r, []⟩, .none)
    else .error (.fault .disabled)
  | .schedule turn => turn.run H cfg e
  | .act id op delayFreeBlocks => do
    let st ← e.lookup id
    if op.TakesNoSlots then
      match op.run H cfg st with
      | .error err => .error (.fault err)
      | .ok st' => e.settle id op delayFreeBlocks st st'
    else .error (.fault .disabled)
  | .remoteLoaded id failed => do
    let st ← e.lookup id
    match ReqOp.run H cfg st (.remoteLoaded failed) with
    | .error err => .error (.fault err)
    | .ok st' => (e.setRequest id st').updateWaitingForRemoteKv H failed st.request
  | .finishedSending id => do
    let st ← e.lookup id
    if st.request.status.isFinished then e.freeBlocks id else .error (.fault .disabled)
  | .resetPrefixCache => do
    let e ← e.onKv (do
      let _ ← onPool BlockPool.resetPrefixCache
      pure e.kv)
    pure (e, .none)
  | .newStepStarts => .ok ({ e with kv := e.kv.newStepStarts }, .none)

end Event

end VllmEngine.Sched
