import VllmEngine.Core.Request

namespace VllmEngine.Sched

open VllmEngine.Core

inductive RequestStatus
  | waiting
  | waitingForStructuredOutputGrammar
  | waitingForRemoteKvs
  | waitingForStreamingReq
  | running
  | preempted
  | finishedStopped
  | finishedLengthCapped
  | finishedAborted
  | finishedIgnored
  | finishedError
  | finishedRepetition
  deriving DecidableEq

/-- `status > RequestStatus.PREEMPTED`. -/
def RequestStatus.isFinished : RequestStatus → Bool
  | .waiting | .waitingForStructuredOutputGrammar | .waitingForRemoteKvs | .waitingForStreamingReq
  | .running | .preempted => false
  | .finishedStopped | .finishedLengthCapped | .finishedAborted | .finishedIgnored
  | .finishedError | .finishedRepetition => true

structure RepetitionDetectionParams where
  maxPatternSize : ℕ
  minPatternSize : ℕ
  minCount : ℕ
  deriving DecidableEq

structure SamplingParams where
  minTokens : ℕ := 0
  eosTokenId : Option ℕ := none
  stopTokenIds : List ℕ := []
  repetitionDetection : Option RepetitionDetectionParams := none
  deriving DecidableEq

structure StreamingUpdate where
  mmFeatures : List MultiModalFeatureSpec := []
  promptTokenIds : List ℕ
  samplingParams : SamplingParams := {}
  deriving DecidableEq

/-- A request with the fields that only the scheduler reads. A `none` in the streaming queue ends
the session. -/
structure SchedRequest extends Request where
  status : RequestStatus := .waiting
  promptTokenIds : List ℕ
  numPromptTokens : ℕ
  outputTokenIds : List ℕ := []
  specTokenIds : List ℤ := []
  numOutputPlaceholders : ℕ := 0
  isPrefillChunk : Bool := false
  maxTokens : ℕ
  samplingParams : SamplingParams := {}
  resumable : Bool := false
  streamingQueue : Option (List (Option StreamingUpdate)) := none
  deriving DecidableEq

structure SchedulerConfig where
  blockSize : ℕ
  maxModelLen : ℕ
  longPrefillTokenThreshold : ℕ := 0
  enableChunkedPrefill : Bool := true
  needMambaBlockAlignedSplit : Bool := false
  useEagle : Bool := false
  numSpecTokens : ℕ := 0

/-- The loop over `n` and `m` of `_has_repeating_pattern`, on the reversed tokens. -/
def hasRepeatingPattern (tokenIds : List ℕ) (patternLen repetitionMinCount : ℕ) : Bool :=
  (List.range patternLen).all fun n ↦
    (List.range' 1 (repetitionMinCount - 1)).all fun m ↦
      tokenIds.reverse[patternLen * m + n]? = tokenIds.reverse[n]?

def repetitionLoop (tokenIds : List ℕ) (minCount : ℕ) : List ℕ → Bool
  | [] => false
  | patternLen :: rest =>
    if patternLen * minCount > tokenIds.length then false
    else if hasRepeatingPattern tokenIds patternLen minCount then true
    else repetitionLoop tokenIds minCount rest

def checkSequenceRepetition (tokenIds : List ℕ) (params : RepetitionDetectionParams) : Bool :=
  let minPatternSize := if params.minPatternSize = 0 then 1 else params.minPatternSize
  if params.maxPatternSize = 0 ∨ params.minCount < 2 ∨ minPatternSize > params.maxPatternSize then
    false
  else
    repetitionLoop tokenIds params.minCount
      (List.range' minPatternSize (params.maxPatternSize + 1 - minPatternSize))

namespace SchedRequest

variable (H : Hashing) (cfg : SchedulerConfig)

def numTokensWithSpec (r : SchedRequest) : ℕ := r.numTokens + r.specTokenIds.length

/-- `Request.__init__`, then `add_request` for an id that is not in use. -/
def create (request : Request) (numPromptTokens maxTokens : ℕ) (samplingParams : SamplingParams)
    (resumable : Bool) : SchedRequest where
  toRequest := Request.updateBlockHashes H cfg.blockSize
    { request with blockHashes := [], numComputedTokens := 0 }
  promptTokenIds := request.allTokenIds
  numPromptTokens
  maxTokens
  samplingParams
  resumable
  streamingQueue := if resumable then some [] else none

def appendOutputTokenId (r : SchedRequest) (tokenId : ℕ) : SchedRequest :=
  { r with
    toRequest := Request.appendOutputTokenIds H cfg.blockSize r.toRequest [tokenId]
    outputTokenIds := r.outputTokenIds ++ [tokenId] }

def checkStop (r : SchedRequest) : Option RequestStatus :=
  if r.outputTokenIds.length < r.samplingParams.minTokens then none
  else
    match r.outputTokenIds.getLast? with
    | none => none
    | some lastTokenId =>
      if some lastTokenId = r.samplingParams.eosTokenId then some .finishedStopped
      else if lastTokenId ∈ r.samplingParams.stopTokenIds then some .finishedStopped
      else if r.numTokens ≥ cfg.maxModelLen ∨ r.outputTokenIds.length ≥ r.maxTokens then
        some .finishedLengthCapped
      else
        match r.samplingParams.repetitionDetection with
        | none => none
        | some params =>
          if checkSequenceRepetition r.outputTokenIds params then some .finishedRepetition else none

/-- Tokens are appended one by one, up to the first after which the request stops. -/
def updateRequestWithOutput : SchedRequest → List ℕ → SchedRequest × List ℕ × Bool
  | r, [] => (r, [], false)
  | r, tokenId :: tokenIds =>
    let r := appendOutputTokenId H cfg r tokenId
    match checkStop cfg r with
    | some status => ({ r with status }, [tokenId], true)
    | none =>
      let out := updateRequestWithOutput r tokenIds
      (out.1, tokenId :: out.2.1, out.2.2)

/-- The sampled tokens behind `num_computed_tokens` are dropped, then the new input follows. -/
def updateRequestAsSession (session : SchedRequest) (update : StreamingUpdate) : SchedRequest :=
  let computed := session.allTokenIds.take session.numComputedTokens
  let promptTokenIds :=
    session.promptTokenIds ++ computed.drop session.numPromptTokens ++ update.promptTokenIds
  { session with
    toRequest := Request.updateBlockHashes H cfg.blockSize { session.toRequest with
        allTokenIds := computed ++ update.promptTokenIds
        mmFeatures := session.mmFeatures ++ update.mmFeatures.map fun f ↦
          { f with mmPosition := { f.mmPosition with
              offset := f.mmPosition.offset + computed.length } } }
    outputTokenIds := []
    promptTokenIds
    numPromptTokens := promptTokenIds.length
    samplingParams := update.samplingParams
    status := .waiting }

section

variable (r : SchedRequest)

/-- The update with which `_handle_stopped_request` continues a session, if one is queued. -/
def nextUpdate : Option (SchedRequest × StreamingUpdate) :=
  if r.resumable then
    match r.streamingQueue with
    | some (some update :: rest) => some ({ r with streamingQueue := some rest }, update)
    | some (none :: _) | some [] | none => none
  else none

/-- The request after `_handle_stopped_request`, and whether it is finished. -/
def handleStoppedRequest : SchedRequest × Bool :=
  if r.resumable then
    match r.streamingQueue with
    | some (none :: rest) => ({ r with streamingQueue := some rest }, true)
    | some (some update :: rest) =>
      (updateRequestAsSession H cfg { r with streamingQueue := some rest } update, false)
    | some [] | none => ({ r with status := .waitingForStreamingReq }, false)
  else (r, true)

section

variable (scheduledSpecTokenIds : List ℤ)

section

variable (generated : List ℕ)

/-- Rejected drafts are taken off the computed tokens and off the placeholders. -/
def rejectDrafts : SchedRequest :=
  if scheduledSpecTokenIds ≠ [] ∧ generated ≠ [] then
    let numRejected := scheduledSpecTokenIds.length - (generated.length - 1)
    { r with
      numComputedTokens := r.numComputedTokens - numRejected
      numOutputPlaceholders := r.numOutputPlaceholders - numRejected }
  else r

/-- The turn of a request in `update_from_output`, up to the handling of a stop. -/
def applyOutput (grammarAccepts : Bool) : SchedRequest × Bool :=
  let out := updateRequestWithOutput H cfg (rejectDrafts r scheduledSpecTokenIds generated) generated
  if out.2.1 ≠ [] ∧ grammarAccepts = false then
    ({ out.1 with status := .finishedError, resumable := false }, true)
  else (out.1, out.2.2)

def updateFromOutput (grammarAccepts : Bool) : SchedRequest :=
  if r.status.isFinished then r
  else
    let out := applyOutput H cfg r scheduledSpecTokenIds generated grammarAccepts
    if out.2 then (handleStoppedRequest H cfg out.1).1 else out.1

end

end

end

end SchedRequest

end VllmEngine.Sched
