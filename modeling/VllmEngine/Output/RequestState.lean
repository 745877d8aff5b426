import VllmEngine.Core.BlockHash
import VllmEngine.Output.Detokenizer

namespace VllmEngine.Output

open VllmEngine.Core

inductive RequestOutputKind
  | cumulative
  | delta
  | finalOnly
  deriving DecidableEq

inductive FinishReason
  | stop
  | length
  | abort
  | error
  | repetition
  deriving DecidableEq

inductive StopReason
  | token (id : ℕ)
  | string (s : Text)
  deriving DecidableEq

/-- `IncrementalDetokenizer` itself, for requests without detokenization, or a subclass. -/
inductive Detokenizer
  | plain (tokenIds : List ℕ)
  | base (d : BaseIncrementalDetokenizer)

namespace Detokenizer

def outputTokenIds : Detokenizer → List ℕ
  | plain tokenIds => tokenIds
  | base d => d.outputTokenIds

def numOutputTokens : Detokenizer → ℕ
  | plain tokenIds => tokenIds.length
  | base d => d.numOutputTokens

def update (newTokens : List DecodedToken) (stopTerminated : Bool) :
    Detokenizer → Option Text × Detokenizer
  | plain tokenIds => (none, plain (tokenIds ++ newTokens.map (·.id)))
  | base d =>
    let (stopString, d) := d.update newTokens stopTerminated
    (stopString, base d)

def getNextOutputText (finished delta : Bool) : Detokenizer → Text × Detokenizer
  | plain tokenIds => ([], plain tokenIds)
  | base d =>
    let (text, d) := d.getNextOutputText finished delta
    (text, base d)

end Detokenizer

section

variable {F : Type}

structure Logprob (F : Type) where
  logprob : F
  rank : ℕ
  decodedToken : Option Text
  deriving DecidableEq

abbrev LogprobsOnePosition (F : Type) := List (ℕ × Logprob F)

/-- One row for each position: the sampled token first, then the top ones. -/
structure LogprobsLists (F : Type) where
  logprobTokenIds : List (List ℕ)
  logprobs : List (List F)
  sampledTokenRanks : List ℕ

/-- `append_logprobs_for_next_position`: the entry of one position. -/
def logprobsForPosition (tokenIds : List ℕ) (logprobs : List F)
    (decodedTokens : List (Option Text)) (rank : ℕ) (numLogprobs : ℤ) : LogprobsOnePosition F :=
  let topk := if numLogprobs = -1 then logprobs.length else numLogprobs.toNat
  let ranks := rank :: List.range' 1 topk
  (tokenIds.zip (logprobs.zip (ranks.zip decodedTokens))).map fun
    | (tokenId, logprob, rank, token) => (tokenId, ⟨logprob, rank, token⟩)

/-- `decodeTokens` stands for the tokenizer: the texts of the tokens of a position after those
before it. -/
structure LogprobsProcessor (F : Type) where
  decodeTokens : List (LogprobsOnePosition F) → List ℕ → List (Option Text)
  numLogprobs : ℤ
  logprobs : List (LogprobsOnePosition F) := []

namespace LogprobsProcessor

section

variable (p : LogprobsProcessor F)

def appendRow (row : ℕ × List F × List ℕ) : LogprobsProcessor F :=
  { p with
    logprobs := p.logprobs ++ [logprobsForPosition row.2.2 row.2.1
      (p.decodeTokens p.logprobs row.2.2) row.1 p.numLogprobs] }

def updateSampleLogprobs (lists : LogprobsLists F) : LogprobsProcessor F :=
  (lists.sampledTokenRanks.zip (lists.logprobs.zip lists.logprobTokenIds)).foldl appendRow p

def updateFromOutput : Option (LogprobsLists F) → LogprobsProcessor F
  | none => p
  | some lists => p.updateSampleLogprobs lists

end

end LogprobsProcessor

structure EngineCoreOutput (F : Type) where
  newTokens : List DecodedToken
  newLogprobs : Option (LogprobsLists F) := none
  finishReason : Option FinishReason := none
  stopReason : Option StopReason := none

structure CompletionOutput (F : Type) where
  index : ℕ
  text : Text
  tokenIds : List ℕ
  logprobs : Option (List (LogprobsOnePosition F))
  finishReason : Option FinishReason
  stopReason : Option StopReason

structure RequestOutput (F : Type) where
  requestId : String
  outputs : List (CompletionOutput F)
  finished : Bool

/-- What parallel sampling keeps for the children of a request. -/
structure ParentRequest (F : Type) where
  externalReqId : String
  outputKind : RequestOutputKind
  childRequests : List ReqId
  outputAggregator : List (Option (CompletionOutput F)) := []

def ParentRequest.getOutputs (p : ParentRequest F) (childRequestId : ReqId)
    (output : CompletionOutput F) : List (CompletionOutput F) × Bool × ParentRequest F :=
  let alreadyReturned := output.finishReason.isSome && !p.childRequests.contains childRequestId
  let p := if output.finishReason.isSome then
    { p with childRequests := p.childRequests.erase childRequestId } else p
  if p.outputKind ≠ .finalOnly then
    (if alreadyReturned then [] else [output], p.childRequests.isEmpty, p)
  else
    let p := { p with outputAggregator := p.outputAggregator.set output.index (some output) }
    (if p.childRequests.isEmpty then p.outputAggregator.reduceOption else [],
      p.childRequests.isEmpty, p)

/-- A sampling request in the output processor. `inputChunkQueue` tells of each queued streaming
update whether it is final. -/
structure RequestState (F : Type) where
  requestId : ReqId
  externalReqId : String
  requestIndex : ℕ := 0
  outputKind : RequestOutputKind
  streamInterval : ℕ := 1
  hasQueue : Bool := true
  parentReq : Option (ParentRequest F) := none
  detokenizer : Detokenizer
  logprobsProcessor : Option (LogprobsProcessor F) := none
  sentTokensOffset : ℕ := 0
  streamingInput : Bool := false
  inputChunkQueue : Option (List Bool) := none

/-- `xs[-n:]`, which is the whole list for `n = 0`. -/
def lastEntries {α : Type*} (xs : List α) (n : ℕ) : List α :=
  if n = 0 then xs else xs.drop (xs.length - n)

namespace RequestState

variable (st : RequestState F)

def newCompletionOutput (tokenIds : List ℕ) (finishReason : Option FinishReason)
    (stopReason : Option StopReason) : CompletionOutput F × RequestState F :=
  let delta := decide (st.outputKind = .delta)
  let (text, detokenizer) := st.detokenizer.getNextOutputText finishReason.isSome delta
  let tokenIds := if delta then tokenIds else detokenizer.outputTokenIds
  let logprobs := st.logprobsProcessor.map (·.logprobs)
  ({ index := st.requestIndex
     text := text
     tokenIds := tokenIds
     logprobs := if delta then logprobs.map (lastEntries · tokenIds.length) else logprobs
     finishReason := finishReason
     stopReason := if finishReason.isSome then stopReason else none },
    { st with detokenizer := detokenizer })

def sendOutput (newTokenIds : List ℕ) (finishReason : Option FinishReason)
    (stopReason : Option StopReason) : Option (RequestOutput F) × RequestState F :=
  let (output, st) := st.newCompletionOutput newTokenIds finishReason stopReason
  match st.parentReq with
  | none => (some ⟨st.externalReqId, [output], finishReason.isSome⟩, st)
  | some parent =>
    match parent.getOutputs st.requestId output with
    | (outputs, finished, parent) =>
      (if outputs.isEmpty then none else some ⟨parent.externalReqId, outputs, finished⟩,
        { st with parentReq := some parent })

def makeRequestOutput (newTokenIds : List ℕ) (finishReason : Option FinishReason)
    (stopReason : Option StopReason) : Option (RequestOutput F) × RequestState F :=
  if finishReason = none ∧ st.outputKind = .finalOnly then (none, st)
  else if 1 < st.streamInterval then
    if finishReason ≠ none ∨ st.sentTokensOffset = 0 ∨
        st.streamInterval ≤ st.detokenizer.numOutputTokens - st.sentTokensOffset then
      if st.outputKind = .delta then
        { st with sentTokensOffset := st.detokenizer.numOutputTokens }.sendOutput
          (st.detokenizer.outputTokenIds.drop st.sentTokensOffset) finishReason stopReason
      else st.sendOutput newTokenIds finishReason stopReason
    else (none, st)
  else st.sendOutput newTokenIds finishReason stopReason

def applyStreamingUpdate (final : Bool) : RequestState F := { st with streamingInput := !final }

/-- What a call does for the request: what it queues or returns, the state it leaves, and whether it
drops that from `request_states`. -/
structure Result (F : Type) where
  outputs : List (RequestOutput F)
  state : RequestState F
  dropped : Bool

/-- The end of the loop body of `process_outputs`: the output is handed on, and a completed request
is freed or goes on with its next update. -/
def handleOutput (output : Option (RequestOutput F)) (finishReason : Option FinishReason) :
    Result F :=
  let outputs := (output.map fun out ↦ { out with
    finished := out.finished && !st.streamingInput }).toList
  if finishReason = none then ⟨outputs, st, false⟩
  else if st.streamingInput then
    match st.inputChunkQueue with
    | some (final :: queue) =>
      ⟨outputs, { st.applyStreamingUpdate final with inputChunkQueue := some queue }, false⟩
    | _ => ⟨outputs, { st with inputChunkQueue := none }, false⟩
  else ⟨outputs, st, true⟩

def processOutput (o : EngineCoreOutput F) : Result F :=
  let (stopString, detokenizer) := st.detokenizer.update o.newTokens (o.finishReason = some .stop)
  let finishReason := if stopString.isSome then some .stop else o.finishReason
  let stopReason := (stopString.map StopReason.string).or o.stopReason
  let st : RequestState F := { st with
    detokenizer := detokenizer
    logprobsProcessor := st.logprobsProcessor.map (·.updateFromOutput o.newLogprobs) }
  let (output, st) := st.makeRequestOutput (o.newTokens.map (·.id)) finishReason stopReason
  st.handleOutput output finishReason

/-- `_update_streaming_request_state`. The output queued for a finished session has no completions.
-/
def updateStreaming (resumable : Bool) : Result F :=
  match resumable, st.inputChunkQueue with
  | false, none => ⟨if st.hasQueue then [⟨"", [], true⟩] else [], st, true⟩
  | false, some [] => ⟨[], { st with streamingInput := false }, false⟩
  | false, some queue => ⟨[], { st with inputChunkQueue := some (queue.dropLast ++ [true]) }, false⟩
  | true, none => ⟨[], { st.applyStreamingUpdate false with inputChunkQueue := some [] }, false⟩
  | true, some queue => ⟨[], { st with inputChunkQueue := some (queue ++ [false]) }, false⟩

def abort : Result F :=
  if st.hasQueue then
    let (output, st) := st.makeRequestOutput [] (some .abort) none
    ⟨output.toList, st, true⟩
  else ⟨[], st, true⟩

end RequestState

end

end VllmEngine.Output
