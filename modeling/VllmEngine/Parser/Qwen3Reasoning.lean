import VllmEngine.Output.StopGrouping

namespace VllmEngine.Parser

open Lib Output

/-- The tokens of `Qwen3ReasoningParser`. The vocabulary may lack the tool call tag. -/
structure Qwen3ReasoningParser where
  startTokenId : ℕ
  endTokenId : ℕ
  toolCallTokenId : Option ℕ
  thinkingEnabled : Bool := true
  start_ne_end : startTokenId ≠ endTokenId
  start_ne_toolCall : toolCallTokenId ≠ some startTokenId
  end_ne_toolCall : toolCallTokenId ≠ some endTokenId

def startToken : Text := "<think>".toList

def endToken : Text := "</think>".toList

def toolCallTag : Text := "<tool_call>".toList

structure DeltaMessage where
  reasoning : Option Text := none
  content : Option Text := none

def orNone (text : Text) : Option Text := if text = [] then none else some text

namespace Qwen3ReasoningParser

variable (p : Qwen3ReasoningParser)

/-- `self._tool_call_token_id is not None and self._tool_call_token_id in ids`. -/
def hasToolCall (ids : List ℕ) : Bool := p.toolCallTokenId.any ids.contains

def isReasoningEndStreaming (deltaIds : List ℕ) : Bool :=
  deltaIds.contains p.endTokenId || p.hasToolCall deltaIds

def extractContentIds (inputIds : List ℕ) : List ℕ :=
  let result := if inputIds.dropLast.contains p.endTokenId then
    inputIds.drop (inputIds.idxOf p.endTokenId + 1) else []
  if result ≠ [] then result
  else match p.toolCallTokenId with
    | some toolCall =>
      if inputIds.contains toolCall then
        inputIds.drop (inputIds.length - 1 - inputIds.reverse.idxOf toolCall)
      else []
    | none => []

def stripStart (text : Text) : Text :=
  match find startToken text with
  | some i => text.drop (i + startToken.length)
  | none => text

def extractReasoning (modelOutput : Text) : Option Text × Option Text :=
  let modelOutput := stripStart modelOutput
  match find endToken modelOutput with
  | some i => (some (modelOutput.take i), orNone (modelOutput.drop (i + endToken.length)))
  | none =>
    if !p.thinkingEnabled then (none, some modelOutput)
    else match find toolCallTag modelOutput with
      | some i => (orNone (modelOutput.take i), orNone (modelOutput.drop i))
      | none => (some modelOutput, none)

def extractReasoningStreaming (previousTokenIds : List ℕ) (deltaText : Text)
    (deltaTokenIds : List ℕ) : Option DeltaMessage :=
  let deltaText := if deltaTokenIds.contains p.startTokenId then stripStart deltaText else deltaText
  if deltaTokenIds.contains p.endTokenId then
    match find endToken deltaText with
    | some i =>
      let reasoning := deltaText.take i
      let content := deltaText.drop (i + endToken.length)
      if reasoning = [] ∧ content = [] then none else some ⟨orNone reasoning, orNone content⟩
    | none => none
  else
    match if p.hasToolCall deltaTokenIds then find toolCallTag deltaText else none with
    | some i => some ⟨orNone (deltaText.take i), orNone (deltaText.drop i)⟩
    | none =>
      if deltaText = [] then none
      else if previousTokenIds.contains p.endTokenId then some { content := some deltaText }
      else if p.hasToolCall previousTokenIds then some { content := some deltaText }
      else some { reasoning := some deltaText }

structure StreamState where
  reasoningEnded : Bool := false
  previousText : Text := []
  previousTokenIds : List ℕ := []

def parseDelta (state : StreamState) (deltaText : Text) (deltaTokenIds : List ℕ) :
    Option DeltaMessage × StreamState :=
  if state.reasoningEnded then
    (some { content := some deltaText }, { state with
        previousText := state.previousText ++ deltaText
        previousTokenIds := state.previousTokenIds ++ deltaTokenIds })
  else
    let message := p.extractReasoningStreaming state.previousTokenIds deltaText deltaTokenIds
    if p.isReasoningEndStreaming deltaTokenIds then
      let currentText := (message.bind (·.content)).getD []
      (message.or (some { content := some currentText }),
        ⟨true, currentText, p.extractContentIds deltaTokenIds⟩)
    else
      (message, ⟨false, state.previousText ++ deltaText, state.previousTokenIds ++ deltaTokenIds⟩)

def streamFrom (state : StreamState) : List (List DecodedToken) → Text × Text
  | [] => ([], [])
  | delta :: deltas =>
    let (message, state) := p.parseDelta state (textOf delta) (delta.map (·.id))
    let (reasoning, content) := streamFrom state deltas
    ((message.bind (·.reasoning)).getD [] ++ reasoning, (message.bind (·.content)).getD [] ++ content)

def stream (deltas : List (List DecodedToken)) : Text × Text := p.streamFrom {} deltas

section

variable (tokens : List DecodedToken)

def whole : Text × Text :=
  let (reasoning, content) := p.extractReasoning (textOf tokens)
  (reasoning.getD [], content.getD [])

/-- The texts of the special tokens are their strings. -/
def Decodes : Prop :=
  ∀ t ∈ tokens, (t.id = p.startTokenId → t.text = startToken) ∧
    (t.id = p.endTokenId → t.text = endToken) ∧
    (p.toolCallTokenId = some t.id → t.text = toolCallTag)

instance : Decidable (p.Decodes tokens) :=
  inferInstanceAs (Decidable (∀ t ∈ tokens, _))

end

end Qwen3ReasoningParser

end VllmEngine.Parser
