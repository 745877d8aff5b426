import VllmEngine.Worker.InputBatch

namespace VllmEngine.Worker

open Lib

/-- The record that `ThinkingBudgetStateHolder` keeps for a request. -/
structure ThinkState where
  inThink : Bool := false
  inEnd : Bool := false
  checkCountDown : ℤ
  thinkCount : ℤ := 0
  endCount : ℕ := 0
  promptTokIds : Option (List ℕ)
  outputTokIds : List ℕ := []
  thinkingTokenBudget : ℤ
  prevOutputLength : ℕ := 0
  specTokenIds : List ℕ := []
  forceIndex : List ℤ := []
  startThinking : ℤ := -1
  endThinking : ℤ := -1
  inSpecMode : Bool := false
  bonusTokenForced : Bool := false
  continueThinking : Bool := false
  deriving DecidableEq

/-- A record, and the request that it was made for, which no function reads. -/
structure ThinkEntry extends ThinkState where
  request : CachedRequestState
  deriving DecidableEq

/-- A holder of an engine with a reasoning configuration. -/
structure ThinkingBudgetStateHolder where
  maxNumReqs : ℕ
  numSpecTokens : ℕ := 0
  thinkStartTokenIds : List ℕ
  thinkEndTokenIds : List ℕ
  state : Dict ℕ ThinkEntry := .empty

namespace ThinkingBudgetStateHolder

variable (h : ThinkingBudgetStateHolder)

def inSpecMode : Bool := 0 < h.numSpecTokens

def hasTrackedRequests : Bool := h.state.entries ≠ []

/-- The last position at which a sequence of tokens occurs, or `-1`. -/
def findLastSequenceIndex (targetList tokenIds : List ℕ) : ℤ :=
  if tokenIds = [] then -1
  else
    match (List.range (targetList.length + 1 - tokenIds.length)).reverse.find? fun i ↦
        (targetList.drop i).take tokenIds.length = tokenIds with
    | some i => i
    | none => -1

def initStateEntry (promptTokIds : Option (List ℕ)) (thinkingTokenBudget : ℤ) : ThinkState :=
  match promptTokIds with
  | none => { checkCountDown := thinkingTokenBudget, promptTokIds, thinkingTokenBudget }
  | some prompt =>
    let lastStart := findLastSequenceIndex prompt h.thinkStartTokenIds
    let lastEnd := findLastSequenceIndex prompt h.thinkEndTokenIds
    if lastEnd < lastStart then
      let thinkCount := prompt.length - (lastStart + h.thinkStartTokenIds.length)
      { inThink := true
        inEnd := thinkingTokenBudget - thinkCount ≤ 0
        checkCountDown := thinkingTokenBudget - thinkCount
        thinkCount
        promptTokIds
        thinkingTokenBudget
        startThinking := prompt.length - thinkCount - 1
        continueThinking := true }
    else { checkCountDown := thinkingTokenBudget, promptTokIds, thinkingTokenBudget }

def newEntry (added : AddedRequest) (thinkingTokenBudget : ℤ) : ThinkEntry :=
  { h.initStateEntry added.promptTokIds thinkingTokenBudget with
    outputTokIds := added.outputTokIds, specTokenIds := [], request := added.request }

def syncAdded (state : Dict ℕ ThinkEntry) (added : AddedRequest) : Dict ℕ ThinkEntry :=
  match added.params.thinkingTokenBudget with
  | some thinkingTokenBudget => state.set added.index (h.newEntry added thinkingTokenBudget)
  | none => state.erase added.index

def syncMoved (state : Dict ℕ ThinkEntry) : ℕ × ℕ × MoveDirectionality → Dict ℕ ThinkEntry
  | (i1, i2, .swap) =>
    let state1 := state.get? i1
    let state2 := state.get? i2
    let state := match state1 with
      | some state1 => state.set i2 state1
      | none => state
    match state2 with
    | some state2 => state.set i1 state2
    | none => state
  | (i1, i2, .unidirectional) =>
    match state.get? i1 with
    | some entry => (state.erase i1).set i2 entry
    | none => state

def syncBatch (batchUpdate : Option BatchUpdate) : ThinkingBudgetStateHolder :=
  match batchUpdate with
  | none => h
  | some update =>
    let state := update.removed.foldl Dict.erase h.state
    let state := update.added.foldl h.syncAdded state
    { h with state := update.moved.foldl syncMoved state }

/-- Where in the drafted tokens the end marker is forced. -/
def forcePosition (remainingBudget : ℤ) (specLen : ℕ) : List ℤ :=
  if 0 < remainingBudget ∧ remainingBudget < specLen then [remainingBudget]
  else if remainingBudget ≤ 0 then [0]
  else [specLen]

section

variable (s : ThinkState)

/-- The first two blocks of `_update_think_state`: the positions of the markers, once found, stay. -/
def noteMarkers : ThinkState :=
  let s := if s.startThinking = -1 then
    { s with startThinking := findLastSequenceIndex s.outputTokIds h.thinkStartTokenIds } else s
  if s.endThinking = -1 then
    { s with endThinking := findLastSequenceIndex s.outputTokIds h.thinkEndTokenIds } else s

def currentStepCountdown : ℤ :=
  let sampledTokensFromPreviousStep : ℤ :=
    if s.continueThinking then s.outputTokIds.length - s.prevOutputLength
    else if s.prevOutputLength = 0 then s.outputTokIds.length - h.thinkStartTokenIds.length
    else s.outputTokIds.length - s.prevOutputLength
  s.checkCountDown - sampledTokensFromPreviousStep

/-- Whether the section goes on, by the positions of the markers, and how much of it there is. -/
def countThinking : ThinkState :=
  let startLen := h.thinkStartTokenIds.length
  let absoluteStartPos := s.startThinking
  let absoluteEndPos :=
    if s.continueThinking ∧ s.endThinking > -1 then s.endThinking + (s.promptTokIds.getD []).length
    else s.endThinking
  let newThinkCount : ℤ := s.outputTokIds.length - (absoluteStartPos + startLen)
  if absoluteStartPos ≥ 0 ∧ absoluteEndPos ≥ 0 then
    if absoluteStartPos > absoluteEndPos then { s with inThink := true, thinkCount := newThinkCount }
    else { s with inThink := false, thinkCount := 0 }
  else if absoluteStartPos ≥ 0 ∧ ¬ s.continueThinking then
    { s with inThink := true, thinkCount := newThinkCount }
  else if absoluteEndPos ≥ 0 then { s with inThink := false, thinkCount := 0 }
  else if s.inThink then
    let thinkTokensInPrompt : ℤ := (s.promptTokIds.getD []).length - (absoluteStartPos + startLen)
    { s with thinkCount := s.outputTokIds.length + thinkTokensInPrompt }
  else s

/-- The branch of `_update_think_state` for a section whose end is not being forced. -/
def thinkStep : ThinkState :=
  let s := h.countThinking s
  let s := { s with checkCountDown :=
    if s.inThink then max 0 (s.thinkingTokenBudget - s.thinkCount) else s.thinkingTokenBudget }
  let totalThinkingTokens : ℤ := s.thinkCount + s.specTokenIds.length + 1
  if s.inThink ∧ totalThinkingTokens > s.thinkingTokenBudget then
    { s with
      inThink := false
      inEnd := true
      endCount := 0
      checkCountDown := s.thinkingTokenBudget
      forceIndex := forcePosition (s.thinkingTokenBudget - s.thinkCount) s.specTokenIds.length }
  else s

/-- The loop over the drafted tokens from position `i` on: the number of forced tokens, and where
the drafts leave the marker. -/
def matchSpec (thinkEndTokenIds : List ℕ) : ℕ → List ℕ → ℕ → ℕ × Option ℕ
  | _, [], endCount => (endCount, none)
  | i, tokenId :: specTokenIds, endCount =>
    if endCount + 1 < thinkEndTokenIds.length then
      if some tokenId = thinkEndTokenIds[endCount + 1]? then
        matchSpec thinkEndTokenIds (i + 1) specTokenIds (endCount + 1)
      else (endCount + 1, some i)
    else matchSpec thinkEndTokenIds (i + 1) specTokenIds (endCount + 1)

/-- The branch of `_update_think_state` for a section whose end is being forced. -/
def endStep : ThinkState :=
  let s :=
    if s.specTokenIds ≠ [] then
      match matchSpec h.thinkEndTokenIds 0 s.specTokenIds s.endCount with
      | (endCount, some i) => { s with endCount, forceIndex := [(i : ℤ)] }
      | (endCount, none) =>
        { s with endCount := endCount + 1, forceIndex := [(s.specTokenIds.length : ℤ)] }
    else { s with endCount := s.endCount + 1, forceIndex := [0] }
  if h.thinkEndTokenIds.length ≤ s.endCount then
    { s with inEnd := false, endCount := 0, checkCountDown := s.thinkingTokenBudget }
  else s

/-- The last part of `_update_think_state`, for output that is longer than before. -/
def processOutput : ThinkState :=
  let newTokens := s.outputTokIds.drop s.prevOutputLength
  let s := { s with prevOutputLength := s.outputTokIds.length }
  -- the token that was to be forced has not been sampled
  let s := if s.inEnd ∧ s.endCount = 0 ∧ h.thinkEndTokenIds.headD 0 ∉ newTokens then
    { s with inThink := true, inEnd := false, endCount := 0, bonusTokenForced := false } else s
  if s.inEnd then h.endStep s else h.thinkStep s

/-- The rest of `_update_think_state`, once a section has begun. -/
def advance : ThinkState :=
  let currentStepCountdown := h.currentStepCountdown s
  let predictedCountdown := currentStepCountdown - s.specTokenIds.length - 1
  if ¬ s.inEnd ∧ predictedCountdown ≥ 0 ∧ s.startThinking > -1 then
    { s with checkCountDown := currentStepCountdown, prevOutputLength := s.outputTokIds.length }
  else if s.outputTokIds = [] then
    if s.inEnd then { s with forceIndex := [0] } else s
  else if s.outputTokIds.length ≤ s.prevOutputLength then
    if s.inEnd then
      { s with forceIndex :=
        if 0 < s.specTokenIds.length then
          forcePosition (s.thinkingTokenBudget - s.thinkCount) s.specTokenIds.length
        else [0] }
    else s
  else h.processOutput s

def updateThinkState : ThinkState :=
  if s.thinkingTokenBudget = -1 then s
  else if h.thinkEndTokenIds = [] then
    { s with thinkingTokenBudget := -1, inEnd := false, forceIndex := [] }
  else
    let s := h.noteMarkers s
    if s.startThinking = -1 then s else h.advance s

end

def outputRow (repeatIndices : Option (List ℕ)) (seqIdx : ℕ) : Option ℕ :=
  match repeatIndices with
  | none => some seqIdx
  | some rows => (List.range rows.length).reverse.find? fun row ↦ rows[row]? = some seqIdx

section

variable (outputTokenIds specTokenIds : List (List ℕ))

def refreshEntry (repeatIndices : Option (List ℕ)) (seqIdx : ℕ) (entry : ThinkEntry) : ThinkEntry :=
  match (outputRow repeatIndices seqIdx).bind (outputTokenIds[·]?) with
  | none => entry
  | some output =>
    let spec := specTokenIds[seqIdx]?.getD []
    let output :=
      if 0 < spec.length ∧ spec.length ≤ output.length then output.take (output.length - spec.length)
      else output
    { h.updateThinkState { entry.toThinkState with
        outputTokIds := output, specTokenIds := spec, inSpecMode := h.inSpecMode, forceIndex := [] } with
      request := entry.request }

def updateState (repeatIndices : Option (List ℕ)) : ThinkingBudgetStateHolder :=
  { h with state := h.state.mapValues (h.refreshEntry outputTokenIds specTokenIds repeatIndices) }

end

/-- The positions among the rows of its request at which a record forces a token. -/
def forcing (predictBonusToken : Bool) (s : ThinkState) : List (ℤ × ℕ) × ThinkState :=
  if ¬ s.inEnd then ([], s)
  else if predictBonusToken ∧ s.forceIndex.head?.any (· < (s.specTokenIds.length : ℤ)) then ([], s)
  else
    let s := if predictBonusToken then { s with forceIndex := [0] } else s
    let s := if 0 < s.endCount then { s with bonusTokenForced := false } else s
    if s.bonusTokenForced ∨ s.forceIndex = [] then ([], s)
    else
      match h.thinkEndTokenIds[s.endCount]? with
      | none => ([], s)
      | some token =>
        (s.forceIndex.map (·, token),
          if predictBonusToken then
            if 0 < s.endCount then { s with bonusTokenForced := false, forceIndex := [] }
            else { s with bonusTokenForced := true }
          else s)

def firstRow (predictBonusToken : Bool) (specTokenIds : List (List ℕ)) (index : ℕ) : ℕ :=
  ((List.range index).map fun i ↦
    if h.inSpecMode then
      if predictBonusToken then 1 else (specTokenIds[i]?.getD []).length
    else 1).sum

def forcedTokens (numRows : ℕ) (predictBonusToken : Bool) (specTokenIds : List (List ℕ)) :
    ℕ → Option ℕ :=
  let writes := (h.state.entries.insertionSort fun e e' ↦ e.1 ≤ e'.1).flatMap fun e ↦
    (h.forcing predictBonusToken e.2.toThinkState).1.map fun w ↦
      ((h.firstRow predictBonusToken specTokenIds e.1 : ℤ) + w.1, w.2)
  writes.foldl (fun forced w ↦
    if w.1 < (h.maxNumReqs * (h.numSpecTokens + 1) : ℤ) ∧ w.1 < (numRows : ℤ) then
      Function.update forced w.1.toNat (some w.2)
    else forced) fun _ ↦ none

def applyToLogits (numRows : ℕ) (predictBonusToken : Bool) (specTokenIds : List (List ℕ)) :
    (ℕ → Option ℕ) × ThinkingBudgetStateHolder :=
  (h.forcedTokens numRows predictBonusToken specTokenIds,
    { h with state := h.state.mapValues fun _ entry ↦
        { (h.forcing predictBonusToken entry.toThinkState).2 with request := entry.request } })

end ThinkingBudgetStateHolder

end VllmEngine.Worker
