import VllmEngine.Sched.RequestRun

namespace VllmEngine.Structured

open VllmEngine.Core Sched

/-- A compiled grammar: what its matcher accepts, and whether it has terminated, depends on the
tokens accepted before. -/
structure GrammarMatcher where
  acceptToken : List ℤ → ℤ → Bool
  isTerminated : List ℤ → Bool

/-- `XgrammarGrammar`; the matcher's state is the tokens it has accepted. -/
structure XgrammarGrammar where
  matched : List ℤ := []
  numProcessedTokens : ℕ := 0
  isTerminated : Bool := false
  deriving DecidableEq

namespace XgrammarGrammar

variable (M : GrammarMatcher)

def acceptLoop : List ℤ → XgrammarGrammar → Bool × XgrammarGrammar
  | [], g => (true, { g with isTerminated := M.isTerminated g.matched })
  | token :: tokens, g =>
    if M.acceptToken g.matched token then
      acceptLoop tokens { g with
        matched := g.matched ++ [token], numProcessedTokens := g.numProcessedTokens + 1 }
    else (false, g)

def acceptTokens (tokens : List ℤ) (g : XgrammarGrammar) : Bool × XgrammarGrammar :=
  if g.isTerminated then (false, g) else acceptLoop M tokens g

/-- The tokens that the matcher accepts; it is rolled back to where it stood. -/
def validateTokens : List ℤ → List ℤ → List ℤ
  | [], _ => []
  | token :: tokens, matched =>
    if M.acceptToken matched token then token :: validateTokens tokens (matched ++ [token]) else []

def rollback (numTokens : ℕ) (g : XgrammarGrammar) : XgrammarGrammar :=
  let matched := g.matched.take (g.matched.length - numTokens)
  { matched
    numProcessedTokens := g.numProcessedTokens - numTokens
    isTerminated := M.isTerminated matched }

end XgrammarGrammar

structure BaseThinkingReasoningParser where
  startTokenId : ℕ
  endTokenId : ℕ

namespace BaseThinkingReasoningParser

variable (p : BaseThinkingReasoningParser)

def endsReversed : List ℕ → Bool
  | [] => false
  | tokenId :: tokenIds =>
    if tokenId = p.startTokenId then false
    else if tokenId = p.endTokenId then true
    else endsReversed tokenIds

def isReasoningEnd (inputIds : List ℕ) : Bool := p.endsReversed inputIds.reverse

def isReasoningEndStreaming (deltaIds : List ℕ) : Bool := p.endTokenId ∈ deltaIds

end BaseThinkingReasoningParser

/-- `reasoning_ended` is `none` until the prompt has been examined. -/
structure StructuredOutputRequest where
  reasoningEnded : Option Bool := none
  grammar : XgrammarGrammar := {}
  deriving DecidableEq

structure StructuredOutputManager where
  reasoner : Option BaseThinkingReasoningParser
  enableInReasoning : Bool := false

namespace StructuredOutputManager

variable (m : StructuredOutputManager) (M : GrammarMatcher)

def shouldFillBitmask (promptTokenIds : List ℕ) (structured : StructuredOutputRequest) :
    Bool × StructuredOutputRequest :=
  match m.reasoner with
  | none => (true, structured)
  | some reasoner =>
    if m.enableInReasoning then (true, structured)
    else
      let ended := structured.reasoningEnded.getD (reasoner.isReasoningEnd promptTokenIds)
      (ended, { structured with reasoningEnded := some ended })

section

variable (r : EngineRequest)

def examined : List ℕ :=
  let deltaFrom : ℤ := r.numComputedTokens - r.numOutputPlaceholders
  let start := if 0 ≤ deltaFrom then deltaFrom else max (r.allTokenIds.length + deltaFrom) 0
  r.allTokenIds.drop start.toNat

def shouldAdvance (structured : StructuredOutputRequest) : Bool × StructuredOutputRequest :=
  match m.reasoner with
  | none => (true, structured)
  | some reasoner =>
    if m.enableInReasoning then (true, structured)
    else if structured.reasoningEnded = some true then (true, structured)
    else if reasoner.isReasoningEndStreaming (examined r) then
      (false, { structured with reasoningEnded := some true })
    else (false, structured)

/-- The loop of `grammar_bitmask` over the drafts and a last `-1`: the grammar, how far it was
advanced, and the state each row was filled at, `none` for a full mask. A draft that the grammar
rejects fails an assertion. -/
def bitmaskLoop : List ℤ → Bool → XgrammarGrammar →
    Option (XgrammarGrammar × ℕ × List (Option (List ℤ)))
  | [], _, grammar => some (grammar, 0, [])
  | token :: tokens, applyBitmask, grammar =>
    let row := if applyBitmask ∧ grammar.isTerminated = false then some grammar.matched else none
    let applyBitmask := applyBitmask && token != -1
    if applyBitmask ∧ grammar.isTerminated = false then
      match grammar.acceptTokens M [token] with
      | (true, grammar) =>
        (bitmaskLoop tokens applyBitmask grammar).map fun out ↦ (out.1, out.2.1 + 1, row :: out.2.2)
      | (false, _) => none
    else
      (bitmaskLoop tokens applyBitmask grammar).map fun out ↦ (out.1, out.2.1, row :: out.2.2)

def grammarBitmask (promptTokenIds : List ℕ) (specTokenIds : List ℤ)
    (structured : StructuredOutputRequest) :
    Option (StructuredOutputRequest × List (Option (List ℤ))) :=
  let filled := m.shouldFillBitmask promptTokenIds structured
  (bitmaskLoop M (specTokenIds ++ [-1]) filled.1 filled.2.grammar).map fun out ↦
    ({ filled.2 with
      grammar := if 0 < out.2.1 then out.1.rollback M out.2.1 else out.1 }, out.2.2)

/-- The grammar's part in `update_from_output`: whether it accepts the new tokens of a request. -/
def advance (newTokenIds : List ℕ) (structured : StructuredOutputRequest) :
    Bool × StructuredOutputRequest :=
  if newTokenIds = [] then (true, structured)
  else
    let advanced := m.shouldAdvance r structured
    if advanced.1 then
      let accepted := advanced.2.grammar.acceptTokens M (newTokenIds.map (↑))
      (accepted.1, { advanced.2 with grammar := accepted.2 })
    else (true, advanced.2)

/-- The grammar's part in `update_draft_token_ids`: the drafts that it leaves. -/
def filterDrafts (specTokenIds : List ℤ) (structured : StructuredOutputRequest) :
    List ℤ × StructuredOutputRequest :=
  let advanced := m.shouldAdvance r structured
  if advanced.1 then
    (XgrammarGrammar.validateTokens M specTokenIds advanced.2.grammar.matched, advanced.2)
  else (specTokenIds, advanced.2)

end

end StructuredOutputManager

/-! The scheduler's actions on a request with structured output -/

structure StructuredState extends RequestState where
  structured : StructuredOutputRequest := {}
  deriving DecidableEq

inductive StructuredOp
  | scheduler (op : ReqOp)
  | grammarBitmask
  | output (generated : List ℕ)
  | drafts (specTokenIds : List ℤ)
  | draftsInOutput (specTokenIds : List ℤ)

def consults : ReqOp → Bool
  | .output _ _ | .drafts _ => true
  | _ => false

def appendOutput (H : Hashing) (cfg : EngineConfig) (s : Step) (generated : List ℕ)
    (r : EngineRequest) : Except Fault (EngineRequest × List ℕ × Bool) := do
  let r ← r.rejectDrafts (EngineRequest.numRejected s generated)
  r.updateRequestWithOutput H cfg generated

/-- The drafts padded with `-1` to the number that was scheduled. -/
def padDrafts (numScheduled : ℕ) (specTokenIds : List ℤ) : List ℤ :=
  specTokenIds ++ List.replicate (numScheduled - specTokenIds.length) (-1)

namespace StructuredOp

variable (H : Hashing) (cfg : EngineConfig) (m : StructuredOutputManager) (M : GrammarMatcher)

def run (st : StructuredState) : StructuredOp → Except Fault StructuredState
  | .scheduler op =>
    if consults op then .error .disabled
    else do
      let next ← op.run H cfg st.toRequestState
      pure { toRequestState := next, structured := st.structured }
  | .grammarBitmask =>
    -- the rows are for the newest scheduler output
    match st.inFlight.getLast? with
    | none => .error .disabled
    | some s =>
      if st.request.isPrefillChunk then .error .disabled
      else
        match m.grammarBitmask M st.request.promptTokenIds s.specTokenIds st.structured with
        | none => .error .disabled
        | some (structured, _) => .ok { st with structured }
  | .output generated =>
    match st.inFlight with
    | [] => .error .disabled
    | s :: _ =>
      if st.request.status.isFinished then do
        let next ← (ReqOp.output generated true).run H cfg st.toRequestState
        pure { toRequestState := next, structured := st.structured }
      else do
        let out ← appendOutput H cfg s generated st.request
        let advanced := m.advance M out.1 out.2.1 st.structured
        let next ← (ReqOp.output generated advanced.1).run H cfg st.toRequestState
        pure { toRequestState := next, structured := advanced.2 }
  | .drafts specTokenIds =>
    if st.request.status.isFinished ∨ st.request.isPrefillChunk then do
      let next ← (ReqOp.drafts specTokenIds).run H cfg st.toRequestState
      pure { toRequestState := next, structured := st.structured }
    else do
      let filtered := m.filterDrafts M st.request specTokenIds st.structured
      let next ← (ReqOp.drafts filtered.1).run H cfg st.toRequestState
      pure { toRequestState := next, structured := filtered.2 }
  | .draftsInOutput specTokenIds =>
    -- the drafts replace the placeholders of the newest scheduler output
    match st.inFlight.getLast? with
    | none => .error .disabled
    | some s =>
      if cfg.asyncScheduling = false ∨ st.request.status.isFinished ∨ s.specTokenIds = [] then
        .error .disabled
      else
        let filtered := m.filterDrafts M st.request (specTokenIds.take s.specTokenIds.length)
          st.structured
        .ok { st with
          inFlight := st.inFlight.dropLast ++
            [{ s with specTokenIds := padDrafts s.specTokenIds.length filtered.1 }]
          structured := filtered.2 }

def runAll : List StructuredOp → StructuredState → Except Fault StructuredState
  | [], st => .ok st
  | op :: ops, st => do
    let st ← op.run H cfg m M st
    runAll ops st

end StructuredOp

end VllmEngine.Structured
