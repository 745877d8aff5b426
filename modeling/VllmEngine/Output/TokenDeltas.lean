import VllmEngine.Output.RequestState
import VllmEngine.Output.TextDeltas

namespace VllmEngine.Output

open VllmEngine.Core List Detokenizer Option

namespace Detokenizer

variable {d : Detokenizer}

theorem numOutputTokens_eq : d.numOutputTokens = d.outputTokenIds.length := by
  cases d with
  | plain => rfl
  | base d =>
    simp [numOutputTokens, outputTokenIds, BaseIncrementalDetokenizer.numOutputTokens,
      BaseIncrementalDetokenizer.outputTokenIds]

@[simp] theorem update_outputTokenIds (newTokens) (stopTerminated) :
    (d.update newTokens stopTerminated).2.outputTokenIds =
      d.outputTokenIds ++ newTokens.map (·.id) := by
  cases d with
  | plain => rfl
  | base d =>
    obtain ⟨more, hids, h | ⟨s, -, e, -, h⟩⟩ := d.update_decodes newTokens stopTerminated
    all_goals
      simp only [update, h, outputTokenIds, BaseIncrementalDetokenizer.outputTokenIds,
        BaseIncrementalDetokenizer.stopAt, BaseIncrementalDetokenizer.appendTokens, hids,
        drop_append_of_le_length d.promptLen_le]

theorem update_nil (stopTerminated) : (d.update [] stopTerminated).1 = none := by
  cases d <;> rfl

@[simp] theorem getNextOutputText_outputTokenIds (finished delta) :
    (d.getNextOutputText finished delta).2.outputTokenIds = d.outputTokenIds := by
  cases d with
  | plain => rfl
  | base d =>
    simp only [getNextOutputText, outputTokenIds, BaseIncrementalDetokenizer.getNextOutputText]
    split_ifs <;> rfl

end Detokenizer

variable {F : Type}

theorem LogprobsProcessor.foldl_appendRow (rows : List (ℕ × List F × List ℕ)) (p) :
    ∃ more, (rows.foldl appendRow p).logprobs = p.logprobs ++ more ∧ more.length = rows.length := by
  induction rows generalizing p with
  | nil => exact ⟨[], by simp⟩
  | cons row rows ih =>
    obtain ⟨more, hmore, hlen⟩ := ih (p.appendRow row)
    rw [foldl_cons, hmore, appendRow, append_assoc]
    exact ⟨_, rfl, by simp [hlen]⟩

def EngineCoreOutput.numLogprobs (o : EngineCoreOutput F) : ℕ :=
  match o.newLogprobs with
  | none => 0
  | some lists =>
    (lists.sampledTokenRanks.zip (lists.logprobs.zip lists.logprobTokenIds)).length

theorem LogprobsProcessor.updateFromOutput_logprobs (p : LogprobsProcessor F)
    (o : EngineCoreOutput F) : ∃ more, (p.updateFromOutput o.newLogprobs).logprobs =
      p.logprobs ++ more ∧ more.length = o.numLogprobs := by
  rw [EngineCoreOutput.numLogprobs]
  cases o.newLogprobs with
  | none => exact ⟨[], by simp [updateFromOutput]⟩
  | some lists => exact foldl_appendRow _ p

def sentTokens (outputs : List (RequestOutput F)) : List ℕ :=
  outputs.flatMap fun out ↦ out.outputs.flatMap (·.tokenIds)

def sentLogprobs (outputs : List (RequestOutput F)) : List (LogprobsOnePosition F) :=
  outputs.flatMap fun out ↦ out.outputs.flatMap (·.logprobs.getD [])

@[simp] theorem sentTokens_nil : sentTokens ([] : List (RequestOutput F)) = [] := rfl

@[simp] theorem sentLogprobs_nil : sentLogprobs ([] : List (RequestOutput F)) = [] := rfl

@[simp] theorem sentTokens_append (a b : List (RequestOutput F)) :
    sentTokens (a ++ b) = sentTokens a ++ sentTokens b := flatMap_append

@[simp] theorem sentLogprobs_append (a b : List (RequestOutput F)) :
    sentLogprobs (a ++ b) = sentLogprobs a ++ sentLogprobs b := flatMap_append

namespace RequestState

variable {st : RequestState F}

def outputTokenIds (st : RequestState F) : List ℕ := st.detokenizer.outputTokenIds

def sampleLogprobs (st : RequestState F) : List (LogprobsOnePosition F) :=
  (st.logprobsProcessor.map (·.logprobs)).getD []

def withheld (st : RequestState F) : List ℕ :=
  if 1 < st.streamInterval then st.outputTokenIds.drop st.sentTokensOffset else []

/-- A request that streams tokens and logprobs. Children of one parent are not sessions. -/
structure Streams (st : RequestState F) : Prop where
  delta : st.outputKind = .delta
  requested : st.logprobsProcessor.isSome
  sent_le : st.sentTokensOffset ≤ st.outputTokenIds.length
  aligned : st.sampleLogprobs.length = st.outputTokenIds.length
  child : ∀ parent ∈ st.parentReq, st.requestId ∈ parent.childRequests ∧
    parent.outputKind = .delta ∧ st.streamingInput = false

/-- Some tokens are sent, with the last of the logprobs, and the rest of the state stays; the parent
forgets a child that finishes. -/
structure Sends (st : RequestState F) (tokenIds : List ℕ) (finishReason : Option FinishReason)
    (result : Option (RequestOutput F) × RequestState F) : Prop where
  tokens : sentTokens result.1.toList = tokenIds
  logprobs : sentLogprobs result.1.toList = lastEntries st.sampleLogprobs tokenIds.length
  frame : ∃ detokenizer parentReq, detokenizer.outputTokenIds = st.outputTokenIds ∧
    (finishReason = none ∨ st.parentReq = none → parentReq = st.parentReq) ∧
    result.2 = { st with detokenizer := detokenizer, parentReq := parentReq }

section

variable (h : st.Streams) (tokenIds : List ℕ) (finishReason : Option FinishReason)
  (stopReason : Option StopReason)

include h tokenIds finishReason stopReason

theorem newCompletionOutput_tokenIds :
    (st.newCompletionOutput tokenIds finishReason stopReason).1.tokenIds = tokenIds := by
  simp [newCompletionOutput, h.delta]

theorem newCompletionOutput_logprobs :
    (st.newCompletionOutput tokenIds finishReason stopReason).1.logprobs =
      some (lastEntries st.sampleLogprobs tokenIds.length) := by
  obtain ⟨p, hp⟩ := isSome_iff_exists.mp h.requested
  simp [newCompletionOutput, h.delta, sampleLogprobs, hp]

end

theorem getOutputs_child {parent : ParentRequest F} {childRequestId}
    (hmem : childRequestId ∈ parent.childRequests) (hkind : parent.outputKind = .delta)
    (output : CompletionOutput F) :
    ∃ finished parent', parent.getOutputs childRequestId output = ([output], finished, parent') ∧
      (output.finishReason = none → parent' = parent) := by
  cases hfin : output.finishReason with
  | none =>
    exact ⟨parent.childRequests.isEmpty, parent,
      by simp [ParentRequest.getOutputs, hfin, hkind], fun _ ↦ rfl⟩
  | some reason =>
    refine ⟨(parent.childRequests.erase childRequestId).isEmpty,
      { parent with childRequests := parent.childRequests.erase childRequestId }, ?_, nofun⟩
    simp only [ParentRequest.getOutputs, hfin, hkind, isSome_some, if_true, hmem,
      contains_eq_mem, decide_true, Bool.not_true, Bool.and_false, Bool.false_eq_true,
      if_false, ne_eq, reduceCtorEq, not_false_eq_true]

theorem sendOutput_sends (h : st.Streams) (tokenIds) (finishReason) (stopReason) :
    st.Sends tokenIds finishReason (st.sendOutput tokenIds finishReason stopReason) := by
  have htokens := newCompletionOutput_tokenIds h tokenIds finishReason stopReason
  have hlogprobs := newCompletionOutput_logprobs h tokenIds finishReason stopReason
  have hreason : (st.newCompletionOutput tokenIds finishReason stopReason).1.finishReason =
      finishReason := rfl
  have hstate : (st.newCompletionOutput tokenIds finishReason stopReason).2 =
      { st with detokenizer := (st.newCompletionOutput tokenIds finishReason stopReason).2.detokenizer } :=
    rfl
  have hids : (st.newCompletionOutput tokenIds finishReason stopReason).2.detokenizer.outputTokenIds =
      st.outputTokenIds := getNextOutputText_outputTokenIds _ _
  unfold sendOutput
  generalize st.newCompletionOutput tokenIds finishReason stopReason = result at *
  obtain ⟨output, st'⟩ := result
  dsimp only at *
  have hparent' : st'.parentReq = st.parentReq := by rw [hstate]
  have hid : st'.requestId = st.requestId := by rw [hstate]
  cases hparent : st.parentReq with
  | none =>
    simp only [hparent', hparent]
    refine ⟨by simp [sentTokens, htokens], by simp [sentLogprobs, hlogprobs],
      st'.detokenizer, st.parentReq, hids, fun _ ↦ rfl, hstate⟩
  | some parent =>
    obtain ⟨hmem, hkind, -⟩ := h.child parent hparent
    obtain ⟨finished, parent', hget, hsame⟩ := getOutputs_child hmem hkind output
    simp only [hparent', hparent, hid, hget, isEmpty_cons, Bool.false_eq_true, if_false]
    refine ⟨by simp [sentTokens, htokens], by simp [sentLogprobs, hlogprobs],
      st'.detokenizer, some parent', hids, ?_, ?_⟩
    · intro hcase
      rw [hparent] at hcase ⊢
      rw [hsame (hreason.trans (hcase.resolve_right nofun))]
    · conv_lhs => rw [hstate]

theorem makeRequestOutput_cases (h : st.Streams) (newTokenIds) (finishReason) (stopReason) :
    (1 < st.streamInterval ∧ finishReason = none ∧ st.sentTokensOffset ≠ 0 ∧
        st.makeRequestOutput newTokenIds finishReason stopReason = (none, st)) ∨
      ∃ sent, { st with sentTokensOffset := sent }.Sends
          (if 1 < st.streamInterval then st.withheld else newTokenIds) finishReason
          (st.makeRequestOutput newTokenIds finishReason stopReason) ∧
        sent ≤ st.outputTokenIds.length ∧
        (1 < st.streamInterval → sent = st.outputTokenIds.length ∧
          (finishReason ≠ none ∨ st.sentTokensOffset = 0 ∨
            st.streamInterval ≤ st.outputTokenIds.length - st.sentTokensOffset)) := by
  have hkind : ¬ (finishReason = none ∧ st.outputKind = .finalOnly) := by simp [h.delta]
  unfold makeRequestOutput
  rw [if_neg hkind]
  by_cases hint : 1 < st.streamInterval
  · rw [if_pos hint, if_pos hint]
    by_cases hsend : finishReason ≠ none ∨ st.sentTokensOffset = 0 ∨
        st.streamInterval ≤ st.detokenizer.numOutputTokens - st.sentTokensOffset
    · right
      rw [if_pos hsend, if_pos h.delta, numOutputTokens_eq, withheld, if_pos hint]
      rw [numOutputTokens_eq] at hsend
      refine ⟨st.outputTokenIds.length, ?_, le_rfl, fun _ ↦ ⟨rfl, hsend⟩⟩
      exact @sendOutput_sends _ { st with sentTokensOffset := st.outputTokenIds.length }
        ⟨h.delta, h.requested, le_rfl, h.aligned, h.child⟩ _ _ _
    · left
      rw [if_neg hsend]
      simp only [not_or, ne_eq, not_not] at hsend
      exact ⟨hint, hsend.1, hsend.2.1, rfl⟩
  · right
    rw [if_neg hint, if_neg hint]
    exact ⟨st.sentTokensOffset, sendOutput_sends h _ _ _, h.sent_le, fun hlt ↦ absurd hlt hint⟩

structure Moves (st : RequestState F) (received : List ℕ) (sends : Bool) (r : Result F) : Prop where
  tokens : r.state.outputTokenIds = st.outputTokenIds ++ received
  logprobs : ∃ more, r.state.sampleLogprobs = st.sampleLogprobs ++ more ∧
    more.length = received.length
  streams : r.dropped = false → r.state.Streams
  sent : sends = true → sentTokens r.outputs = st.withheld ++ received ∧ sentLogprobs r.outputs =
      lastEntries r.state.sampleLogprobs (st.withheld ++ received).length ∧
    r.state.withheld = []
  kept : sends = false → sentTokens r.outputs = [] ∧ sentLogprobs r.outputs = [] ∧
    r.state.withheld = st.withheld ++ received

def takeIn (st : RequestState F) (o : EngineCoreOutput F) : RequestState F :=
  { st with
    detokenizer := (st.detokenizer.update o.newTokens (o.finishReason = some .stop)).2
    logprobsProcessor := st.logprobsProcessor.map (·.updateFromOutput o.newLogprobs) }

theorem takeIn_outputTokenIds (o) :
    (st.takeIn o).outputTokenIds = st.outputTokenIds ++ o.newTokens.map (·.id) :=
  update_outputTokenIds _ _

theorem takeIn_sampleLogprobs (h : st.Streams) (o : EngineCoreOutput F) :
    ∃ more, (st.takeIn o).sampleLogprobs = st.sampleLogprobs ++ more ∧
      more.length = o.numLogprobs := by
  obtain ⟨p, hp⟩ := isSome_iff_exists.mp h.requested
  obtain ⟨more, hmore, hlen⟩ := p.updateFromOutput_logprobs o
  exact ⟨more, by simp [takeIn, sampleLogprobs, hp, hmore], hlen⟩

variable {o : EngineCoreOutput F}

theorem takeIn_streams (h : st.Streams)
    (ho : o.numLogprobs = o.newTokens.length) : (st.takeIn o).Streams := by
  obtain ⟨more, hmore, hlen⟩ := takeIn_sampleLogprobs h o
  refine ⟨h.delta, by simpa [takeIn] using h.requested, ?_, ?_, h.child⟩
  · rw [takeIn_outputTokenIds, length_append]
    exact h.sent_le.trans (Nat.le_add_right _ _)
  · rw [hmore, takeIn_outputTokenIds, length_append, length_append, h.aligned, hlen, ho, length_map]

theorem takeIn_withheld (h : st.Streams) (o) (hint : 1 < st.streamInterval) :
    (st.takeIn o).withheld = st.withheld ++ o.newTokens.map (·.id) := by
  rw [withheld, if_pos (show 1 < (st.takeIn o).streamInterval from hint), withheld, if_pos hint,
    takeIn_outputTokenIds]
  exact drop_append_of_le_length h.sent_le

theorem handleOutput_frame (output : Option (RequestOutput F)) (finishReason) :
    sentTokens (st.handleOutput output finishReason).outputs = sentTokens output.toList ∧
      sentLogprobs (st.handleOutput output finishReason).outputs = sentLogprobs output.toList ∧
      ∃ streaming queue, (st.handleOutput output finishReason).state =
          { st with streamingInput := streaming, inputChunkQueue := queue } ∧
        (st.streamingInput = false → streaming = false) := by
  have hout : ∀ flag : RequestOutput F → Bool,
      sentTokens (output.map fun out ↦ { out with finished := flag out }).toList =
          sentTokens output.toList ∧
        sentLogprobs (output.map fun out ↦ { out with finished := flag out }).toList =
          sentLogprobs output.toList := by
    intro flag
    cases output <;> exact ⟨rfl, rfl⟩
  unfold handleOutput
  split_ifs with hnone hstreaming
  · exact ⟨(hout _).1, (hout _).2, st.streamingInput, st.inputChunkQueue, rfl, id⟩
  · split
    · exact ⟨(hout _).1, (hout _).2, _, _, rfl, by simp [hstreaming]⟩
    · exact ⟨(hout _).1, (hout _).2, st.streamingInput, none, rfl, id⟩
  · exact ⟨(hout _).1, (hout _).2, st.streamingInput, st.inputChunkQueue, rfl, id⟩

theorem handleOutput_dropped (output : Option (RequestOutput F)) (finishReason) :
    (st.handleOutput output finishReason).dropped = true ↔
      finishReason ≠ none ∧ st.streamingInput = false := by
  unfold handleOutput
  split_ifs with hnone hstreaming
  · simp [hnone]
  · split <;> simp [hstreaming]
  · simp [hnone, hstreaming]

def finishReasonOf (st : RequestState F) (o : EngineCoreOutput F) : Option FinishReason :=
  if (st.detokenizer.update o.newTokens (o.finishReason = some .stop)).1.isSome then some .stop
  else o.finishReason

theorem finishReasonOf_eq (h : o.newTokens = []) : st.finishReasonOf o = o.finishReason := by
  simp [finishReasonOf, h, update_nil]

theorem processOutput_eq (o) : ∃ stopReason output st',
    (st.takeIn o).makeRequestOutput (o.newTokens.map (·.id)) (st.finishReasonOf o) stopReason =
        (output, st') ∧
      st.processOutput o = st'.handleOutput output (st.finishReasonOf o) :=
  ⟨_, _, _, rfl, rfl⟩

theorem processOutput_moves (h : st.Streams) (ho : o.numLogprobs = o.newTokens.length) :
    ∃ sends, st.Moves (o.newTokens.map (·.id)) sends (st.processOutput o) ∧
      ((st.processOutput o).dropped = true → sends = true) ∧
      (o.newTokens = [] → st.withheld = [] → st.outputTokenIds ≠ [] →
        (sends = true ↔ st.streamInterval ≤ 1 ∨ o.finishReason ≠ none)) := by
  obtain ⟨stopReason, output, st', hmade, heq⟩ := st.processOutput_eq o
  have hst := takeIn_streams h ho
  obtain ⟨more, hmore, hlen⟩ := takeIn_sampleLogprobs h o
  have hlen' : more.length = (o.newTokens.map (·.id)).length := by rw [hlen, ho, length_map]
  have hcases :=
    makeRequestOutput_cases hst (o.newTokens.map (·.id)) (st.finishReasonOf o) stopReason
  rw [hmade] at hcases
  obtain ⟨hint, hfin, hsent, hmake⟩ | ⟨sent, hsends, hle, hall⟩ := hcases
  · cases hmake
    refine ⟨false, ?_, ?_, ?_⟩
    · rw [heq, hfin]
      exact ⟨takeIn_outputTokenIds o, ⟨more, hmore, hlen'⟩, fun _ ↦ hst, nofun,
        fun _ ↦ ⟨rfl, rfl, takeIn_withheld h o hint⟩⟩
    · rw [heq, handleOutput_dropped, hfin]
      simp
    intro hnil hwithheld hne
    rw [finishReasonOf_eq hnil] at hfin
    have : ¬ st.streamInterval ≤ 1 := not_le.mpr hint
    simp [this, hfin]
  · refine ⟨true, ?_, fun _ ↦ rfl, ?_⟩
    · obtain ⟨htokens, hlogprobs, detokenizer, parentReq, hids, hparent, hstate⟩ := hsends
      obtain ⟨hout, hlog, streaming, queue, hframe, hkeep⟩ :=
        @handleOutput_frame _ st' output (st.finishReasonOf o)
      have hdropped := @handleOutput_dropped _ st' output (st.finishReasonOf o)
      rw [← heq] at hout hlog hframe hdropped
      dsimp only at hstate
      rw [hstate] at hframe hkeep hdropped
      have htok : (st.processOutput o).state.outputTokenIds = (st.takeIn o).outputTokenIds := by
        rw [hframe]; exact hids
      have hlogs : (st.processOutput o).state.sampleLogprobs = (st.takeIn o).sampleLogprobs := by
        rw [hframe]; rfl
      have hsum : (if 1 < (st.takeIn o).streamInterval then (st.takeIn o).withheld
          else o.newTokens.map (·.id)) = st.withheld ++ o.newTokens.map (·.id) := by
        split_ifs with hint
        · exact takeIn_withheld h o hint
        · rw [withheld, if_neg (show ¬ 1 < st.streamInterval from hint), nil_append]
      refine ⟨by rw [htok, takeIn_outputTokenIds], ⟨more, by rw [hlogs, hmore], hlen'⟩, ?_, ?_, nofun⟩
      · intro hkept
        refine ⟨by rw [hframe]; exact h.delta, by rw [hframe]; exact hst.requested, ?_, ?_, ?_⟩
        · rw [htok, hframe]; exact hle
        · rw [hlogs, htok]; exact hst.aligned
        rw [hframe]
        intro parent hmem
        have hparentReq : st.finishReasonOf o = none ∨ st.parentReq = none := by
          by_contra hnot
          rw [not_or] at hnot
          obtain ⟨parent', hparent'⟩ := ne_none_iff_exists'.mp hnot.2
          have := hdropped.mpr ⟨hnot.1, (h.child parent' hparent').2.2⟩
          simp [hkept] at this
        have hsame : parentReq = st.parentReq := hparent hparentReq
        obtain ⟨hmem', hkind, hstream⟩ := h.child parent (hsame ▸ hmem)
        exact ⟨hmem', hkind, hkeep hstream⟩
      · intro _
        refine ⟨by rw [hout, htokens, hsum], by rw [hlog, hlogprobs, hsum, hlogs]; rfl, ?_⟩
        rw [withheld, htok]
        split_ifs with hint
        · rw [hframe] at hint ⊢
          exact drop_eq_nil_of_le (hall hint).1.ge
        · rfl
    · intro hnil hwithheld hne
      rw [eq_self, true_iff, or_iff_not_imp_left, not_le]
      intro hint
      have hlen := length_pos_iff.mpr hne
      rw [withheld, if_pos hint, drop_eq_nil_iff] at hwithheld
      obtain ⟨-, hfin | hzero | hbig⟩ := hall hint
      · rwa [finishReasonOf_eq hnil] at hfin
      · have : st.sentTokensOffset = 0 := hzero
        omega
      · rw [takeIn_outputTokenIds, hnil, map_nil, append_nil] at hbig
        have : st.streamInterval ≤ st.outputTokenIds.length - st.sentTokensOffset := hbig
        omega

end RequestState

/-- What happens to a request: an output of the engine, a part or the end of its input, the
completion of another child of its parent, or an abort. -/
inductive RequestEvent (F : Type)
  | output (o : EngineCoreOutput F)
  | updateStreaming (resumable : Bool)
  | siblingFinished (requestId : ReqId)
  | abort

def RequestEvent.received : RequestEvent F → List ℕ
  | output o => o.newTokens.map (·.id)
  | _ => []

namespace RequestState

variable {st : RequestState F} {e : RequestEvent F}

def step (st : RequestState F) : RequestEvent F → Result F
  | .output o => st.processOutput o
  | .updateStreaming resumable => st.updateStreaming resumable
  | .siblingFinished requestId =>
    ⟨[], { st with parentReq := st.parentReq.map fun parent ↦
      { parent with childRequests := parent.childRequests.erase requestId } }, false⟩
  | .abort => st.abort

/-- There is one logprob for each token, and no request with a parent streams its input. -/
def Allowed (st : RequestState F) : RequestEvent F → Prop
  | .output o => o.numLogprobs = o.newTokens.length
  | .updateStreaming _ => st.parentReq = none
  | .siblingFinished requestId => requestId ≠ st.requestId
  | .abort => True

/-- An output without tokens is sent after some tokens, with the whole list of logprobs. -/
def Repeats (st : RequestState F) : RequestEvent F → Prop
  | .output o => o.newTokens = [] ∧ st.withheld = [] ∧ st.outputTokenIds ≠ [] ∧
      (st.streamInterval ≤ 1 ∨ o.finishReason ≠ none)
  | .abort => st.hasQueue = true ∧ st.withheld = [] ∧ st.outputTokenIds ≠ []
  | _ => False

def Loses (st : RequestState F) : RequestEvent F → Prop
  | .updateStreaming resumable =>
    resumable = false ∧ st.inputChunkQueue = none ∧ st.withheld ≠ []
  | .abort => st.hasQueue = false ∧ st.withheld ≠ []
  | _ => False

def withheldLogprobs (st : RequestState F) : List (LogprobsOnePosition F) :=
  st.sampleLogprobs.drop (st.sampleLogprobs.length - st.withheld.length)

theorem withheld_suffix (st : RequestState F) : st.withheld <:+ st.outputTokenIds := by
  unfold withheld
  split_ifs
  · exact drop_suffix _ _
  · exact nil_suffix

/-- The books of one step: where the tokens held back and received go, and their logprobs. -/
structure Books (st : RequestState F) (e : RequestEvent F) (r : Result F) : Prop where
  streams : r.dropped = false → r.state.Streams
  tokens : sentTokens r.outputs ++ r.state.withheld = st.withheld ++ e.received
  le : (sentTokens r.outputs).length ≤ (sentLogprobs r.outputs).length
  repeats : st.Repeats e ↔ (sentTokens r.outputs).length < (sentLogprobs r.outputs).length
  loses : st.Loses e ↔ r.dropped = true ∧ r.state.withheld ≠ []
  logprobs : ∃ more, r.state.sampleLogprobs = st.sampleLogprobs ++ more ∧
    more.length = e.received.length ∧ (¬ st.Repeats e → sentLogprobs r.outputs ++
      r.state.withheldLogprobs = st.withheldLogprobs ++ more)

theorem length_lastEntries {α : Type*} {xs : List α} {n} (hn : n ≠ 0) (hle : n ≤ xs.length) :
    (lastEntries xs n).length = n := by
  rw [lastEntries, if_neg hn, length_drop]
  omega

theorem Moves.books (sends : Bool) {r : Result F} (h : st.Streams)
    (hmoves : st.Moves e.received sends r) (hrepeats : st.Repeats e ↔
      sends = true ∧ st.withheld ++ e.received = [] ∧ st.outputTokenIds ≠ [])
    (hloses : st.Loses e ↔ r.dropped = true ∧ r.state.withheld ≠ []) :
    st.Books e r := by
  obtain ⟨htokens, ⟨more, hmore, hlen⟩, hstreams, hsent, hkept⟩ := hmoves
  have hheld : st.withheld.length ≤ st.sampleLogprobs.length :=
    h.aligned ▸ st.withheld_suffix.length_le
  cases sends with
  | false =>
    obtain ⟨h1, h2, h3⟩ := hkept rfl
    refine ⟨hstreams, by rw [h1, h3, nil_append], by rw [h1, h2]; rfl, ?_, hloses,
      more, hmore, hlen, fun _ ↦ ?_⟩
    · rw [hrepeats, h1, h2]
      simp
    · rw [h2, nil_append, withheldLogprobs, withheldLogprobs, h3, hmore, length_append,
        length_append, hlen, Nat.add_sub_add_right,
        drop_append_of_le_length (Nat.sub_le _ _)]
  | true =>
    obtain ⟨h1, h2, h3⟩ := hsent rfl
    have hwl : r.state.withheldLogprobs = [] := by simp [withheldLogprobs, h3]
    by_cases hnil : st.withheld ++ e.received = []
    · have hrec := append_eq_nil_iff.mp hnil
      have hmore' : more = [] := length_eq_zero_iff.mp (by rw [hlen, hrec.2]; rfl)
      have hall : sentLogprobs r.outputs = st.sampleLogprobs := by
        rw [h2, hnil, hmore, hmore', append_nil]
        rfl
      have hzero : st.outputTokenIds = [] ↔ st.sampleLogprobs = [] := by
        rw [← length_eq_zero_iff, ← length_eq_zero_iff, h.aligned]
      refine ⟨hstreams, by rw [h1, h3, append_nil], by rw [h1, hnil]; exact Nat.zero_le _,
        ?_, hloses, more, hmore, hlen, fun hno ↦ ?_⟩
      · rw [hrepeats, h1, hnil, hall, length_nil, length_pos_iff, ne_eq, hzero]
        simp
      have hempty : st.outputTokenIds = [] := by
        by_contra hne
        exact hno (hrepeats.mpr ⟨rfl, hnil, hne⟩)
      rw [hall, hwl, hzero.mp hempty, hmore', withheldLogprobs, hzero.mp hempty, drop_nil]
    · have hpos : (st.withheld ++ e.received).length ≠ 0 := by
        rwa [ne_eq, length_eq_zero_iff]
      have hle : (st.withheld ++ e.received).length ≤ r.state.sampleLogprobs.length := by
        rw [hmore, length_append, length_append, hlen]
        omega
      have hcount : (sentLogprobs r.outputs).length = (sentTokens r.outputs).length := by
        rw [h2, h1, length_lastEntries hpos hle]
      refine ⟨hstreams, by rw [h1, h3, append_nil], hcount.ge, ?_, hloses, more, hmore,
        hlen, fun _ ↦ ?_⟩
      · rw [hrepeats, hcount]
        simp [hnil]
      rw [h2, hwl, append_nil, lastEntries, if_neg hpos, hmore, length_append,
        length_append, hlen, Nat.add_sub_add_right,
        drop_append_of_le_length (Nat.sub_le _ _)]
      rfl

section

variable (h : st.Streams)

include h

theorem output_books {o} (ho : st.Allowed (.output o)) :
    st.Books (.output o) (st.step (.output o)) := by
  obtain ⟨sends, hmoves, hdropped, hsends⟩ := processOutput_moves h ho
  refine Moves.books _ h hmoves ?_ ?_
  · simp only [Repeats, RequestEvent.received, append_eq_nil_iff, map_eq_nil_iff]
    constructor
    · rintro ⟨hnil, hheld, hne, hcase⟩
      exact ⟨(hsends hnil hheld hne).mpr hcase, ⟨hheld, hnil⟩, hne⟩
    · rintro ⟨hsend, ⟨hheld, hnil⟩, hne⟩
      exact ⟨hnil, hheld, hne, (hsends hnil hheld hne).mp hsend⟩
  · simp only [Loses, false_iff, not_and, not_not]
    exact fun hdrop ↦ (hmoves.sent (hdropped hdrop)).2.2

theorem quiet_books {r} (hreceived : e.received = [])
    (hstreams : r.dropped = false → r.state.Streams) (hids : r.state.outputTokenIds = st.outputTokenIds)
    (hlogprobs : r.state.sampleLogprobs = st.sampleLogprobs)
    (hheld : r.state.withheld = st.withheld) (htokens : sentTokens r.outputs = [])
    (hsent : sentLogprobs r.outputs = []) (hrepeats : ¬ st.Repeats e)
    (hloses : st.Loses e ↔ r.dropped = true ∧ st.withheld ≠ []) : st.Books e r := by
  refine Moves.books false h ?_ (by simp [hrepeats]) (by rw [hheld]; exact hloses)
  rw [hreceived]
  exact ⟨by rw [hids, append_nil], ⟨[], by simp [hlogprobs]⟩, hstreams, nofun,
    fun _ ↦ ⟨htokens, hsent, by rw [hheld, append_nil]⟩⟩

theorem updateStreaming_books {resumable} (hallowed : st.Allowed (.updateStreaming resumable)) :
    st.Books (.updateStreaming resumable) (st.step (.updateStreaming resumable)) := by
  have hparent : st.parentReq = none := hallowed
  have hstreams : ∀ streaming queue, ({ st with
      streamingInput := streaming, inputChunkQueue := queue } : RequestState F).Streams := by
    intro streaming queue
    exact ⟨h.delta, h.requested, h.sent_le, h.aligned, by simp [hparent]⟩
  cases resumable with
  | true =>
    cases hqueue : st.inputChunkQueue with
    | none | some queue =>
      simp only [step, updateStreaming, hqueue]
      exact quiet_books h rfl (fun _ ↦ hstreams _ _) rfl rfl rfl rfl rfl id (by simp [Loses])
  | false =>
    match hqueue : st.inputChunkQueue with
    | none =>
      simp only [step, updateStreaming, hqueue]
      refine quiet_books h rfl nofun rfl rfl rfl ?_ ?_ id (by simp [Loses, hqueue])
      all_goals split_ifs <;> rfl
    | some [] | some (final :: queue) =>
      simp only [step, updateStreaming, hqueue]
      exact quiet_books h rfl (fun _ ↦ hstreams _ _) rfl rfl rfl rfl rfl id (by simp [Loses, hqueue])

theorem siblingFinished_books {requestId} (hallowed : st.Allowed (.siblingFinished requestId)) :
    st.Books (.siblingFinished requestId) (st.step (.siblingFinished requestId)) := by
  refine quiet_books h rfl (fun _ ↦ ?_) rfl rfl rfl rfl rfl id (by simp [Loses, step])
  refine ⟨h.delta, h.requested, h.sent_le, h.aligned, ?_⟩
  intro parent hmem
  obtain ⟨parent', hparent', rfl⟩ := map_eq_some_iff.mp hmem
  obtain ⟨hchild, hkind, hstreaming⟩ := h.child parent' hparent'
  exact ⟨(mem_erase_of_ne (Ne.symm hallowed)).mpr hchild, hkind, hstreaming⟩

theorem abort_books : st.Books .abort (st.step .abort) := by
  cases hqueue : st.hasQueue with
  | false =>
    simp only [step, abort, hqueue, Bool.false_eq_true, if_false]
    exact quiet_books h rfl nofun rfl rfl rfl rfl rfl (by simp [Repeats, hqueue])
      (by simp [Loses, hqueue])
  | true =>
    obtain ⟨-, hfin, -⟩ | ⟨sent, hsends, hle, hall⟩ :=
      makeRequestOutput_cases h [] (some .abort) none
    · simp at hfin
    obtain ⟨htokens, hlogprobs, detokenizer, parentReq, hids, -, hstate⟩ := hsends
    have hheld : (if 1 < st.streamInterval then st.withheld else []) = st.withheld := by
      unfold withheld
      split_ifs <;> rfl
    rw [hheld] at htokens hlogprobs
    have hnone : (st.makeRequestOutput [] (some .abort) none).2.withheld = [] := by
      rw [hstate, withheld]
      split_ifs with hint
      · exact drop_eq_nil_of_le (by rw [(hall hint).1]; exact hids.symm ▸ le_rfl)
      · rfl
    simp only [step, abort, hqueue, if_true]
    refine Moves.books true h ?_ ?_ ?_
    · refine ⟨?_, ⟨[], ?_, rfl⟩, nofun, fun _ ↦ ⟨?_, ?_, hnone⟩, nofun⟩
      · simp only [hstate, RequestEvent.received, append_nil]
        exact hids
      · rw [hstate, append_nil]
        rfl
      · simp only [RequestEvent.received, append_nil, htokens]
      · simp only [RequestEvent.received, append_nil, hlogprobs, hstate]
        rfl
    · simp [Repeats, hqueue, RequestEvent.received]
    · simp [Loses, hqueue, hnone]

theorem step_books (hallowed : st.Allowed e) : st.Books e (st.step e) := by
  cases e with
  | output o => exact output_books h hallowed
  | updateStreaming resumable => exact updateStreaming_books h hallowed
  | siblingFinished requestId => exact siblingFinished_books h hallowed
  | abort => exact abort_books h

end

/-- A run up to the call that drops the state: what was sent, the last state, and the tokens
received. -/
def run (st : RequestState F) : List (RequestEvent F) → Result F × List ℕ
  | [] => (⟨[], st, false⟩, [])
  | e :: events =>
    let r := st.step e
    if r.dropped then (r, e.received)
    else
      let (rest, received) := r.state.run events
      (⟨r.outputs ++ rest.outputs, rest.state, rest.dropped⟩, e.received ++ received)

def Throughout (P : RequestState F → RequestEvent F → Prop) (st : RequestState F) :
    List (RequestEvent F) → Prop
  | [] => True
  | e :: events =>
    P st e ∧ ((st.step e).dropped = false → Throughout P (st.step e).state events)

theorem run_books (h : st.Streams) {events} (hallowed : st.Throughout Allowed events) :
    let r := (st.run events).1
    (sentTokens r.outputs ++ r.state.withheld = st.withheld ++ (st.run events).2) ∧
      (sentTokens r.outputs).length ≤ (sentLogprobs r.outputs).length ∧
      ((sentLogprobs r.outputs).length ≤ (sentTokens r.outputs).length ↔
        st.Throughout (fun st e ↦ ¬ st.Repeats e) events) ∧
      (r.dropped = true →
        (r.state.withheld = [] ↔ st.Throughout (fun st e ↦ ¬ st.Loses e) events)) ∧
      ∃ more, r.state.sampleLogprobs = st.sampleLogprobs ++ more ∧
        more.length = (st.run events).2.length ∧
        (st.Throughout (fun st e ↦ ¬ st.Repeats e) events →
          sentLogprobs r.outputs ++ r.state.withheldLogprobs = st.withheldLogprobs ++ more) := by
  induction events generalizing st with
  | nil => exact ⟨by simp [run], by simp [run], by simp [run, Throughout], nofun, [], by simp [run]⟩
  | cons e events ih =>
    have hbooks := step_books h hallowed.1
    obtain ⟨more, hmore, hlen, hlogprobs⟩ := hbooks.logprobs
    by_cases hdropped : (st.step e).dropped = true
    · have hnext : ∀ P : RequestState F → RequestEvent F → Prop,
          st.Throughout P (e :: events) ↔ P st e := by simp [Throughout, hdropped]
      simp only [run, hdropped, if_true, hnext]
      refine ⟨hbooks.tokens, hbooks.le, ?_, fun _ ↦ ?_, more, hmore, hlen, hlogprobs⟩
      · rw [hbooks.repeats, not_lt]
      · rw [hbooks.loses]
        simp [hdropped]
    · rw [Bool.not_eq_true] at hdropped
      have hnext : ∀ P : RequestState F → RequestEvent F → Prop,
          st.Throughout P (e :: events) ↔ P st e ∧ (st.step e).state.Throughout P events := by
        simp [Throughout, hdropped]
      obtain ⟨htokens, hle, hrepeats, hloses, more', hmore', hlen', hlogprobs'⟩ :=
        ih (hbooks.streams hdropped) (hallowed.2 hdropped)
      have hno : ¬ st.Loses e := by simp [hbooks.loses, hdropped]
      simp only [run, hdropped, Bool.false_eq_true, if_false, hnext, sentTokens_append,
        sentLogprobs_append, length_append]
      refine ⟨?_, add_le_add hbooks.le hle, ?_, fun hend ↦ ?_, more ++ more', ?_, ?_, ?_⟩
      · rw [append_assoc, htokens, ← append_assoc, hbooks.tokens, append_assoc]
      · rw [← hrepeats, hbooks.repeats, not_lt]
        have := hbooks.le
        omega
      · rw [hloses hend]
        simp [hno]
      · rw [hmore', hmore, append_assoc]
      · rw [length_append, hlen, hlen']
      · rintro ⟨hfirst, hrest⟩
        rw [append_assoc, hlogprobs' hrest, ← append_assoc, hlogprobs hfirst, append_assoc]

structure Starts (st : RequestState F) : Prop extends st.Streams where
  nothing : st.outputTokenIds = []

end RequestState

open RequestState in
/-- Over a whole run, the tokens and logprobs sent are those received, each once, exactly when no
empty output is sent after the first token and no request is dropped with tokens held back. -/
theorem delta_outputs_exact_iff {st : RequestState F} (h : st.Starts)
    (events : List (RequestEvent F)) (hallowed : st.Throughout Allowed events)
    (hend : (st.run events).1.dropped = true) :
    (sentTokens (st.run events).1.outputs = (st.run events).2 ∧
        sentLogprobs (st.run events).1.outputs = (st.run events).1.state.sampleLogprobs) ↔
      st.Throughout (fun st e ↦ ¬ st.Repeats e) events ∧
        st.Throughout (fun st e ↦ ¬ st.Loses e) events := by
  obtain ⟨htokens, hle, hrepeats, hloses, more, hmore, hlen, hlogprobs⟩ :=
    run_books h.toStreams hallowed
  have hheld : st.withheld = [] := by
    simpa [h.nothing] using st.withheld_suffix
  have hnone : st.sampleLogprobs = [] :=
    length_eq_zero_iff.mp (by rw [h.aligned, h.nothing]; rfl)
  rw [hheld, nil_append] at htokens
  rw [hnone, nil_append] at hmore
  constructor
  · rintro ⟨htok, hlog⟩
    rw [htok] at htokens
    refine ⟨hrepeats.mp ?_, (hloses hend).mp (append_right_eq_self.mp htokens)⟩
    rw [hlog, htok, hmore, hlen]
  · rintro ⟨hno, hkept⟩
    have hlast := (hloses hend).mpr hkept
    have hlog := hlogprobs hno
    rw [hlast, append_nil] at htokens
    simp only [withheldLogprobs, hnone, hlast, length_nil, Nat.sub_zero, drop_length,
      append_nil, drop_nil, nil_append] at hlog
    exact ⟨htokens, by rw [hlog, hmore]⟩

def streamedRequest (streamInterval : ℕ) (hasQueue : Bool) : RequestState ℕ where
  requestId := "r"
  externalReqId := "r"
  outputKind := .delta
  streamInterval := streamInterval
  hasQueue := hasQueue
  detokenizer := .plain []
  logprobsProcessor := some { decodeTokens := fun _ ids ↦ ids.map fun _ ↦ none, numLogprobs := 0 }

def tokenOutput (tokenId logprob : ℕ) (finishReason : Option FinishReason) : RequestEvent ℕ :=
  .output
    { newTokens := [⟨tokenId, []⟩]
      newLogprobs := some ⟨[[tokenId]], [[logprob]], [1]⟩
      finishReason := finishReason }

theorem streamedRequest_starts (streamInterval) (hasQueue) :
    (streamedRequest streamInterval hasQueue).Starts where
  delta := rfl
  requested := rfl
  sent_le := Nat.zero_le _
  aligned := rfl
  child := by simp [streamedRequest]
  nothing := rfl

open RequestState in
theorem delta_outputs_exact_two_tokens :
    let st := streamedRequest 1 true
    let events := [tokenOutput 7 3 none, tokenOutput 8 4 (some .length)]
    st.Starts ∧ sentTokens (st.run events).1.outputs = [7, 8] ∧
      sentLogprobs (st.run events).1.outputs = (st.run events).1.state.sampleLogprobs := by
  intro st events
  have hstart := streamedRequest_starts 1 true
  have h := (delta_outputs_exact_iff hstart events ⟨rfl, fun _ ↦ ⟨rfl, nofun⟩⟩ rfl).mpr
    ⟨⟨nofun, fun _ ↦ ⟨nofun, nofun⟩⟩, ⟨id, fun _ ↦ ⟨id, nofun⟩⟩⟩
  exact ⟨hstart, h⟩

open RequestState in
/-- An abort with nothing held back sends the only logprob again. An abort without a queue loses the
second token, held back by the interval. -/
theorem aborted_delta_outputs :
    (let st := streamedRequest 1 true
     let events := [tokenOutput 7 3 none, .abort]
     st.Starts ∧ st.Throughout Allowed events ∧ (st.run events).1.dropped = true ∧
      (st.run events).1.state.sampleLogprobs = [[(7, ⟨3, 1, none⟩)]] ∧
      sentLogprobs (st.run events).1.outputs = [[(7, ⟨3, 1, none⟩)], [(7, ⟨3, 1, none⟩)]]) ∧
    (let st := streamedRequest 5 false
     let events := [tokenOutput 7 3 none, tokenOutput 8 4 none, .abort]
     st.Starts ∧ st.Throughout Allowed events ∧ (st.run events).1.dropped = true ∧
      (st.run events).2 = [7, 8] ∧ sentTokens (st.run events).1.outputs = [7]) := by
  refine ⟨⟨streamedRequest_starts 1 true, ⟨rfl, fun _ ↦ ⟨trivial, nofun⟩⟩, ?_⟩,
    streamedRequest_starts 5 false, ⟨rfl, fun _ ↦ ⟨rfl, fun _ ↦ ⟨trivial, nofun⟩⟩⟩, ?_⟩
  · decide
  · decide

end VllmEngine.Output
