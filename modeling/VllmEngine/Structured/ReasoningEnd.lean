import VllmEngine.Lib.Triple
import VllmEngine.Sched.SessionHashes
import VllmEngine.Structured.OutputTokens
import Mathlib.Data.List.Infix
import Mathlib.Data.List.TakeWhile

namespace VllmEngine.Structured

open VllmEngine.Core Sched EngineRequest List StructuredOp Option

section

variable {e : ℕ} {l k : List ℕ}

def afterEnd (e : ℕ) (l : List ℕ) : List ℕ := (l.dropWhile (· != e)).tail

theorem dropWhile_of_notMem (h : e ∉ l) : l.dropWhile (· != e) = [] := by
  apply dropWhile_eq_nil_iff.mpr
  intro x hx
  have hne : x ≠ e := fun heq ↦ h (heq ▸ hx)
  simpa using hne

theorem afterEnd_of_notMem (h : e ∉ l) : afterEnd e l = [] := by
  rw [afterEnd, dropWhile_of_notMem h, tail_nil]

theorem afterEnd_append (h : e ∈ l) : afterEnd e (l ++ k) = afterEnd e l ++ k := by
  have hne : l.dropWhile (· != e) ≠ [] := by
    intro hnil
    simpa using dropWhile_eq_nil_iff.mp hnil e h
  rw [afterEnd, afterEnd, dropWhile_append, if_neg (by simpa using hne), tail_append_of_ne_nil hne]

theorem afterEnd_append_end (h : e ∉ l) : afterEnd e (l ++ [e]) = [] := by
  rw [afterEnd, dropWhile_append, dropWhile_of_notMem h]
  simp

end

namespace XgrammarGrammar

variable {M : GrammarMatcher} {g g' : XgrammarGrammar} {tokens more : List ℤ}

theorem acceptLoop_matched (h : acceptLoop M tokens g = (true, g')) :
    g'.matched = g.matched ++ tokens := by
  induction tokens generalizing g with
  | nil =>
    obtain rfl := (Prod.mk.inj h).2
    simp
  | cons token tokens ih =>
    unfold acceptLoop at h
    split at h
    · rw [ih h, append_assoc]
      rfl
    · cases (Prod.mk.inj h).1

theorem acceptTokens_matched (h : g.acceptTokens M tokens = (true, g')) :
    g'.matched = g.matched ++ tokens := by
  unfold acceptTokens at h
  split at h
  · cases (Prod.mk.inj h).1
  · exact acceptLoop_matched h

theorem acceptLoop_iff : (acceptLoop M tokens g).1 = true ↔
    ∀ l t, l ++ [t] <+: tokens → M.acceptToken (g.matched ++ l) t = true := by
  induction tokens generalizing g with
  | nil => simp [acceptLoop]
  | cons token tokens ih =>
    unfold acceptLoop
    split
    next haccept =>
      rw [ih]
      refine ⟨fun h l t hl ↦ ?_, fun h l t hl ↦ ?_⟩
      · cases l with
        | nil =>
          obtain ⟨rfl, -⟩ := cons_prefix_cons.mp hl
          simpa using haccept
        | cons t' l =>
          obtain ⟨rfl, hrest⟩ := cons_prefix_cons.mp hl
          simpa using h l t hrest
      · simpa using h (token :: l) t (cons_prefix_cons.mpr ⟨rfl, hl⟩)
    next hreject =>
      refine ⟨fun h ↦ (Bool.false_ne_true h).elim, fun h ↦ ?_⟩
      have haccept := h [] token (cons_prefix_cons.mpr ⟨rfl, nil_prefix⟩)
      rw [append_nil] at haccept
      exact absurd haccept hreject

theorem acceptTokens_append (h : (g.acceptTokens M (tokens ++ more)).1 = true) :
    (g.acceptTokens M tokens).1 = true := by
  unfold acceptTokens at h ⊢
  split at h
  · cases h
  next hrun =>
    rw [if_neg hrun]
    rw [acceptLoop_iff] at h ⊢
    exact fun l t hl ↦ h l t (hl.trans (prefix_append _ _))

end XgrammarGrammar

namespace StructuredOutputManager

open XgrammarGrammar

variable {m : StructuredOutputManager} {M : GrammarMatcher} {p : BaseThinkingReasoningParser}
  {structured : StructuredOutputRequest}

theorem bitmaskLoop_matched {tokens applyBitmask g out}
    (h : bitmaskLoop M tokens applyBitmask g = some out) :
    out.2.1 + g.matched.length = out.1.matched.length ∧ g.matched <+: out.1.matched := by
  induction tokens generalizing applyBitmask g out with
  | nil =>
    cases h
    simp
  | cons token tokens ih =>
    unfold bitmaskLoop at h
    dsimp only at h
    split at h
    · split at h
      next grammar haccept =>
        obtain ⟨rest, hrest, rfl⟩ := map_eq_some_iff.mp h
        obtain ⟨hlen, hpre⟩ := ih hrest
        rw [acceptTokens_matched haccept] at hlen hpre
        refine ⟨?_, (prefix_append _ _).trans hpre⟩
        simp only [length_append, length_singleton] at hlen
        dsimp only
        omega
      · cases h
    · obtain ⟨rest, hrest, rfl⟩ := map_eq_some_iff.mp h
      simpa only using ih hrest

theorem grammarBitmask_matched {promptTokenIds specTokenIds out}
    (h : m.grammarBitmask M promptTokenIds specTokenIds structured = some out) :
    out.1.grammar.matched = structured.grammar.matched ∧
      out.1.reasoningEnded = (m.shouldFillBitmask promptTokenIds structured).2.reasoningEnded := by
  obtain ⟨loop, hloop, rfl⟩ := map_eq_some_iff.mp h
  have hsame : (m.shouldFillBitmask promptTokenIds structured).2.grammar = structured.grammar := by
    unfold shouldFillBitmask
    repeat' split
    all_goals rfl
  rw [hsame] at hloop
  obtain ⟨hlen, hpre⟩ := bitmaskLoop_matched hloop
  refine ⟨?_, rfl⟩
  have heq : loop.1.matched.take (loop.1.matched.length - loop.2.1) = structured.grammar.matched := by
    rw [prefix_iff_eq_take.mp hpre]
    congr 1
    omega
  split
  · exact heq
  next hzero =>
    rw [show loop.2.1 = 0 by omega, Nat.sub_zero, take_length] at heq
    exact heq

section

variable (hreasoner : m.reasoner = some p) (hoff : m.enableInReasoning = false)

include hreasoner hoff

theorem shouldFillBitmask_ended {promptTokenIds}
    (hprompt : structured.reasoningEnded = none → p.isReasoningEnd promptTokenIds = false) :
    (m.shouldFillBitmask promptTokenIds structured).2.reasoningEnded = some true ↔
      structured.reasoningEnded = some true := by
  simp only [shouldFillBitmask, hreasoner, hoff, Bool.false_eq_true, if_false, some.injEq]
  cases hended : structured.reasoningEnded with
  | none => simp [hprompt hended]
  | some ended => simp

theorem shouldAdvance_of_ended {r} (h : structured.reasoningEnded = some true) :
    m.shouldAdvance r structured = (true, structured) := by
  simp [shouldAdvance, hreasoner, hoff, h]

theorem shouldAdvance_of_thinking {r} (h : structured.reasoningEnded ≠ some true) :
    m.shouldAdvance r structured = (false, if p.endTokenId ∈ examined r then
      { structured with reasoningEnded := some true } else structured) := by
  simp only [shouldAdvance, hreasoner, hoff, h, Bool.false_eq_true, if_false,
    BaseThinkingReasoningParser.isReasoningEndStreaming, decide_eq_true_eq]
  split <;> rfl

end

end StructuredOutputManager

section

variable {H : Hashing} {cfg : EngineConfig} {m : StructuredOutputManager} {M : GrammarMatcher}
  {p : BaseThinkingReasoningParser} {st st' : StructuredState}

/-- The flag tells whether the end token is out, and the grammar has accepted the tokens since. -/
structure Follows (endTokenId : ℕ) (st : StructuredState) : Prop where
  ended : st.structured.reasoningEnded = some true ↔ endTokenId ∈ st.request.outputTokenIds
  accepted : st.structured.grammar.matched = (afterEnd endTokenId st.request.outputTokenIds).map (↑)

/-- When an output is in order. Before the end token: it can only come last, to a request not
preempted or set back since, or not at all. After that: the grammar accepts the tokens, up to one on
which the request stops. And a session does not go on after the end token. -/
def OutputMeets (cfg : EngineConfig) (M : GrammarMatcher) (e : ℕ) (st : StructuredState) (s : Step)
    (generated : List ℕ) : Prop :=
  (if e ∈ st.request.outputTokenIds then
    ∃ first ∈ generated.inits, Suffices cfg.toSchedulerConfig st.request.toSchedRequest generated first ∧
      (st.structured.grammar.acceptTokens M (first.map (↑))).1 = true
  else
    e ∉ generated ∧ e ∉ st.request.allTokenIds ∨ e ∉ generated.dropLast ∧ Current cfg st.request s) ∧
  (st.request.toSchedRequest.nextUpdate ≠ none → (∃ first ∈ generated.inits, first ≠ [] ∧
      Stops cfg.toSchedulerConfig st.request.toSchedRequest first) →
    e ∉ st.request.outputTokenIds ∧ e ∉ generated)

/-- When new drafts are in order: they come after an output, or no end token is there at all. -/
def DraftsMeet (e : ℕ) (r : EngineRequest) : Prop :=
  e ∈ r.outputTokenIds ∨ e ∉ r.allTokenIds ∨
    r.outputTokenIds ≠ [] ∧ r.numComputedTokens + 1 = r.numTokens + r.numOutputPlaceholders

def Meets (cfg : EngineConfig) (M : GrammarMatcher) (p : BaseThinkingReasoningParser)
    (st : StructuredState) : StructuredOp → Prop
  | .scheduler (.streamingUpdate (some _)) =>
    st.request.status = .waitingForStreamingReq → p.endTokenId ∉ st.request.outputTokenIds
  | .scheduler _ => True
  | .grammarBitmask =>
    st.structured.reasoningEnded = none → p.isReasoningEnd st.request.promptTokenIds = false
  | .output generated =>
    generated ≠ [] → st.request.status.isFinished = false →
      (cfg.asyncScheduling = true → st.request.discardLatestAsyncTokens = false) →
      ∀ s ∈ st.inFlight.head?, OutputMeets cfg M p.endTokenId st s generated
  | .drafts _ =>
    st.request.status.isFinished = false → st.request.isPrefillChunk = false →
      DraftsMeet p.endTokenId st.request
  | .draftsInOutput _ => DraftsMeet p.endTokenId st.request

/-- The states that actions satisfying `C` lead to, for a new request whose prompt does not end the
reasoning. -/
inductive StructuredRunOf (H : Hashing) (cfg : EngineConfig) (m : StructuredOutputManager)
    (M : GrammarMatcher) (C : StructuredState → StructuredOp → Prop) : StructuredState → Prop
  | new {r reasoningEnded} (h : r.Fresh) (hout : r.outputTokenIds = [])
      (hended : reasoningEnded ≠ some true) :
      StructuredRunOf H cfg m M C { request := r, structured := { reasoningEnded } }
  | step {st st' : StructuredState} (op : StructuredOp) (h : StructuredRunOf H cfg m M C st) (hC : C st op)
      (hrun : op.run H cfg m M st = .ok st') : StructuredRunOf H cfg m M C st'

structure Tracks (endTokenId : ℕ) (st : StructuredState) : Prop extends Follows endTokenId st where
  last : st.request.outputTokenIds <:+ st.request.allTokenIds

variable {e : ℕ}

theorem Follows.of_absent (hended : st.structured.reasoningEnded ≠ some true)
    (habsent : e ∉ st.request.outputTokenIds) (hmatched : st.structured.grammar.matched = []) :
    Follows e st := by
  refine ⟨iff_of_false hended habsent, ?_⟩
  rw [hmatched, afterEnd_of_notMem habsent, map_nil]

theorem Follows.matched_of_absent (h : Follows e st)
    (habsent : e ∉ st.request.outputTokenIds) : st.structured.grammar.matched = [] := by
  rw [h.accepted, afterEnd_of_notMem habsent, map_nil]

theorem Tracks.of_same (h : Tracks e st) (hsame : SameTokens st.request st'.request)
    (hended : st'.structured.reasoningEnded = some true ↔ st.structured.reasoningEnded = some true)
    (hmatched : st'.structured.grammar.matched = st.structured.grammar.matched) : Tracks e st' := by
  obtain ⟨hout, hall⟩ := hsame
  refine ⟨⟨?_, ?_⟩, ?_⟩
  · rw [hended, hout]
    exact h.ended
  · rw [hmatched, hout]
    exact h.accepted
  · rw [hout, hall]
    exact h.last

theorem Tracks.of_anew (h : Tracks e st) (habsent : e ∉ st.request.outputTokenIds)
    (hnil : st'.request.outputTokenIds = []) (hsame : st'.structured = st.structured) :
    Tracks e st' := by
  refine ⟨.of_absent ?_ (by simp [hnil]) ?_, by simp [hnil]⟩
  · rw [hsame, Ne, h.ended]
    exact habsent
  · rw [hsame]
    exact h.matched_of_absent habsent

section

variable (hreasoner : m.reasoner = some p) (hoff : m.enableInReasoning = false)

open StructuredOutputManager

theorem Tracks.scheduler {op} (h : Tracks p.endTokenId st) (hC : Meets cfg M p st (.scheduler op))
    (hrun : (scheduler op).run H cfg m M st = .ok st') : Tracks p.endTokenId st' := by
  simp only [run] at hrun
  split at hrun
  · cases hrun
  next hop =>
    obtain ⟨next, hnext, hst⟩ := Lib.of_bind_eq_ok hrun
    cases hst
    rcases move_tokens (ReqOp.move hnext) (by simpa using hop) with hsame | ⟨hnil, hst, update, rfl⟩
    · exact h.of_same hsame Iff.rfl rfl
    · exact h.of_anew (hC hst) hnil rfl

variable {structured : StructuredOutputRequest} {generated : List ℕ}
  {out : EngineRequest × List ℕ × Bool}

theorem Tracks.sameDrafts {specTokenIds} (h : Tracks p.endTokenId st)
    (hsame : structured = st.structured) (hrun : (do
      let next ← (ReqOp.drafts specTokenIds).run H cfg st.toRequestState
      pure { toRequestState := next, structured } : Except Fault StructuredState) = .ok st') :
    Tracks p.endTokenId st' := by
  obtain ⟨next, hnext, hst⟩ := Lib.of_bind_eq_ok hrun
  cases hst
  refine h.of_same (drafts_tokens hnext) ?_ ?_
  · rw [hsame]
  · rw [hsame]

theorem examined_of_meets {s}
    (happ : appendOutput H cfg s generated st.request = .ok out) (hret : s.Returns generated)
    (hne : out.2.1 ≠ []) (habsent : p.endTokenId ∉ st.request.outputTokenIds)
    (hC : OutputMeets cfg M p.endTokenId st s generated) :
    p.endTokenId ∉ out.2.1 ∧ p.endTokenId ∉ examined out.1 ∨
      p.endTokenId ∈ examined out.1 ∧ out.2.1 = generated ∧
        ∃ before, out.2.1 = before ++ [p.endTokenId] ∧ p.endTokenId ∉ before := by
  have hk := (appendOutput_spec happ).1
  have hpre : out.2.1 <+: generated := hk.least generated prefix_rfl (.inl rfl)
  have hmeets := hC.1
  rw [if_neg habsent] at hmeets
  rcases hmeets with ⟨hgen, hall⟩ | ⟨hlast, hcur⟩
  · refine .inl ⟨fun hmem ↦ hgen (hpre.subset hmem), fun hmem ↦ ?_⟩
    have hmem := drop_subset _ _ hmem
    rw [show out.1.allTokenIds = _ from hk.all, mem_append] at hmem
    rcases hmem with hmem | hmem
    · exact hall hmem
    · exact hgen (hpre.subset hmem)
  · obtain ⟨hexam, hexact⟩ := examined_of_current hcur hret happ hne
    by_cases hfull : out.2.1 = generated
    · have hsplit := dropLast_append_getLast hne
      have hbefore : p.endTokenId ∉ out.2.1.dropLast := by rwa [hfull]
      rw [hexact hfull]
      by_cases heq : out.2.1.getLast hne = p.endTokenId
      · exact .inr ⟨by simp [heq], hfull, out.2.1.dropLast, by rw [← heq, hsplit], hbefore⟩
      · refine .inl ⟨fun hmem ↦ ?_, by simpa using Ne.symm heq⟩
        rw [← hsplit, mem_append, mem_singleton] at hmem
        exact hmem.elim hbefore fun h ↦ heq h.symm
    · have hkept : p.endTokenId ∉ out.2.1 := by
        obtain ⟨rest, rfl⟩ := hpre
        have hrest : rest ≠ [] := fun hnil ↦ hfull (by rw [hnil, append_nil])
        rw [dropLast_append_of_ne_nil hrest, mem_append, not_or] at hlast
        exact hlast.1
      refine .inl ⟨hkept, fun hmem ↦ hkept ?_⟩
      rw [hexam _ hmem]
      exact getLast_mem hne

include hreasoner hoff

section

variable (h : Tracks p.endTokenId st)

include h

theorem Tracks.grammarBitmask (hC : Meets cfg M p st .grammarBitmask)
    (hrun : grammarBitmask.run H cfg m M st = .ok st') : Tracks p.endTokenId st' := by
  simp only [run] at hrun
  split at hrun
  · cases hrun
  split at hrun
  · cases hrun
  split at hrun
  · cases hrun
  next structured rows hmask =>
    cases hrun
    obtain ⟨hmatched, hended⟩ := grammarBitmask_matched hmask
    refine h.of_same ⟨rfl, rfl⟩ ?_ hmatched
    rw [show structured.reasoningEnded = _ from hended]
    exact shouldFillBitmask_ended hreasoner hoff hC

theorem Tracks.filterDrafts (hC : DraftsMeet p.endTokenId st.request) (specTokenIds) :
    (m.filterDrafts M st.request specTokenIds st.structured).2 = st.structured := by
  by_cases hended : st.structured.reasoningEnded = some true
  · rw [StructuredOutputManager.filterDrafts, shouldAdvance_of_ended hreasoner hoff hended]
    rfl
  have habsent : p.endTokenId ∉ st.request.outputTokenIds := mt h.ended.mpr hended
  have hexam : p.endTokenId ∉ examined st.request := by
    rcases hC with hmem | hall | ⟨hne, hcur⟩
    · exact absurd hmem habsent
    · exact fun hmem ↦ hall (drop_subset _ _ hmem)
    · exact examined_of_settled hne hcur h.last habsent
  rw [StructuredOutputManager.filterDrafts, shouldAdvance_of_thinking hreasoner hoff hended, if_neg hexam]
  rfl

variable {specTokenIds : List ℤ}

theorem Tracks.drafts (hC : Meets cfg M p st (.drafts specTokenIds))
    (hrun : (drafts specTokenIds).run H cfg m M st = .ok st') :
    Tracks p.endTokenId st' := by
  simp only [run] at hrun
  split at hrun
  · exact h.sameDrafts rfl hrun
  next hgo =>
    have hmeet := hC (by simpa using (not_or.mp hgo).1) (by simpa using (not_or.mp hgo).2)
    exact h.sameDrafts (h.filterDrafts hreasoner hoff hmeet specTokenIds) hrun

theorem Tracks.draftsInOutput (hC : Meets cfg M p st (.draftsInOutput specTokenIds))
    (hrun : (draftsInOutput specTokenIds).run H cfg m M st = .ok st') :
    Tracks p.endTokenId st' := by
  simp only [run] at hrun
  split at hrun
  · cases hrun
  split at hrun
  · cases hrun
  cases hrun
  have hsame := h.filterDrafts (M := M) hreasoner hoff hC
  refine h.of_same ⟨rfl, rfl⟩ ?_ ?_
  · rw [hsame]
  · rw [hsame]

end

theorem advance_of_ended {r kept first}
    (hended : structured.reasoningEnded = some true) (hne : kept ≠ []) (hpre : kept <+: first)
    (haccept : (structured.grammar.acceptTokens M (first.map (↑))).1 = true) :
    (m.advance M r kept structured).2.reasoningEnded = some true ∧
      (m.advance M r kept structured).2.grammar.matched =
        structured.grammar.matched ++ kept.map (↑) := by
  obtain ⟨rest, rfl⟩ := hpre
  rw [map_append] at haccept
  have hkept := XgrammarGrammar.acceptTokens_append haccept
  rw [advance, if_neg hne, shouldAdvance_of_ended hreasoner hoff hended]
  exact ⟨hended, XgrammarGrammar.acceptTokens_matched (Prod.ext hkept rfl)⟩

theorem advance_of_thinking {r kept}
    (hended : structured.reasoningEnded ≠ some true) (hne : kept ≠ []) :
    (m.advance M r kept structured).2 = if p.endTokenId ∈ examined r then
      { structured with reasoningEnded := some true } else structured := by
  rw [advance, if_neg hne, shouldAdvance_of_thinking hreasoner hoff hended]
  rfl

theorem Tracks.appended {s rest next grammarAccepts} (h : Tracks p.endTokenId st)
    (hflight : st.inFlight = s :: rest) (hgoing : st.request.status.isFinished = false)
    (hC : Meets cfg M p st (.output generated))
    (happ : appendOutput H cfg s generated st.request = .ok out)
    (hnext : (ReqOp.output generated grammarAccepts).run H cfg st.toRequestState = .ok next) :
    Tracks p.endTokenId
      { toRequestState := next, structured := (m.advance M out.1 out.2.1 st.structured).2 } := by
  obtain ⟨hk, hc⟩ := appendOutput_spec happ
  obtain ⟨hret, htokens⟩ := output_tokens hflight hgoing happ hnext
  have hout : out.1.outputTokenIds = st.request.outputTokenIds ++ out.2.1 := hk.output
  have hall : out.1.allTokenIds = st.request.allTokenIds ++ out.2.1 := hk.all
  have hpre : out.2.1 <+: generated := hk.least generated prefix_rfl (.inl rfl)
  by_cases hne : out.2.1 = []
  · have hsame : SameTokens st.request next.request := by
      rcases htokens with hsame | ⟨-, hstop, -⟩
      · exact ⟨hsame.1.trans (by rw [hout, hne, append_nil]),
          hsame.2.trans (by rw [hall, hne, append_nil])⟩
      · exact absurd hne (hk.stops hstop).1
    rw [advance, if_pos hne]
    exact h.of_same hsame Iff.rfl rfl
  have hgen : generated ≠ [] := fun hnil ↦ hne (prefix_nil.mp (hnil ▸ hpre))
  have hmeets : OutputMeets cfg M p.endTokenId st s generated :=
    hC hgen hgoing (hc.fresh hne) s (by rw [hflight, head?_cons, mem_some])
  have hlast : next.request.outputTokenIds <:+ next.request.allTokenIds := by
    rcases htokens with ⟨hsame, hsameAll⟩ | ⟨hnil, -, -⟩
    · obtain ⟨before, heq⟩ := h.last
      exact ⟨before, by rw [hsame, hsameAll, hout, hall, ← heq, append_assoc]⟩
    · simp [hnil]
  -- a session only goes on before the end token
  have hanew : next.request.outputTokenIds = [] ∧ out.2.2 = true ∧
      st.request.toSchedRequest.nextUpdate ≠ none →
      p.endTokenId ∉ st.request.outputTokenIds ∧ p.endTokenId ∉ generated := fun hnew ↦
    hmeets.2 hnew.2.2 ⟨out.2.1, (mem_inits _ _).mpr hpre, hk.stops hnew.2.1⟩
  by_cases hended : st.structured.reasoningEnded = some true
  · have hmem := h.ended.mp hended
    have hin := hmeets.1
    rw [if_pos hmem] at hin
    obtain ⟨first, hfirst, hsuff, haccept⟩ := hin
    obtain ⟨hflag, hmatched⟩ := advance_of_ended hreasoner hoff hended hne
      (hk.least first ((mem_inits _ _).mp hfirst) hsuff) haccept
    have hsame : next.request.outputTokenIds = st.request.outputTokenIds ++ out.2.1 := by
      rcases htokens with hsame | hnew
      · exact hsame.1.trans hout
      · exact absurd hmem (hanew hnew).1
    refine ⟨⟨iff_of_true hflag ?_, ?_⟩, hlast⟩
    · rw [hsame]
      exact mem_append_left _ hmem
    · rw [hsame, afterEnd_append hmem, map_append, ← h.accepted]
      exact hmatched
  · have habsent : p.endTokenId ∉ st.request.outputTokenIds := mt h.ended.mpr hended
    have hnone := h.matched_of_absent habsent
    rw [advance_of_thinking hreasoner hoff hended hne]
    rcases examined_of_meets happ hret hne habsent hmeets with
      ⟨hkept, hexam⟩ | ⟨hexam, hfull, before, hsplit, hbefore⟩
    · rw [if_neg hexam]
      refine ⟨.of_absent hended ?_ hnone, hlast⟩
      rcases htokens with hsame | hnew
      · rw [hsame.1, hout, mem_append, not_or]
        exact ⟨habsent, hkept⟩
      · rw [hnew.1]
        exact not_mem_nil
    · rw [if_pos hexam]
      have hsame : next.request.outputTokenIds =
          st.request.outputTokenIds ++ before ++ [p.endTokenId] := by
        rcases htokens with hsame | hnew
        · rw [hsame.1, hout, hsplit, append_assoc]
        · refine absurd ?_ (hanew hnew).2
          rw [← hfull, hsplit]
          exact mem_append_right _ (mem_singleton_self _)
      refine ⟨⟨iff_of_true rfl ?_, ?_⟩, hlast⟩
      · rw [hsame]
        exact mem_append_right _ (mem_singleton_self _)
      · rw [hsame, afterEnd_append_end (by simp [habsent, hbefore]), map_nil]
        exact hnone

theorem Tracks.output (h : Tracks p.endTokenId st) (hC : Meets cfg M p st (.output generated))
    (hrun : (output generated).run H cfg m M st = .ok st') :
    Tracks p.endTokenId st' := by
  simp only [run] at hrun
  split at hrun
  · cases hrun
  next s rest hflight =>
    split at hrun
    next hfin =>
      obtain ⟨next, hnext, hst⟩ := Lib.of_bind_eq_ok hrun
      cases hst
      exact h.of_same (late_tokens hfin hnext) Iff.rfl rfl
    next hgoing =>
      obtain ⟨out, happ, hrest⟩ := Lib.of_bind_eq_ok hrun
      obtain ⟨next, hnext, hst⟩ := Lib.of_bind_eq_ok hrest
      cases hst
      exact h.appended hreasoner hoff hflight (by simpa using hgoing) hC happ hnext

theorem Tracks.step {op} (h : Tracks p.endTokenId st) (hC : Meets cfg M p st op)
    (hrun : op.run H cfg m M st = .ok st') : Tracks p.endTokenId st' := by
  cases op with
  | scheduler op => exact h.scheduler hC hrun
  | grammarBitmask => exact h.grammarBitmask hreasoner hoff hC hrun
  | output generated => exact h.output hreasoner hoff hC hrun
  | drafts specTokenIds => exact h.drafts hreasoner hoff hC hrun
  | draftsInOutput specTokenIds => exact h.draftsInOutput hreasoner hoff hC hrun

theorem StructuredRunOf.tracks (h : StructuredRunOf H cfg m M (Meets cfg M p) st) :
    Tracks p.endTokenId st := by
  induction h with
  | @new r reasoningEnded hfresh hout hended =>
    exact ⟨.of_absent hended (by simp [hout]) rfl, by simp [hout]⟩
  | step op _ hC hrun ih => exact ih.step hreasoner hoff hC hrun

/-- In a run whose outputs come in order the flag and the grammar follow the output tokens. -/
theorem reasoning_end_followed (h : StructuredRunOf H cfg m M (Meets cfg M p) st) :
    Follows p.endTokenId st :=
  (h.tracks hreasoner hoff).toFollows

end

instance (cfg : EngineConfig) (M : GrammarMatcher) (e : ℕ) (st : StructuredState) (s : Step)
    (generated : List ℕ) : Decidable (OutputMeets cfg M e st s generated) := by
  unfold OutputMeets
  infer_instance

instance (e : ℕ) (r : EngineRequest) : Decidable (DraftsMeet e r) := by
  unfold DraftsMeet
  infer_instance

instance (cfg : EngineConfig) (M : GrammarMatcher) (p : BaseThinkingReasoningParser)
    (st : StructuredState) (op : StructuredOp) : Decidable (Meets cfg M p st op) := by
  unfold Meets
  split <;> infer_instance

def runInOrder (H : Hashing) (cfg : EngineConfig) (m : StructuredOutputManager) (M : GrammarMatcher)
    (C : StructuredState → StructuredOp → Prop) [∀ st op, Decidable (C st op)] :
    List StructuredOp → StructuredState → Except Fault StructuredState
  | [], st => .ok st
  | op :: ops, st =>
    if C st op then do
      let st ← op.run H cfg m M st
      runInOrder H cfg m M C ops st
    else .error .disabled

theorem StructuredRunOf.runInOrder {C}
    [∀ st op, Decidable (C st op)] {ops} (h : StructuredRunOf H cfg m M C st)
    (hrun : Structured.runInOrder H cfg m M C ops st = .ok st') : StructuredRunOf H cfg m M C st' := by
  induction ops generalizing st with
  | nil =>
    cases hrun
    exact h
  | cons op ops ih =>
    simp only [Structured.runInOrder] at hrun
    split at hrun
    next hC =>
      obtain ⟨next, hop, hrest⟩ := Lib.of_bind_eq_ok hrun
      exact ih (.step op h hC hop) hrest
    · cases hrun

end

section

def draftConfig : EngineConfig where
  blockSize := 16
  maxModelLen := 100
  numSpecTokens := 2

def thinkTokens : BaseThinkingReasoningParser where
  startTokenId := 8
  endTokenId := 9

def thinkingManager : StructuredOutputManager where
  reasoner := some thinkTokens

def anyTokens : GrammarMatcher where
  acceptToken _ _ := true
  isTerminated _ := false

def thinkingRequest : EngineRequest where
  requestId := "a"
  allTokenIds := [1, 8]
  promptTokenIds := [1, 8]
  numPromptTokens := 2
  maxTokens := 10

theorem thinkingRequest_fresh : thinkingRequest.Fresh := by
  unfold EngineRequest.Fresh
  decide

def endWithinDrafts : List StructuredOp :=
  [.scheduler (.scheduleWaiting ⟨100, none⟩ 0), .grammarBitmask, .output [3], .drafts [9, 4],
    .scheduler (.scheduleRunning ⟨100, none⟩), .grammarBitmask, .output [9, 4, 6]]

/-- The manager only looks at the last of three new tokens: the end token goes unnoticed, and the
grammar misses the tokens after it. -/
theorem end_token_within_accepted_drafts : thinkingRequest.Fresh ∧
    ∃ st, runAll tokenHashing draftConfig thinkingManager anyTokens endWithinDrafts
        { request := thinkingRequest } = .ok st ∧
      st.request.outputTokenIds = [3, 9, 4, 6] ∧ st.structured.reasoningEnded = some false ∧
      st.structured.grammar.matched = [] ∧ ¬ Follows thinkTokens.endTokenId st := by
  refine ⟨thinkingRequest_fresh, _, rfl, rfl, rfl, rfl, fun h ↦ ?_⟩
  have hended := h.ended.mpr (by decide)
  cases hended

def endAfterDraft : List StructuredOp :=
  [.scheduler (.scheduleWaiting ⟨100, none⟩ 0), .grammarBitmask, .output [3], .drafts [4],
    .scheduler (.scheduleRunning ⟨100, none⟩), .grammarBitmask, .output [4, 9], .drafts [5],
    .scheduler (.scheduleRunning ⟨100, none⟩), .grammarBitmask, .output [5, 6]]

theorem reasoning_end_followed_after_draft : ∃ st, runInOrder tokenHashing draftConfig thinkingManager
      anyTokens (Meets draftConfig anyTokens thinkTokens) endAfterDraft { request := thinkingRequest } =
        .ok st ∧
    st.request.outputTokenIds = [3, 4, 9, 5, 6] ∧ st.structured.grammar.matched = [5, 6] ∧
    Follows thinkTokens.endTokenId st := by
  obtain ⟨st, hrun, hout, hmatched⟩ : ∃ st, runInOrder tokenHashing draftConfig thinkingManager
      anyTokens (Meets draftConfig anyTokens thinkTokens) endAfterDraft { request := thinkingRequest } =
        .ok st ∧
      st.request.outputTokenIds = [3, 4, 9, 5, 6] ∧ st.structured.grammar.matched = [5, 6] :=
    ⟨_, rfl, rfl, rfl⟩
  have hnew : StructuredRunOf tokenHashing draftConfig thinkingManager anyTokens
      (Meets draftConfig anyTokens thinkTokens) { request := thinkingRequest } :=
    .new thinkingRequest_fresh rfl (by simp)
  exact ⟨st, hrun, hout, hmatched, reasoning_end_followed rfl rfl (hnew.runInOrder hrun)⟩

end

end VllmEngine.Structured
