import VllmEngine.Structured.ReasoningEnd

namespace VllmEngine.Structured

open VllmEngine.Core Sched List Option

variable {M : GrammarMatcher} {g : XgrammarGrammar} {tokens : List ℤ}

open StructuredOutputManager XgrammarGrammar in
/-- A row is filled at the drafts before it, unless the grammar has terminated. -/
theorem StructuredOutputManager.bitmaskLoop_row {l} {t}
    {out : XgrammarGrammar × ℕ × List (Option (List ℤ))}
    (h : bitmaskLoop M tokens true g = some out) (hl : l ++ [t] <+: tokens) (hpad : -1 ∉ l)
    (hgoing : g.isTerminated = false)
    (hnext : ∀ l', l' ≠ [] → l' <+: l → M.isTerminated (g.matched ++ l') = false) :
    out.2.2[l.length]? = some (some (g.matched ++ l)) := by
  induction l generalizing tokens g out with
  | nil =>
    obtain ⟨rest, rfl⟩ := hl
    simp only [nil_append, cons_append, bitmaskLoop] at h
    split at h
    · split at h
      · obtain ⟨_, -, rfl⟩ := map_eq_some_iff.mp h
        simp [hgoing]
      · cases h
    · obtain ⟨_, -, rfl⟩ := map_eq_some_iff.mp h
      simp [hgoing]
  | cons token l ih =>
    obtain ⟨rest, rfl⟩ := hl
    obtain ⟨htoken, hpad⟩ := ne_and_not_mem_of_not_mem_cons hpad
    have happly : (true && token != -1) = true := by simp [Ne.symm htoken]
    simp only [cons_append, bitmaskLoop, happly] at h
    rw [if_pos ⟨trivial, hgoing⟩] at h
    unfold acceptTokens acceptLoop at h
    rw [hgoing, if_neg (by simp)] at h
    split at h
    next grammar haccept =>
      split at haccept
      · obtain ⟨_, hrest, rfl⟩ := map_eq_some_iff.mp h
        obtain rfl := (Prod.mk.inj haccept).2
        have hrow := ih hrest ⟨rest, rfl⟩ hpad
          (hnext [token] (by simp) (cons_prefix_cons.mpr ⟨rfl, nil_prefix⟩))
          (fun l' _ hl' ↦ by
            simpa using hnext (token :: l') (by simp) (cons_prefix_cons.mpr ⟨rfl, hl'⟩))
        simpa using hrow
      · cases (Prod.mk.inj haccept).1
    · cases h

open StructuredOutputManager in
theorem StructuredOutputManager.bitmaskLoop_idle {applyBitmask}
    {out : XgrammarGrammar × ℕ × List (Option (List ℤ))}
    (h : bitmaskLoop M tokens applyBitmask g = some out)
    (hidle : g.isTerminated = true ∨ out.2.1 = 0) : out.1 = g ∧ out.2.1 = 0 := by
  induction tokens generalizing applyBitmask out with
  | nil =>
    cases h
    exact ⟨rfl, rfl⟩
  | cons token tokens ih =>
    unfold bitmaskLoop at h
    dsimp only at h
    split at h
    next hgoing =>
      split at h
      · obtain ⟨_, -, rfl⟩ := map_eq_some_iff.mp h
        simp [hgoing.2] at hidle
      · cases h
    · obtain ⟨rest, hrest, rfl⟩ := map_eq_some_iff.mp h
      simpa only using ih hrest hidle

/-- The tokens that a step returns for its rows: accepted drafts and one more, each allowed by its
row. -/
structure Sampled (M : GrammarMatcher) (drafts : List ℤ) (rows : List (Option (List ℤ)))
    (generated : List ℤ) : Prop where
  accepted : generated.dropLast <+: drafts
  allowed : ∀ l t matched, l ++ [t] <+: generated → rows[l.length]? = some (some matched) →
    M.acceptToken matched t = true

/-- No token comes after the end of the grammar. -/
def EndsLast (M : GrammarMatcher) (g : XgrammarGrammar) (tokens : List ℤ) : Prop :=
  tokens ≠ [] → g.isTerminated = false ∧
    ∀ l, l <+: tokens → l.length < tokens.length → M.isTerminated (g.matched ++ l) = false

theorem exists_concat_prefix {l} (h : l <+: tokens) (hlt : l.length < tokens.length) :
    ∃ t, l ++ [t] <+: tokens := by
  obtain ⟨rest, rfl⟩ := h
  cases rest with
  | nil => simp at hlt
  | cons t rest => exact ⟨t, rest, by simp⟩

section

variable {m : StructuredOutputManager} {H : Hashing} {cfg : EngineConfig} {r : EngineRequest}
  {s : Step} {generated : List ℕ} {promptTokenIds : List ℕ} {specTokenIds kept : List ℤ}
  {structured structured' : StructuredOutputRequest} {rows : List (Option (List ℤ))}
  {out : EngineRequest × List ℕ × Bool}

section

variable (hreasoner : m.reasoner = none)
  (hmask : m.grammarBitmask M promptTokenIds specTokenIds structured = some (structured', rows))

include hreasoner hmask

open StructuredOutputManager

theorem grammarBitmask_loop : ∃ loop, bitmaskLoop M (specTokenIds ++ [-1]) true structured.grammar =
      some loop ∧ rows = loop.2.2 ∧
    structured'.grammar = if 0 < loop.2.1 then loop.1.rollback M loop.2.1 else loop.1 := by
  unfold grammarBitmask shouldFillBitmask at hmask
  rw [hreasoner] at hmask
  obtain ⟨loop, hloop, heq⟩ := map_eq_some_iff.mp hmask
  obtain ⟨rfl, rfl⟩ := Prod.mk.inj heq
  exact ⟨loop, hloop, rfl, rfl⟩

theorem grammarBitmask_isTerminated (hgoing : M.isTerminated structured.grammar.matched = false) :
    structured'.grammar.isTerminated = structured.grammar.isTerminated := by
  have hmatched := (grammarBitmask_matched hmask).1
  obtain ⟨loop, hloop, -, hgrammar⟩ := grammarBitmask_loop hreasoner hmask
  rw [hgrammar] at hmatched ⊢
  split
  next hpos =>
    rw [if_pos hpos] at hmatched
    have hterm : structured.grammar.isTerminated = false := by
      by_contra hterm
      have hidle := bitmaskLoop_idle hloop (.inl (by simpa using hterm))
      omega
    rw [hterm, ← hgoing, ← hmatched]
    rfl
  next hzero => rw [(bitmaskLoop_idle hloop (.inr (by omega))).1]

theorem acceptToken_of_sampled (hsampled : Sampled M specTokenIds rows (generated.map (↑)))
    (hkept : kept <+: generated.map (↑)) (hends : EndsLast M structured.grammar kept)
    {l t} (hl : l ++ [t] <+: kept) :
    M.acceptToken (structured.grammar.matched ++ l) t = true := by
  obtain ⟨loop, hloop, rfl, -⟩ := grammarBitmask_loop hreasoner hmask
  have hlt := hl.length_le
  rw [length_append, length_singleton] at hlt
  obtain ⟨hgoing, hnext⟩ := hends (ne_nil_of_length_pos (by omega))
  have hpre : l <+: kept := (prefix_append l [t]).trans hl
  refine hsampled.allowed l t _ (hl.trans hkept) ?_
  have hdraft : l <+: specTokenIds := by
    refine List.IsPrefix.trans ?_ hsampled.accepted
    obtain ⟨rest, hrest⟩ := hl.trans hkept
    rw [← hrest, append_assoc, dropLast_append_of_ne_nil (by simp)]
    exact prefix_append _ _
  obtain ⟨t', hrow⟩ := exists_concat_prefix (hdraft.trans (prefix_append _ [-1])) (by
    have := hdraft.length_le
    simp
    omega)
  refine bitmaskLoop_row hloop hrow (fun hpad ↦ ?_) hgoing fun l' _ hl' ↦ ?_
  · obtain ⟨n, -, hn⟩ := mem_map.mp ((hpre.trans hkept).subset hpad)
    omega
  · have := hl'.length_le
    exact hnext l' (hl'.trans hpre) (by omega)

end

/-- Without a reasoning parser the grammar accepts the new tokens of a step, each allowed by its
row, if and only if none comes after its end. -/
theorem new_tokens_accepted_iff (hreasoner : m.reasoner = none)
    (hend : ∀ matched t, M.isTerminated matched = true → M.acceptToken matched t = false)
    (hmask : m.grammarBitmask M promptTokenIds s.specTokenIds structured = some (structured', rows))
    (hsampled : Sampled M s.specTokenIds rows (generated.map (↑)))
    (happ : appendOutput H cfg s generated r = .ok out) :
    ((m.advance M out.1 out.2.1 structured').1 = true ↔
        EndsLast M structured.grammar (out.2.1.map (↑))) ∧
      (EndsLast M structured.grammar (out.2.1.map (↑)) →
        r.applyOutput H cfg s generated (m.advance M out.1 out.2.1 structured').1 = .ok out) := by
  have hiff : (m.advance M out.1 out.2.1 structured').1 = true ↔
      EndsLast M structured.grammar (out.2.1.map (↑)) := by
    have hmatched := (StructuredOutputManager.grammarBitmask_matched hmask).1
    unfold StructuredOutputManager.advance StructuredOutputManager.shouldAdvance
    rw [hreasoner]
    split
    next hnil => simp [EndsLast, hnil]
    next hne =>
      dsimp only
      rw [if_pos rfl]
      unfold XgrammarGrammar.acceptTokens
      refine ⟨fun haccept _ ↦ ?_, fun hends ↦ ?_⟩
      · split at haccept
        · cases haccept
        next hgoing =>
          rw [XgrammarGrammar.acceptLoop_iff, hmatched] at haccept
          have hnext : ∀ l, l <+: out.2.1.map (↑) → l.length < (out.2.1.map ((↑) : ℕ → ℤ)).length →
              M.isTerminated (structured.grammar.matched ++ l) = false := by
            intro l hl hlt
            obtain ⟨t, ht⟩ := exists_concat_prefix hl hlt
            by_contra hterm
            have hreject := hend _ t (by simpa using hterm)
            rw [haccept l t ht] at hreject
            cases hreject
          have hstart := hnext [] nil_prefix (by simpa using length_pos_iff.mpr hne)
          rw [append_nil] at hstart
          refine ⟨?_, hnext⟩
          rw [← grammarBitmask_isTerminated hreasoner hmask hstart]
          simpa using hgoing
      · have hkept : out.2.1 <+: generated :=
          (appendOutput_spec happ).1.least _ prefix_rfl (.inl rfl)
        obtain ⟨hgoing, hnext⟩ := hends (by simpa using hne)
        have hstart := hnext [] nil_prefix (by simpa using length_pos_iff.mpr hne)
        rw [append_nil] at hstart
        rw [if_neg (by rw [grammarBitmask_isTerminated hreasoner hmask hstart, hgoing]; simp),
          XgrammarGrammar.acceptLoop_iff, hmatched]
        intro l t hl
        exact acceptToken_of_sampled hreasoner hmask hsampled (hkept.map _) hends hl
  refine ⟨hiff, fun hends ↦ ?_⟩
  rw [applyOutput_eq _ happ, hiff.mpr hends, if_neg (by simp)]

end

section

/-- A grammar that ends with token 2. -/
def endsWithTwo : GrammarMatcher where
  acceptToken matched _ := 2 ∉ matched
  isTerminated matched := 2 ∈ matched

theorem endsWithTwo_end (matched) (t) (h : endsWithTwo.isTerminated matched = true) :
    endsWithTwo.acceptToken matched t = false := by
  simpa [endsWithTwo] using h

def plainManager : StructuredOutputManager where
  reasoner := none

theorem sampled_of_notMem {drafts generated rows}
    (hdrafts : generated.dropLast <+: drafts) (hrows : ∀ matched, some matched ∈ rows → 2 ∉ matched) :
    Sampled endsWithTwo drafts rows generated := by
  refine ⟨hdrafts, fun l t matched _ hrow ↦ ?_⟩
  simpa [endsWithTwo] using hrows matched (mem_of_getElem? hrow)

def ignoresEos : List StructuredOp :=
  [.scheduler (.scheduleWaiting ⟨100, none⟩ 0), .grammarBitmask, .output [2],
    .scheduler (.scheduleRunning ⟨100, none⟩), .grammarBitmask]

/-- The end of the grammar does not stop a request that ignores the end of the sequence: the next
mask is full, and its token is rejected. -/
theorem token_after_end_rejected : thinkingRequest.Fresh ∧
    Sampled endsWithTwo [] [some []] [2] ∧ Sampled endsWithTwo [] [none] [5] ∧
    plainManager.grammarBitmask endsWithTwo [1, 8] [] {} = some ({}, [some []]) ∧
    ∃ st st', StructuredOp.runAll tokenHashing draftConfig plainManager endsWithTwo ignoresEos
        { request := thinkingRequest } = .ok st ∧
      st.structured.grammar.isTerminated = true ∧
      plainManager.grammarBitmask endsWithTwo [1, 8] [] st.structured = some (st.structured, [none]) ∧
      (StructuredOp.output [5]).run tokenHashing draftConfig plainManager endsWithTwo st = .ok st' ∧
      st'.request.status = .finishedError := by
  refine ⟨thinkingRequest_fresh, sampled_of_notMem nil_prefix (by simp),
    sampled_of_notMem nil_prefix (by simp), rfl, _, _, rfl, rfl, rfl, rfl, rfl⟩

def draftedStep : Step where
  numScheduledTokens := 2
  specTokenIds := [4]

theorem new_tokens_accepted_of_end : ∃ out,
    appendOutput tokenHashing draftConfig draftedStep [4, 2] thinkingRequest = .ok out ∧
    out.2.1 = [4, 2] ∧ EndsLast endsWithTwo {} (out.2.1.map (↑)) := by
  have hmask : plainManager.grammarBitmask endsWithTwo [1, 8] draftedStep.specTokenIds {} =
      some ({}, [some [], some [4]]) := rfl
  have hsampled : Sampled endsWithTwo draftedStep.specTokenIds [some [], some [4]]
      ([4, 2].map ((↑) : ℕ → ℤ)) := sampled_of_notMem ⟨[], rfl⟩ (by simp)
  have happ : appendOutput tokenHashing draftConfig draftedStep [4, 2] thinkingRequest = .ok _ := rfl
  have h := new_tokens_accepted_iff rfl endsWithTwo_end hmask hsampled happ
  exact ⟨_, happ, rfl, h.1.mp rfl⟩

end

end VllmEngine.Structured
