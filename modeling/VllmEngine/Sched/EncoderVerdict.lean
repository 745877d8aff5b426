import VllmEngine.Sched.EncoderReads

namespace VllmEngine.Sched

open VllmEngine.Core Lib EncoderCacheManager List EncoderCache Runner EncoderState

namespace EncoderPlan

def Covers (plan : EncoderPlan) (h : String) : Prop :=
  h ∈ plan.mmHashesToSchedule ∨ ∃ m, plan.cache = .decoderOnly m ∧ m.InUse h

/-- A plan in the making, for a shared encoder cache: its accounts are right, and every hash is that
of a listed input. -/
structure Sound (size : String → ℕ) (features : List MultiModalFeatureSpec) (plan : EncoderPlan)
    (m : EncoderCacheManager) : Prop where
  cache : plan.cache = .decoderOnly m
  accounts : Accounts size m
  listed : ∀ h ∈ plan.mmHashesToSchedule,
    ∃ i ∈ plan.encoderInputsToSchedule ++ plan.externalLoadEncoderInput,
      ∃ g, features[i]? = some g ∧ g.identifier = h

variable {request : Request} {size : String → ℕ} {c n i : ℕ}
  {f : MultiModalFeatureSpec} {plan plan' : EncoderPlan} {m m' : EncoderCacheManager}

theorem Sound.withCache (h : plan.Sound size request.mmFeatures m) (ha : Accounts size m') :
    Sound size request.mmFeatures { plan with cache := .decoderOnly m' } m' :=
  ⟨rfl, ha, h.listed⟩

theorem Sound.covers_withCache (h : plan.Sound size request.mmFeatures m)
    (huse : ∀ h, m.InUse h → m'.InUse h) (k) (hk : plan.Covers k) :
    Covers { plan with cache := .decoderOnly m' } k := by
  refine hk.imp_right fun ⟨m0, hm0, hk⟩ ↦ ⟨m', rfl, huse k ?_⟩
  rw [h.cache] at hm0
  exact decoderOnly.inj hm0 ▸ hk

theorem accept_outcome (cfg : EncoderConfig) (h : plan.Sound size request.mmFeatures m)
    (hf : request.mmFeatures[i]? = some f) (hn : plan.numNewTokens = n) (hstop : c < f.stop)
    (hstart : f.start ≤ c + n) :
    (accept cfg c i f plan).Sound size request.mmFeatures m ∧
      (accept cfg c i f plan).numNewTokens = n ∧
      (∀ k, plan.Covers k → (accept cfg c i f plan).Covers k) ∧
      ((accept cfg c i f plan).Covers f.identifier ∨ Idle c n f) := by
  unfold accept
  rw [hn]
  by_cases hidle : (embedsIndices c n f).1 = (embedsIndices c n f).2
  · rw [if_pos hidle]
    exact ⟨h, hn, fun _ hk ↦ hk, .inr ((embedsIndices_eq_iff hstop hstart).mp hidle)⟩
  rw [if_neg hidle]
  -- the two branches list the input in one list or the other
  have hlisted : ∀ inputs external : List ℕ, (∀ j ∈ plan.encoderInputsToSchedule, j ∈ inputs) →
      (∀ j ∈ plan.externalLoadEncoderInput, j ∈ external) → i ∈ inputs ++ external →
      ∀ k ∈ plan.mmHashesToSchedule ++ [f.identifier],
        ∃ j ∈ inputs ++ external, ∃ g, request.mmFeatures[j]? = some g ∧ g.identifier = k := by
    intro inputs external hin hex hi k hk
    rcases mem_append.mp hk with hk | hk
    · obtain ⟨j, hj, hg⟩ := h.listed k hk
      refine ⟨j, ?_, hg⟩
      rcases mem_append.mp hj with hj | hj
      · exact mem_append_left _ (hin j hj)
      · exact mem_append_right _ (hex j hj)
    · obtain rfl := mem_singleton.mp hk
      exact ⟨i, hi, f, hf, rfl⟩
  split
  · refine ⟨⟨h.cache, h.accounts, hlisted _ _ (fun _ hj ↦ hj) (fun _ hj ↦ by simp [hj]) (by simp)⟩,
      rfl, fun k hk ↦ hk.imp_left fun hk ↦ by simp [hk], .inl (.inl (by simp))⟩
  · refine ⟨⟨h.cache, h.accounts, hlisted _ _ (fun _ hj ↦ by simp [hj]) (fun _ hj ↦ hj) (by simp)⟩,
      rfl, fun k hk ↦ hk.imp_left fun hk ↦ by simp [hk], .inl (.inl (by simp))⟩

/-- What a turn of the loop does: it goes on past an input that is passed, covered or idle, and ends
before one that cannot be scheduled. -/
structure Outcome (cfg : EncoderConfig) (c n : ℕ) (f : MultiModalFeatureSpec)
    (plan plan' : EncoderPlan) (goes : Bool) : Prop where
  keeps : ∀ k, plan.Covers k → plan'.Covers k
  onward : goes = true → plan'.numNewTokens = n ∧
    (f.stop ≤ c ∨ plan'.Covers f.identifier ∨ Idle c n f ∧ ¬ RollsBack cfg c n f)
  stops : goes = false → 0 < plan'.numNewTokens → (f.start : ℤ) = c + 1 + plan'.numNewTokens

section

variable (cfg : EncoderConfig) (h : plan.Sound size request.mmFeatures m)
  (hf : request.mmFeatures[i]? = some f) (hn : plan.numNewTokens = n)

include cfg h hf hn

theorem schedule_outcome (hstop : c < f.stop) (hstart : f.start ≤ c + n) :
    ∃ plan' goes m', schedule cfg request c 1 i f plan = .ok (plan', goes) ∧
      plan'.Sound size request.mmFeatures m' ∧ Outcome cfg c n f plan plan' goes := by
  unfold schedule
  by_cases hback : RollsBack cfg c plan.numNewTokens f
  · rw [if_pos hback]
    refine ⟨_, false, m, rfl, ⟨h.cache, h.accounts, h.listed⟩, fun _ hk ↦ hk, nofun,
      fun _ hpos ↦ ?_⟩
    dsimp only at hpos ⊢
    omega
  rw [if_neg hback]
  obtain ⟨m', b, hm', ha', -, huse, -⟩ :=
    makeRoom_spec h.accounts f plan.encoderComputeBudget plan.numEmbedsToSchedule
  have hsound := h.withCache ha'
  have hcovers := h.covers_withCache huse
  have hcan : plan.cache.canAllocate request i plan.encoderComputeBudget
      plan.numEmbedsToSchedule = .ok (.decoderOnly m', b) := by
    rw [h.cache, EncoderCache.canAllocate, canAllocate_eq hf, hm']
    rfl
  rw [hcan]
  cases b with
  | true =>
    obtain ⟨hs, hnew, hkeep, hout⟩ := accept_outcome cfg hsound hf hn hstop hstart
    exact ⟨_, true, m', rfl, hs, fun k hk ↦ hkeep k (hcovers k hk),
      fun _ ↦ ⟨hnew, .inr (hout.imp_right fun hidle ↦ ⟨hidle, hn ▸ hback⟩)⟩, nofun⟩
  | false =>
    refine ⟨_, false, m', rfl, ⟨rfl, ha', h.listed⟩, hcovers, nofun, fun _ hpos ↦ ?_⟩
    dsimp only at hpos ⊢
    split at hpos
    next hlt =>
      rw [if_pos hlt]
      omega
    · omega

theorem visit_outcome (hstart : f.start ≤ c + n) :
    ∃ plan' goes m', visit cfg request c 1 i f plan = .ok (plan', goes) ∧
      plan'.Sound size request.mmFeatures m' ∧ Outcome cfg c n f plan plan' goes := by
  have hdec : plan.cache.isEncoderDecoder = false := by rw [h.cache]; rfl
  unfold visit
  rw [hdec, if_neg (by simp)]
  by_cases hstop : f.stop ≤ c
  · rw [if_pos hstop]
    exact ⟨plan, true, m, rfl, h, fun _ hk ↦ hk, fun _ ↦ ⟨hn, .inl hstop⟩, nofun⟩
  rw [if_neg hstop, if_neg Bool.false_ne_true]
  by_cases hmem : f.identifier ∈ plan.mmHashesToSchedule
  · rw [if_pos hmem]
    exact ⟨plan, true, m, rfl, h, fun _ hk ↦ hk, fun _ ↦ ⟨hn, .inr (.inl (.inl hmem))⟩, nofun⟩
  rw [if_neg hmem]
  obtain ⟨m', hm', ha', -, huse, hhit⟩ := useCached_spec h.accounts request.requestId f
  have hsound := h.withCache ha'
  have hcovers := h.covers_withCache huse
  have hcheck : plan.cache.checkAndUpdateCache request i =
      .ok (.decoderOnly m', (m.cached.get? f.identifier).isSome) := by
    rw [h.cache, EncoderCache.checkAndUpdateCache, checkAndUpdateCache_eq hf, hm']
    rfl
  rw [hcheck]
  cases hb : (m.cached.get? f.identifier).isSome with
  | true =>
    exact ⟨_, true, m', rfl, hsound, hcovers,
      fun _ ↦ ⟨hn, .inr (.inl (.inr ⟨m', rfl, hhit hb⟩))⟩, nofun⟩
  | false =>
    obtain ⟨plan', goes, m'', hplan', hsound', hout⟩ := schedule_outcome cfg hsound hf
      hn (not_le.mp hstop) hstart
    exact ⟨plan', goes, m'', hplan', hsound', fun k hk ↦ hout.keeps k (hcovers k hk), hout.onward,
      hout.stops⟩

end

structure LoopOutcome (cfg : EncoderConfig) (c n : ℕ) (fs : List MultiModalFeatureSpec)
    (plan plan' : EncoderPlan) : Prop where
  keeps : ∀ k, plan.Covers k → plan'.Covers k
  reached : ∃ reached rest, fs = reached ++ rest ∧ (∀ g ∈ reached, g.start ≤ c + n ∧
      (g.stop ≤ c ∨ plan'.Covers g.identifier ∨ Idle c n g ∧ ¬ RollsBack cfg c n g)) ∧
    ((plan'.numNewTokens = n ∧ ∀ g ∈ rest.head?, c + n < g.start) ∨
      ∃ g ∈ rest.head?, g.start ≤ c + n ∧
        (0 < plan'.numNewTokens → (g.start : ℤ) = c + 1 + plan'.numNewTokens))

theorem loop_outcome (cfg : EncoderConfig) {fs} (h : plan.Sound size request.mmFeatures m)
    (hfs : request.mmFeatures.drop i = fs) (hn : plan.numNewTokens = n) :
    ∃ plan' m', loop cfg request c 1 i fs plan = .ok plan' ∧
      plan'.Sound size request.mmFeatures m' ∧ LoopOutcome cfg c n fs plan plan' := by
  induction fs generalizing i plan m with
  | nil =>
    exact ⟨plan, m, rfl, h, fun _ hk ↦ hk, [], [], rfl, nofun, .inl ⟨hn, nofun⟩⟩
  | cons f fs ih =>
    unfold loop
    rw [hn]
    by_cases hstart : (f.start : ℤ) ≥ c + n + (1 : ℕ)
    · rw [if_pos hstart]
      refine ⟨plan, m, rfl, h, fun _ hk ↦ hk, [], f :: fs, rfl, nofun, .inl ⟨hn, fun g hg ↦ ?_⟩⟩
      cases hg
      omega
    rw [if_neg hstart]
    have hle : f.start ≤ c + n := by omega
    obtain ⟨hf, hfs⟩ := of_drop_eq_cons hfs
    obtain ⟨plan1, goes, m1, hvisit, hsound1, hout⟩ := visit_outcome cfg h hf hn hle
    rw [hvisit]
    cases goes with
    | false =>
      exact ⟨plan1, m1, rfl, hsound1, hout.keeps, [], f :: fs, rfl, nofun,
        .inr ⟨f, rfl, hle, hout.stops rfl⟩⟩
    | true =>
      obtain ⟨hn1, hpast⟩ := hout.onward rfl
      obtain ⟨plan', m', hloop, hsound', hkeeps, reached, rest, rfl, hreached, hend⟩ :=
        ih hsound1 hfs hn1
      refine ⟨plan', m', hloop, hsound', fun k hk ↦ hkeeps k (hout.keeps k hk), f :: reached, rest,
        rfl, fun g hg ↦ ?_, hend⟩
      rcases mem_cons.mp hg with rfl | hg
      · exact ⟨hle, hpast.imp_right (.imp_left (hkeeps _))⟩
      · exact hreached g hg

/-- A state of the cache in which every input but `h0` is in use, and there is room for `h0`. -/
structure Spares (size : String → ℕ) (features : List MultiModalFeatureSpec) (h0 : String)
    (m : EncoderCacheManager) : Prop where
  accounts : Accounts size m
  absent : m.cached.get? h0 = none
  others : ∀ g ∈ features, g.identifier ≠ h0 → m.InUse g.identifier
  room : (size h0 : ℤ) ≤ m.numFreeSlots

variable {features : List MultiModalFeatureSpec} {h0 : String}

theorem Spares.makesRoom (h : Spares size features h0 m) (ha : Accounts size m')
    (hroom : MakesRoom m m') (huse : ∀ h, m.InUse h → m'.InUse h) : Spares size features h0 m' :=
  ⟨ha, hroom.absent _ h.absent, fun g hg hne ↦ huse _ (h.others g hg hne),
    h.room.trans hroom.numFreeSlots⟩

structure Blank (size : String → ℕ) (h0 : String) (n : ℕ) (plan : EncoderPlan) : Prop where
  tokens : plan.numNewTokens = n
  noHashes : plan.mmHashesToSchedule = []
  noEmbeds : plan.numEmbedsToSchedule = 0
  budget : (size h0 : ℤ) ≤ plan.encoderComputeBudget

theorem Blank.withCache (h : plan.Blank size h0 n) (cache : EncoderCache) :
    Blank size h0 n { plan with cache } := ⟨h.tokens, h.noHashes, h.noEmbeds, h.budget⟩

section

variable (cfg : EncoderConfig) (h : Spares size request.mmFeatures h0 m)
  (hplan : plan.Blank size h0 n) (hcache : plan.cache = .decoderOnly m)
  (hsized : request.Sized size)

include cfg h hplan hcache hsized

theorem schedule_spared (hf : request.mmFeatures[i]? = some f) (hid : f.identifier = h0)
    (hstop : c < f.stop) (hstart : f.start ≤ c + n) (hidle : Idle c n f)
    (hback : ¬ RollsBack cfg c n f) :
    ∃ m', schedule cfg request c 1 i f plan = .ok ({ plan with cache := .decoderOnly m' }, true) ∧
      Spares size request.mmFeatures h0 m' := by
  have hsize : f.numEmbeds = size h0 := hid ▸ hsized f (mem_of_getElem? hf)
  obtain ⟨m', b, hm', ha', hroom, huse, -, hfull⟩ :=
    makeRoom_spec h.accounts f plan.encoderComputeBudget plan.numEmbedsToSchedule
  obtain rfl : b = true := by
    by_contra hb
    have hbudget := hplan.budget
    have hfree := h.room
    have hle := h.accounts.freeable_le
    have hnone := hplan.noEmbeds
    rcases hfull (Bool.eq_false_iff.mpr hb) with hlt | hlt <;> omega
  have hidx := (embedsIndices_eq_iff hstop hstart).mpr hidle
  rw [← hplan.tokens] at hback hidx
  refine ⟨m', ?_, h.makesRoom ha' hroom huse⟩
  unfold schedule
  rw [if_neg hback, hcache, EncoderCache.canAllocate, canAllocate_eq hf, hm']
  change Except.ok (accept cfg c i f _, true) = _
  unfold accept
  rw [if_pos hidx]

theorem visit_spared (hf : request.mmFeatures[i]? = some f) (hstart : f.start ≤ c + n)
    (hspared : f.identifier = h0 → f.stop ≤ c ∨ Idle c n f ∧ ¬ RollsBack cfg c n f) :
    ∃ m', visit cfg request c 1 i f plan = .ok ({ plan with cache := .decoderOnly m' }, true) ∧
      Spares size request.mmFeatures h0 m' := by
  have hdec : plan.cache.isEncoderDecoder = false := by rw [hcache]; rfl
  unfold visit
  rw [hdec, if_neg (by simp)]
  by_cases hstop : f.stop ≤ c
  · rw [if_pos hstop]
    exact ⟨m, by rw [← hcache]; rfl, h⟩
  rw [if_neg hstop, if_neg Bool.false_ne_true, if_neg (by rw [hplan.noHashes]; exact not_mem_nil)]
  obtain ⟨m', hm', ha', hroom, huse, -⟩ := useCached_spec h.accounts request.requestId f
  have hm := h.makesRoom ha' hroom huse
  have hcheck : plan.cache.checkAndUpdateCache request i =
      .ok (.decoderOnly m', (m.cached.get? f.identifier).isSome) := by
    rw [hcache, EncoderCache.checkAndUpdateCache, checkAndUpdateCache_eq hf, hm']
    rfl
  rw [hcheck]
  by_cases hid : f.identifier = h0
  · obtain ⟨hidle, hback⟩ := (hspared hid).resolve_left hstop
    rw [hid, h.absent]
    exact schedule_spared cfg hm (hplan.withCache (.decoderOnly m')) rfl hsized hf hid
      (not_le.mp hstop) hstart hidle hback
  · obtain ⟨refs, hrefs, -⟩ := h.others f (mem_of_getElem? hf) hid
    rw [hrefs]
    exact ⟨m', rfl, hm⟩

theorem loop_spared {fs} (hfs : request.mmFeatures.drop i = fs)
    (hspared : ∀ g ∈ fs.takeWhile (fun g ↦ decide (g.start ≤ c + n)), g.identifier = h0 →
      g.stop ≤ c ∨ Idle c n g ∧ ¬ RollsBack cfg c n g) :
    ∃ m', loop cfg request c 1 i fs plan = .ok { plan with cache := .decoderOnly m' } ∧
      m'.cached.get? h0 = none := by
  induction fs generalizing i plan m with
  | nil => exact ⟨m, by rw [← hcache]; rfl, h.absent⟩
  | cons f fs ih =>
    have htokens := hplan.tokens
    unfold loop
    by_cases hstart : (f.start : ℤ) ≥ c + plan.numNewTokens + (1 : ℕ)
    · rw [if_pos hstart]
      exact ⟨m, by rw [← hcache]; rfl, h.absent⟩
    have hle : f.start ≤ c + n := by omega
    rw [takeWhile_cons_of_pos (by simpa using hle)] at hspared
    obtain ⟨hf, hfs⟩ := of_drop_eq_cons hfs
    obtain ⟨m1, hvisit, hm1⟩ := visit_spared cfg h hplan hcache hsized hf hle
      (hspared f (mem_cons_self ..))
    rw [if_neg hstart, hvisit]
    exact ih hm1 (hplan.withCache (.decoderOnly m1)) rfl hfs
      fun g hg ↦ hspared g (mem_cons_of_mem _ hg)

end

end EncoderPlan

open EncoderPlan

variable {size : String → ℕ} {f : MultiModalFeatureSpec} {m : EncoderCacheManager}
  {cfg : EncoderConfig}

theorem encoderRun_allocated {cacheSize} (h : EncoderRun size cacheSize { manager := m })
    (hsize : f.numEmbeds = size f.identifier) (hnew : m.cached.get? f.identifier = none)
    (hroom : (f.numEmbeds) ≤ m.numFreeSlots) :
    ∃ m', EncoderRun size cacheSize { manager := m' } ∧ m'.InUse f.identifier ∧
      m'.numFreeSlots = m.numFreeSlots - f.numEmbeds ∧
      ∀ h, h ≠ f.identifier → m'.cached.get? h = m.cached.get? h := by
  let request : Request := { requestId := "other", allTokenIds := [], mmFeatures := [f] }
  have hsized : request.Sized size := by simpa [Request.Sized, request] using hsize
  have hroom' : m.makeRoom f f.numEmbeds 0 = .ok (m, true) := by
    unfold makeRoom
    rw [if_neg (lt_irrefl _)]
    rw [if_pos (by simpa using hroom)]
  obtain ⟨m', hm', -, -, hslots, huse, hsame⟩ :=
    takeSlots_spec h.sound.accounts "other" hsize hnew hroom
  have hcan : EncoderRun size cacheSize { manager := m, pending := [("other", f)] } := by
    refine .step (.canAllocate request 0 f.numEmbeds true) h ⟨hsized, nofun, f, rfl, hnew, nofun⟩ ?_
    have hnone : pendingEmbeds { manager := m } = 0 := rfl
    unfold EncoderOp.run
    dsimp only
    rw [canAllocate_eq rfl, hnone, hroom']
    rfl
  have hsettle : settle f.identifier [("other", f)] = [] := by simp [settle]
  refine ⟨m', .step (.allocate request 0) hcan ⟨f, rfl, mem_singleton_self _⟩ ?_, huse, hslots,
    hsame⟩
  unfold EncoderOp.run
  dsimp only
  rw [allocate_eq rfl, hm']
  exact congrArg (fun pending ↦ Except.ok ({ manager := m', pending } : EncoderState)) hsettle

theorem encoderRun_used {cacheSize} (h : EncoderRun size cacheSize { manager := m })
    (hsize : f.numEmbeds = size f.identifier) (hold : (m.cached.get? f.identifier).isSome) :
    ∃ m', EncoderRun size cacheSize { manager := m' } ∧ m'.InUse f.identifier ∧ MakesRoom m m' ∧
      ∀ h, m.InUse h → m'.InUse h := by
  let request : Request := { requestId := "other", allTokenIds := [], mmFeatures := [f] }
  have hsized : request.Sized size := by simpa [Request.Sized, request] using hsize
  obtain ⟨m', hm', -, hroom, huse, hhit⟩ := useCached_spec h.sound.accounts "other" f
  refine ⟨m', .step (.checkAndUpdateCache request 0) h ⟨hsized, Nat.one_pos⟩ ?_, hhit hold, hroom,
    huse⟩
  unfold EncoderOp.run
  dsimp only
  rw [checkAndUpdateCache_eq rfl, hm']
  rfl

theorem exists_encoderRun_sparing (h0) (cacheSize)
    {fs : List MultiModalFeatureSpec} (hsized : ∀ f ∈ fs, f.numEmbeds = size f.identifier)
    (hroom : (fs.map (·.numEmbeds)).sum ≤ cacheSize) :
    ∃ m, EncoderRun size cacheSize { manager := m } ∧ m.cached.get? h0 = none ∧
      (∀ g ∈ fs, g.identifier ≠ h0 → m.InUse g.identifier) ∧
      (cacheSize : ℤ) - (fs.map (·.numEmbeds)).sum ≤ m.numFreeSlots := by
  induction fs with
  | nil => exact ⟨_, .init, rfl, nofun, by simp [EncoderCacheManager.init]⟩
  | cons f fs ih =>
    rw [map_cons, sum_cons] at hroom ⊢
    obtain ⟨m, hrun, habsent, hothers, hfree⟩ := ih (fun g hg ↦ hsized g (by simp [hg])) (by omega)
    have hf := hsized f (by simp)
    by_cases hid : f.identifier = h0
    · refine ⟨m, hrun, habsent, fun g hg hne ↦ ?_, by omega⟩
      rcases mem_cons.mp hg with rfl | hg
      · exact absurd hid hne
      · exact hothers g hg hne
    · by_cases hnew : m.cached.get? f.identifier = none
      · obtain ⟨m', hrun', huse, hslots, hsame⟩ := encoderRun_allocated hrun hf hnew (by omega)
        refine ⟨m', hrun', by rw [hsame _ (Ne.symm hid), habsent], fun g hg hne ↦ ?_, by omega⟩
        by_cases heq : g.identifier = f.identifier
        · rwa [heq]
        rcases mem_cons.mp hg with rfl | hg
        · exact absurd rfl heq
        · obtain ⟨refs, hrefs, hne⟩ := hothers g hg hne
          exact ⟨refs, by rw [hsame _ heq, hrefs], hne⟩
      · obtain ⟨m', hrun', huse, hmakes, hkeeps⟩ :=
          encoderRun_used hrun hf (Option.isSome_iff_ne_none.mpr hnew)
        have := hmakes.numFreeSlots
        refine ⟨m', hrun', hmakes.absent _ habsent, fun g hg hne ↦ ?_, by omega⟩
        rcases mem_cons.mp hg with rfl | hg
        · exact huse
        · exact hkeeps _ (hothers g hg hne)

/-- The encoder output of a feature is there when the step runs: one with its hash is to be
scheduled or loaded, or cached. -/
def Covered (features : List MultiModalFeatureSpec) (plan : EncoderPlan) (f : MultiModalFeatureSpec) :
    Prop :=
  (∃ i ∈ plan.encoderInputsToSchedule ++ plan.externalLoadEncoderInput,
    ∃ g, features[i]? = some g ∧ g.identifier = f.identifier) ∨
  ∃ m, plan.cache = .decoderOnly m ∧ (m.cached.get? f.identifier).isSome

def inRange (c n : ℕ) (features : List MultiModalFeatureSpec) : List MultiModalFeatureSpec :=
  features.takeWhile fun g ↦ decide (g.start ≤ c + n)

/-- The feature has an embedding just after the range, and none with its hash is scheduled for the
range or makes the step end earlier. -/
def Exposed (cfg : EncoderConfig) (c n : ℕ) (features : List MultiModalFeatureSpec)
    (f : MultiModalFeatureSpec) : Prop :=
  f ∈ inRange c n features ∧ f.EmbedAt (c + n) ∧
    ∀ g ∈ inRange c n features, g.identifier = f.identifier →
      g.stop ≤ c ∨ Idle c n g ∧ ¬ RollsBack cfg c n g

theorem mem_of_mem_takeWhile_append {α : Type} {p : α → Bool} {l rest : List α} {a : α}
    (hrest : ∀ b ∈ rest.head?, p b = false) (ha : a ∈ (l ++ rest).takeWhile p) : a ∈ l := by
  induction l with
  | nil =>
    cases rest with
    | nil => cases ha
    | cons b rest =>
      rw [nil_append, takeWhile_cons_of_neg (by simp [hrest b rfl])] at ha
      cases ha
  | cons b l ih =>
    by_cases hb : p b = true
    · rw [cons_append, takeWhile_cons_of_pos hb] at ha
      rcases mem_cons.mp ha with rfl | ha
      · exact mem_cons_self ..
      · exact mem_cons_of_mem _ (ih ha)
    · rw [cons_append, takeWhile_cons_of_neg hb] at ha
      cases ha

theorem mem_takeWhile_append {α : Type} {p : α → Bool} {l rest : List α} {a : α}
    (hl : ∀ b ∈ l, p b = true) (ha : a ∈ l) : a ∈ (l ++ rest).takeWhile p := by
  rw [takeWhile_append_of_pos hl]
  exact mem_append_left _ ha

theorem covered_of_not_exposed {request : Request} {c n shift : ℕ} {plan plan'}
    (hsound : plan'.Sound size request.mmFeatures m)
    (hout : LoopOutcome cfg c n request.mmFeatures plan plan') (hpos : 0 < plan'.numNewTokens)
    (hshift : shift ≤ 1)
    (hf : f ∈ readFeatures (c + shift) plan'.numNewTokens.toNat request.mmFeatures)
    (hnot : ∀ f, ¬ Exposed cfg c n request.mmFeatures f) : Covered request.mmFeatures plan' f := by
  by_contra huncovered
  have hcovers : ∀ g : MultiModalFeatureSpec, g.identifier = f.identifier →
      ¬ plan'.Covers g.identifier := by
    intro g hid hcovers
    apply huncovered
    rcases hcovers with hmem | ⟨m', hm', refs, hrefs, -⟩
    · obtain ⟨i, hi, g', hg', hid'⟩ := hsound.listed _ hmem
      exact .inl ⟨i, hi, g', hg', hid'.trans hid⟩
    · exact .inr ⟨m', hm', by rw [← hid, hrefs]; rfl⟩
  obtain ⟨hmem, hstop, hidle⟩ := mem_readFeatures.mp hf
  obtain ⟨reached, rest, hfs, hreached, hend⟩ := hout.reached
  rw [hfs] at hmem
  rcases hend with ⟨htokens, hrest⟩ | ⟨g, hg, hgn, hgstart⟩
  · have hinRange : ∀ g ∈ inRange c n request.mmFeatures, g ∈ reached := by
      intro g hg
      rw [inRange, hfs] at hg
      exact mem_of_mem_takeWhile_append (fun b hb ↦ by simpa using hrest b hb) hg
    have hfreached := mem_of_mem_takeWhile_append
      (fun b hb ↦ by have := hrest b hb; simp only [decide_eq_false_iff_not]; omega) hmem
    obtain ⟨-, hcase⟩ := hreached f hfreached
    obtain ⟨hfidle, -⟩ := (hcase.resolve_left (by omega)).resolve_left (hcovers f rfl)
    -- only the last position of the shifted range is new
    obtain ⟨p, hp⟩ := not_forall.mp hidle
    simp only [Classical.not_imp, not_not] at hp
    obtain ⟨hcp, hpn, hembed⟩ := hp
    have hge : ¬ p < c + n := fun hlt ↦ hfidle p (by omega) hlt hembed
    have hlast : p = c + n := by omega
    refine hnot f ⟨?_, hlast ▸ hembed, fun g hg hid ↦ ?_⟩
    · rw [inRange, hfs]
      exact mem_takeWhile_append (fun b hb ↦ decide_eq_true (hreached b hb).1) hfreached
    · exact ((hreached g (hinRange g hg)).2).imp_right fun h ↦ h.resolve_left (hcovers g hid)
  · have hfreached := mem_of_mem_takeWhile_append (fun b hb ↦ by
      obtain rfl := Option.some.inj (hg.symm.trans hb)
      simp only [decide_eq_false_iff_not]
      omega) hmem
    obtain ⟨-, hcase⟩ := hreached f hfreached
    obtain ⟨hfidle, -⟩ := (hcase.resolve_left (by omega)).resolve_left (hcovers f rfl)
    exact hidle fun p hcp hpn ↦ hfidle p (by omega) (by omega)

theorem exposed_uncovered {request} {c n} (hsized : request.Sized size) (hn : 0 < n)
    (hf : Exposed cfg c n request.mmFeatures f) :
    ∃ cacheSize m plan, EncoderRun size cacheSize { manager := m } ∧
      tryScheduleEncoderInputs cfg (.decoderOnly m) request c n (size f.identifier) 1 = .ok plan ∧
      plan.numNewTokens = n ∧ f ∈ readFeatures (c + 1) n request.mmFeatures ∧
      ¬ Covered request.mmFeatures plan f := by
  obtain ⟨hmem, hembed, hspared⟩ := hf
  let cacheSize := size f.identifier + (request.mmFeatures.map (·.numEmbeds)).sum
  obtain ⟨m, hrun, habsent, hothers, hfree⟩ :=
    exists_encoderRun_sparing f.identifier cacheSize hsized (Nat.le_add_left _ _)
  have hspares : Spares size request.mmFeatures f.identifier m :=
    ⟨hrun.sound.accounts, habsent, hothers, by omega⟩
  have hblank : Blank size f.identifier n {
      cache := .decoderOnly m, numNewTokens := n, encoderComputeBudget := size f.identifier } :=
    ⟨rfl, rfl, rfl, le_rfl⟩
  obtain ⟨m', hloop, habsent'⟩ := loop_spared cfg hspares hblank rfl hsized (i := 0) rfl hspared
  have hne : request.mmFeatures ≠ [] := fun hnil ↦ by
    rw [inRange, hnil] at hmem
    cases hmem
  refine ⟨cacheSize, m, {
    cache := .decoderOnly m', numNewTokens := n, encoderComputeBudget := size f.identifier }, hrun,
    ?_, rfl, ?_, ?_⟩
  · unfold tryScheduleEncoderInputs
    rw [if_neg (not_or.mpr ⟨by omega, hne⟩)]
    exact hloop
  · refine mem_readFeatures.mpr ⟨?_, by have := hembed.2.1; omega, fun hidle ↦ ?_⟩
    · rw [inRange] at hmem
      simpa only [Nat.lt_add_one_iff, show c + 1 + n = c + n + 1 by omega] using hmem
    · exact hidle (c + n) (by omega) (by omega) hembed
  · rintro (⟨i, hi, -⟩ | ⟨m'', hm'', hsome⟩)
    · cases hi
    · obtain rfl := decoderOnly.inj hm''
      rw [habsent'] at hsome
      cases hsome

/-- With EAGLE, the encoder outputs that the target model and the drafter read are there, for every
encoder cache and budget, exactly if no feature is exposed. The scheduler looks for embeddings in
the range of the target model only. -/
theorem encoder_reads_covered_iff {size : String → ℕ} (cfg : EncoderConfig) (request : Request)
    (hsized : request.Sized size) (numComputedTokens numNewTokens : ℕ) (hn : 0 < numNewTokens) :
    (∀ cacheSize m encoderComputeBudget plan, EncoderRun size cacheSize { manager := m } →
      tryScheduleEncoderInputs cfg (.decoderOnly m) request numComputedTokens numNewTokens
        encoderComputeBudget 1 = .ok plan → 0 < plan.numNewTokens →
      ∀ shift ≤ 1, ∀ f ∈ readFeatures (numComputedTokens + shift) plan.numNewTokens.toNat
        request.mmFeatures, Covered request.mmFeatures plan f) ↔
    ∀ f, ¬ Exposed cfg numComputedTokens numNewTokens request.mmFeatures f := by
  constructor
  · intro hall f hf
    obtain ⟨cacheSize, m, plan, hrun, hplan, htokens, hread, hmiss⟩ := exposed_uncovered hsized hn hf
    refine hmiss (hall cacheSize m _ plan hrun hplan (by omega) 1 le_rfl f ?_)
    rwa [htokens, Int.toNat_natCast]
  · intro hnot cacheSize m budget plan hrun hplan hpos shift hshift f hf
    unfold tryScheduleEncoderInputs at hplan
    split at hplan
    next hempty =>
      have hnil : request.mmFeatures = [] := hempty.resolve_left (by omega)
      rw [hnil] at hf
      cases hf
    · have hstart : Sound size request.mmFeatures {
          cache := .decoderOnly m, numNewTokens, encoderComputeBudget := budget } m :=
        ⟨rfl, hrun.sound.accounts, nofun⟩
      obtain ⟨plan', m', hloop, hsound, hout⟩ := loop_outcome cfg hstart rfl rfl
      obtain rfl := Except.ok.inj (hplan.symm.trans hloop)
      exact covered_of_not_exposed hsound hout hpos hshift hf hnot

def lateImage : Request where
  requestId := "r"
  allTokenIds := replicate 8 0
  mmFeatures := [⟨"image", { offset := 4, length := 4 }⟩]

/-- A step of the four tokens before an image does not schedule it, and the drafter, one token
ahead, reads its first embedding. -/
theorem drafter_misses_next_image : ∃ plan, EncoderRun (fun _ ↦ 4) 16 { manager := .init 16 } ∧
    tryScheduleEncoderInputs {} (.decoderOnly (.init 16)) lateImage 0 4 16 1 = .ok plan ∧
    plan.numNewTokens = 4 ∧
    (∃ f ∈ readFeatures (0 + 1) 4 lateImage.mmFeatures, ¬ Covered lateImage.mmFeatures plan f) ∧
    gatherMmEmbeddings (fun _ ↦ false) (0 + 1) 4 lateImage.mmFeatures =
      .error (.encoderCacheMiss "image") := by
  refine ⟨_, .init, rfl, rfl, ⟨⟨"image", { offset := 4, length := 4 }⟩, by decide, ?_⟩, by decide⟩
  rintro (⟨i, hi, -⟩ | ⟨m, hm, hsome⟩)
  · cases hi
  · obtain rfl := decoderOnly.inj hm
    cases hsome

theorem image_covered_in_full_step : lateImage.Sized (fun _ ↦ 4) ∧ ∃ plan,
    tryScheduleEncoderInputs {} (.decoderOnly (.init 16)) lateImage 0 8 16 1 = .ok plan ∧
    ∀ shift ≤ 1, ∀ f ∈ readFeatures (0 + shift) plan.numNewTokens.toNat lateImage.mmFeatures,
      Covered lateImage.mmFeatures plan f := by
  have hsized : lateImage.Sized fun _ ↦ 4 := by decide
  have hnot : ∀ f, ¬ Exposed {} 0 8 lateImage.mmFeatures f := by
    rintro f ⟨hmem, hembed, -⟩
    obtain rfl : f = ⟨"image", { offset := 4, length := 4 }⟩ := by
      simpa [inRange, lateImage, MultiModalFeatureSpec.start] using hmem
    exact absurd hembed (by decide)
  exact ⟨hsized, _, rfl, (encoder_reads_covered_iff {} lateImage hsized 0 8 (by decide)).mpr hnot
    16 _ 16 _ .init rfl (by decide)⟩

end VllmEngine.Sched
