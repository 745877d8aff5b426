import VllmEngine.Core.TableShapes

namespace VllmEngine.Core

open Lib BlockHash BlockPool List SingleTypeKVCacheManager Except

namespace SingleTypeKVCacheManager

/-- The table of a request in `align` mode: empty, or as long as the tokens and the speculative
blocks require. -/
def Sized (m : SingleTypeKVCacheManager) (s : ℕ) (id : ReqId) : Option ℕ → Prop
  | none => m.table id = [] ∧ id ∉ m.allocatedBlockReqs
  | some t => (m.table id).length = cdiv t m.blockSize + s

variable {m m' : SingleTypeKVCacheManager} {id id' : ReqId} {s : ℕ} {t : Option ℕ}

theorem Sized.other (h : m.Sized s id' t) (ho : OnlyFor id m m') (hid : id' ≠ id) :
    m'.Sized s id' t := by
  cases t with
  | none => exact ⟨(ho.table id' hid).trans h.1, (ho.allocated id' hid).not.mpr h.2⟩
  | some t =>
    simp only [Sized] at h ⊢
    rw [ho.table id' hid, ho.blockSize_eq, h]

theorem Sized.trimmed (h : m.Sized s id t) (ht : Trimmed id m m') : m'.Sized s id t := by
  cases t with
  | none =>
    refine ⟨eq_nil_of_length_eq_zero ?_, ht.kept.not.mpr h.2⟩
    rw [ht.length, h.1, length_nil]
  | some t =>
    simp only [Sized] at h ⊢
    rw [ht.length, ht.blockSize_eq, h]

theorem Sized.same (h : m.Sized s id t) (hr : Retables id (m.table id) m m') : m'.Sized s id t :=
  h.trimmed ⟨hr.toOnlyFor, congrArg length hr.self, hr.kept⟩

theorem Sized.allocated (h : m.Sized s id t) (hid : id ∈ m.allocatedBlockReqs) :
    s ≤ (m.table id).length := by
  cases t with
  | none => exact absurd hid h.2
  | some t =>
    simp only [Sized] at h
    omega

end SingleTypeKVCacheManager

namespace KVCacheManager

open SingleTypeKVCacheManager

variable {k k' k'' : KVCacheManager} {id id' : ReqId} {p p' : BlockPool} {t : Option ℕ}
  {Q : SingleTypeKVCacheManager → SingleTypeKVCacheManager → Prop}
  {ms : List SingleTypeKVCacheManager} {E : ManagerError → BlockPool → Prop}

theorem onEach_invariant {α : Type}
    {f : ℕ → SingleTypeKVCacheManager → ManagerM (SingleTypeKVCacheManager × α)}
    {I : BlockPool → Prop} (i) (hI : I p) (hstep : ∀ j m p, ms[j]? = some m → I p →
      Ensures (f (i + j) m) p (fun out p' ↦ I p' ∧ Q m out.1) E) :
    Ensures (onEach f i ms) p (fun out p' ↦ I p' ∧ List.Forall₂ Q ms out.1) E := by
  induction ms generalizing i p with
  | nil => exact .pure ⟨hI, .nil⟩
  | cons m ms ih =>
    refine .seq (hstep 0 m p rfl hI) fun out p1 hQ ↦ ?_
    refine .seq (ih (i + 1) hQ.1 fun j m' p' hj hI' ↦ ?_) fun rest p2 hQs ↦ ?_
    · have := hstep (j + 1) m' p' hj hI'
      rwa [Nat.add_left_comm, Nat.add_comm j] at this
    · exact .pure ⟨hQs.1, .cons hQ.2 hQs.2⟩

theorem onEach_forall₂ {α : Type}
    {f : ℕ → SingleTypeKVCacheManager → ManagerM (SingleTypeKVCacheManager × α)} (i)
    (hstep : ∀ j m p, ms[j]? = some m → Ensures (f (i + j) m) p (fun out _ ↦ Q m out.1) E) :
    Ensures (onEach f i ms) p (fun out _ ↦ List.Forall₂ Q ms out.1) E :=
  (onEach_invariant i trivial fun j m p hj _ ↦
    (hstep j m p hj).imp fun _ _ hQ ↦ ⟨trivial, hQ⟩).mono
    (fun _ _ ho ↦ ho.2)

structure Each (Q : SingleTypeKVCacheManager → SingleTypeKVCacheManager → Prop)
    (k k' : KVCacheManager) : Prop where
  maxModelLen : k'.maxModelLen = k.maxModelLen
  caching : k'.enableCaching = k.enableCaching
  managers : List.Forall₂ Q k.singleTypeManagers k'.singleTypeManagers

theorem Each.of_managers (h : List.Forall₂ Q k.singleTypeManagers ms) :
    Each Q k { k with singleTypeManagers := ms } := ⟨rfl, rfl, h⟩

theorem Each.length
    (h : Each Q k k') : k'.singleTypeManagers.length = k.singleTypeManagers.length :=
  h.managers.length_eq.symm

variable {m' : SingleTypeKVCacheManager}

theorem Each.source (h : Each Q k k') {i : ℕ} (hm' : k'.singleTypeManagers[i]? = some m') :
    ∃ m, k.singleTypeManagers[i]? = some m ∧ Q m m' := by
  obtain ⟨hi, hget⟩ := List.getElem?_eq_some_iff.mp hm'
  have hi' : i < k.singleTypeManagers.length := h.length ▸ hi
  exact ⟨_, getElem?_eq_getElem hi', hget ▸ h.managers.get hi' hi⟩

theorem Each.mem (h : Each Q k k') (hm' : m' ∈ k'.singleTypeManagers) :
    ∃ m ∈ k.singleTypeManagers, Q m m' := by
  obtain ⟨i, hi⟩ := mem_iff_getElem?.mp hm'
  obtain ⟨m, hm, hQ⟩ := h.source hi
  exact ⟨m, mem_of_getElem? hm, hQ⟩

theorem Each.trans (h : Each Q k k') (h' : Each Q k' k'')
    (hQ : ∀ {m m' m''}, Q m m' → Q m' m'' → Q m m'') : Each Q k k'' := by
  refine ⟨h'.maxModelLen.trans h.maxModelLen, h'.caching.trans h.caching, ?_⟩
  rw [forall₂_iff_get]
  refine ⟨(h'.length.trans h.length).symm, fun i hi hi'' ↦ ?_⟩
  have hi' : i < k'.singleTypeManagers.length := h.length ▸ hi
  exact hQ (h.managers.get hi hi') (h'.managers.get hi' hi'')

theorem Each.refl (hQ : ∀ m, Q m m) (k) : Each Q k k :=
  ⟨rfl, rfl, forall₂_same.mpr fun m _ ↦ hQ m⟩

theorem Each.numTokensMainModel (h : Each Q k k') (a : SlotArgs) (request : Request) :
    a.numTokensMainModel k' request = a.numTokensMainModel k request := by
  simp only [SlotArgs.numTokensMainModel, SlotArgs.totalComputedTokens, h.maxModelLen]

theorem Each.mono {Q'} (h : Each Q k k') (hQ : ∀ m m', Q m m' → Q' m m') : Each Q' k k' :=
  ⟨h.maxModelLen, h.caching, h.managers.imp hQ⟩

def Sized (k : KVCacheManager) (id : ReqId) (t : Option ℕ) : Prop :=
  ∀ m ∈ k.singleTypeManagers, ∀ s, m.kind = .mamba .align s → m.Sized s id t

theorem Sized.other (h : k.Sized id' t) (ho : Each (OnlyFor id) k k') (hid : id' ≠ id) :
    k'.Sized id' t := by
  intro m' hm' s hs
  obtain ⟨m, hm, hQ⟩ := ho.mem hm'
  exact (h m hm s (hQ.kind_eq ▸ hs)).other hQ hid

theorem Sized.trimmed (h : k.Sized id t) (ht : Each (Trimmed id) k k') : k'.Sized id t := by
  intro m' hm' s hs
  obtain ⟨m, hm, hQ⟩ := ht.mem hm'
  exact (h m hm s (hQ.kind_eq ▸ hs)).trimmed hQ

theorem Sized.same (h : k.Sized id t)
    (hr : Each (fun m m' ↦ Retables id (m.table id) m m') k k') : k'.Sized id t := by
  intro m' hm' s hs
  obtain ⟨m, hm, hQ⟩ := hr.mem hm'
  exact (h m hm s (hQ.kind_eq ▸ hs)).same hQ

theorem removeSkippedBlocks_trimmed (id) (n) :
    Spares (k.removeSkippedBlocks id n) p (fun k' _ ↦ Each (Trimmed id) k k') := by
  refine .andThen (onEach_forall₂ 0 fun j m p _ ↦ ?_) fun out p' h ↦ .pure (.of_managers h)
  exact .seq (SingleTypeKVCacheManager.removeSkippedBlocks_trimmed n) fun _ _ h ↦ .pure h

theorem cacheBlocks_retables (H) (request) (n) (id) :
    Spares (k.cacheBlocks H request n) p
      (fun k' _ ↦ Each (fun m m' ↦ Retables id (m.table id) m m') k k') := by
  refine .andThen (onEach_forall₂ 0 fun j m p _ ↦ ?_) fun out p' h ↦ .pure (.of_managers h)
  exact .seq (SingleTypeKVCacheManager.cacheBlocks_retables H request n id) fun _ _ h ↦ .pure h

theorem free_sized (id) :
    Spares (k.free id) p (fun k' _ ↦ Each (OnlyFor id) k k' ∧ k'.Sized id none) := by
  refine .andThen (onEach_forall₂ (Q := fun m m' ↦ OnlyFor id m m' ∧ m'.table id = [] ∧
    id ∉ m'.allocatedBlockReqs) 0 fun j m p _ ↦ ?_) fun out p' h ↦ .pure ?_
  · exact .seq (free_onlyFor id) fun _ _ h ↦ .pure h
  have heach := Each.of_managers h
  refine ⟨heach.mono fun _ _ h ↦ h.1, fun m' hm' s _ ↦ ?_⟩
  obtain ⟨m, _, hQ⟩ := heach.mem hm'
  exact hQ.2

theorem newStepStarts_retables (id) :
    Each (fun m m' ↦ Retables id (m.table id) m m') k k.newStepStarts :=
  .of_managers (forall₂_map_right_iff.mpr
    (forall₂_same.mpr fun _ _ ↦ SingleTypeKVCacheManager.newStepStarts_retables id))

/-- What keeps the tables of `align` mode short enough for a call: a request with blocks reaches the
block that it reached before, and one without gets no more hits than blocks. -/
def Room (k : KVCacheManager) (request : Request) (a : SlotArgs) : Option ℕ → Prop
  | none => a.numLocalComputedTokens request ≤ k.maxModelLen ∧
      ∀ (i : ℕ) m l s, k.singleTypeManagers[i]? = some m → (a.hits k)[i]? = some l →
        m.kind = .mamba .align s → l.length ≤ cdiv (a.numTokensMainModel k request) m.blockSize
  | some t => a.newComputedBlocks = none ∧
      ∀ m ∈ k.singleTypeManagers, ∀ s, m.kind = .mamba .align s →
        cdiv t m.blockSize ≤ cdiv (a.numTokensMainModel k request) m.blockSize

variable {request : Request} {a : SlotArgs}

theorem Room.congr
    (h : Room k request a t) (he : Each Q k k') (hQ : ∀ m m', Q m m' → m'.kvCacheSpec = m.kvCacheSpec) :
    Room k' request a t := by
  have hmain := he.numTokensMainModel a request
  have hhits : a.hits k' = a.hits k := by rw [SlotArgs.hits, SlotArgs.hits, he.length]
  cases t with
  | none =>
    refine ⟨he.maxModelLen ▸ h.1, fun i m' l s hm' hl hs ↦ ?_⟩
    obtain ⟨m, hm, hmm'⟩ := he.source hm'
    have hspec := hQ m m' hmm'
    rw [hmain, blockSize, hspec]
    exact h.2 i m l s hm (hhits ▸ hl) (by rw [kind, ← hspec]; exact hs)
  | some t =>
    refine ⟨h.1, fun m' hm' s hs ↦ ?_⟩
    obtain ⟨m, hm, hmm'⟩ := he.mem hm'
    have hspec := hQ m m' hmm'
    rw [hmain, blockSize, hspec]
    exact h.2 m hm s (by rw [kind, ← hspec]; exact hs)

/-- The table of `id` in `align` mode during `allocate_slots`: `main` tokens do not require fewer
blocks. -/
structure Fitting (id : ReqId) (main s : ℕ) (m : SingleTypeKVCacheManager) : Prop where
  allocated : id ∈ m.allocatedBlockReqs → s ≤ (m.table id).length
  length : (m.table id).length ≤ cdiv main m.blockSize + s

theorem skipped_le_cdiv {n main} (hn : n ≤ main) (size) : (n - 1) / size ≤ cdiv main size :=
  div_le_cdiv ((Nat.sub_le n 1).trans hn) size

variable {m : SingleTypeKVCacheManager}

theorem Fitting.of_sized {s} (h : k.Sized id t)
    (hm : m ∈ k.singleTypeManagers) (hs : m.kind = .mamba .align s) (hroom : Room k request a t) :
    Fitting id (a.numTokensMainModel k request) s m := by
  refine ⟨(h m hm s hs).allocated, ?_⟩
  have hsized := h m hm s hs
  cases t with
  | none => simp [hsized.1]
  | some t =>
    simp only [SingleTypeKVCacheManager.Sized] at hsized
    have := hroom.2 m hm s hs
    omega

theorem Room.local_le (h : Room k request a none) (hext : a.numExternalComputedTokens = 0) :
    a.numLocalComputedTokens request ≤ a.numTokensMainModel k request := by
  have := h.1
  simp only [SlotArgs.numTokensMainModel, SlotArgs.totalComputedTokens, hext]
  omega

theorem hitTable_fitting {i s : ℕ} {l} (null) (hi : k.singleTypeManagers[i]? = some m)
    (hl : (a.hits k)[i]? = some l) (hs : m.kind = .mamba .align s) (hroom : Room k request a none)
    (hext : a.numExternalComputedTokens = 0) :
    (m.hitTable null l (a.numLocalComputedTokens request)).length ≤
      cdiv (a.numTokensMainModel k request) m.blockSize := by
  rw [length_hitTable, getNumSkippedTokens, hs]
  exact max_le (skipped_le_cdiv (hroom.local_le hext) _) (hroom.2 i m l s hi hl hs)

theorem enterHits_fitting (h : k.Sized request.requestId t) (hext : a.numExternalComputedTokens = 0)
    (hroom : Room k request a t) :
    Spares (k.enterHits request a) p
      (fun k' _ ↦ Each (fun m m' ↦ OnlyFor request.requestId m m' ∧ ∀ s, m.kind = .mamba .align s →
        Fitting request.requestId (a.numTokensMainModel k request) s m') k k') := by
  unfold enterHits
  rw [hext]
  refine .ite (fun hsome ↦ ?_) fun _ ↦ .pure ?_
  · -- a request with blocks is not given any hits
    cases t with
    | some t => simp [hroom.1] at hsome
    | none =>
      refine .andThen (onEach_forall₂ (Q := fun m m' ↦ OnlyFor request.requestId m m' ∧
        ∀ s, m.kind = .mamba .align s → Fitting request.requestId (a.numTokensMainModel k request) s m')
        0 fun i m p hi ↦ ?_) fun out p' h ↦ .pure (.of_managers h)
      rw [Nat.zero_add]
      split
      · exact .throw (by simp)
      next l hl =>
        refine .seq (allocateNewComputedBlocks_retables l _) fun m' p' hm' ↦ ?_
        have hm := mem_of_getElem? hi
        rcases hm' with hm' | ⟨_, null, hm'⟩
        · refine .pure ⟨hm'.toOnlyFor, fun s hs ↦ ?_⟩
          have hfit := Fitting.of_sized h hm hs hroom
          exact ⟨fun hid ↦ hm'.self ▸ hfit.allocated (hm'.kept.mp hid),
            by rw [hm'.self, hm'.blockSize_eq]; exact hfit.length⟩
        · refine .pure ⟨hm'.toOnlyFor, fun s hs ↦ ?_⟩
          refine ⟨fun hid ↦ absurd (hm'.kept.mp hid) (h m hm s hs).2, ?_⟩
          rw [hm'.self, hm'.blockSize_eq]
          exact (hitTable_fitting null hi hl hs hroom hext).trans (Nat.le_add_right _ s)
  · refine ⟨rfl, rfl, forall₂_same.mpr fun m hm ↦ ⟨.refl _ m, fun s hs ↦ ?_⟩⟩
    exact Fitting.of_sized h hm hs hroom

theorem allocateNewBlocks_sized {main}
    (h : ∀ m ∈ k.singleTypeManagers, ∀ s, m.kind = .mamba .align s → Fitting id main s m) (n enc) :
    Spares (k.allocateNewBlocks id n main enc) p
      (fun out _ ↦ Each (OnlyFor id) k out.1 ∧ out.1.Sized id (some main)) := by
  refine .andThen (onEach_forall₂ (Q := fun m m' ↦ OnlyFor id m m' ∧
    ∀ s, m.kind = .mamba .align s → m'.Sized s id (some main)) 0 fun i m p hi ↦ ?_) fun out p' h ↦ .pure ?_
  · by_cases hkind : ∃ s, m.kind = .mamba .align s
    · obtain ⟨s, hs⟩ := hkind
      have hfit := h m (mem_of_getElem? hi) s hs
      simp only [SingleTypeKVCacheManager.allocateNewBlocks, hs]
      refine (allocateBlocksAlign_length hfit.allocated hfit.length).mono fun out p' ho ↦ ⟨ho.1, ?_⟩
      intro s' hs'
      obtain rfl : s = s' := by simpa using hs'
      simp only [SingleTypeKVCacheManager.Sized]
      rw [ho.2, ho.1.blockSize_eq]
    · exact (allocateNewBlocks_onlyFor (fun s hs ↦ hkind ⟨s, hs⟩) _ _).mono
        (fun out p' ho ↦ ⟨ho, fun s hs ↦ absurd ⟨s, hs⟩ hkind⟩)
  · have heach := Each.of_managers h
    refine ⟨heach.mono fun _ _ h ↦ h.1, fun m' hm' s hs ↦ ?_⟩
    obtain ⟨m, _, hQ⟩ := heach.mem hm'
    exact hQ.2 s (hQ.1.kind_eq ▸ hs)

theorem takeSlots_sized (h : k.Sized request.requestId t) (hext : a.numExternalComputedTokens = 0)
    (hroom : Room k request a t) (H) :
    Spares (k.takeSlots H request a) p (fun out _ ↦ Each (OnlyFor request.requestId) k out.1 ∧
        out.1.Sized request.requestId (some (a.numTokensMainModel k request))) := by
  refine .seq (enterHits_fitting h hext hroom) fun k1 p1 h1 ↦ ?_
  have hfit : ∀ m ∈ k1.singleTypeManagers, ∀ s, m.kind = .mamba .align s →
      Fitting request.requestId (a.numTokensMainModel k request) s m := by
    intro m' hm' s hs
    obtain ⟨m, _, hQ⟩ := h1.mem hm'
    exact hQ.2 s (hQ.1.kind_eq ▸ hs)
  have honly1 := h1.mono fun _ _ h ↦ h.1
  refine .seq (allocateNewBlocks_sized hfit _ _) fun out p2 h2 ↦ ?_
  have honly2 := honly1.trans h2.1 OnlyFor.trans
  refine .ite (fun _ ↦ .pure ⟨honly2, h2.2⟩) fun _ ↦ ?_
  refine .seq (cacheBlocks_retables H request _ request.requestId) fun k3 p3 h3 ↦ ?_
  exact .pure ⟨honly2.trans (h3.mono fun _ _ h ↦ h.toOnlyFor) OnlyFor.trans, h2.2.same h3⟩

variable {hits : List (List Ref)} {e : ManagerError} {numTokens : ℕ} {cap : Bool}

theorem groupBlocksToAllocate_error {enc total main i}
    (h : groupBlocksToAllocate p id numTokens hits enc total main cap i m = .error e) :
    e ≠ .fewerBlocksRequired := by
  have hcount : ∀ {n hits total}, m.numBlocksToAllocate p id n hits total cap = .error e →
      e = .hitsOfRunningRequest := by
    intro n hits total h
    simp only [numBlocksToAllocate] at h
    split at h
    · split at h
      · exact (error.inj h).symm
      · cases h
    · cases h
  have hmap : ∀ {n hits total}, (m.numBlocksToAllocate p id n hits total cap).map Nat.cast =
      (.error e : Except ManagerError ℤ) → e ≠ .fewerBlocksRequired := by
    intro n hits total h
    cases hn : m.numBlocksToAllocate p id n hits total cap with
    | ok n => rw [hn] at h; cases h
    | error e' =>
      rw [hn] at h
      cases h
      rw [hcount hn]
      exact ManagerError.noConfusion
  have hget : ∀ {n hits total main},
      m.getNumBlocksToAllocate p id n hits total main cap = .error e → e ≠ .fewerBlocksRequired := by
    intro n hits total main h
    unfold SingleTypeKVCacheManager.getNumBlocksToAllocate at h
    split at h
    · split at h
      · cases h
      · split at h
        · cases h
        all_goals exact hmap h
    all_goals exact hmap h
  unfold groupBlocksToAllocate at h
  split at h
  · exact hget h
  split at h
  · rw [← error.inj h]
    exact ManagerError.noConfusion
  · exact hget h

theorem getNumBlocksToAllocate_error {enc total main i}
    (h : getNumBlocksToAllocate p id numTokens hits enc total main cap i ms = .error e) :
    e ≠ .fewerBlocksRequired := by
  induction ms generalizing i with
  | nil => cases h
  | cons m ms ih =>
    unfold getNumBlocksToAllocate at h
    cases hm : groupBlocksToAllocate p id numTokens hits enc total main cap i m with
    | error e' =>
      rw [hm] at h
      cases h
      exact groupBlocksToAllocate_error hm
    | ok n =>
      rw [hm] at h
      cases hms : getNumBlocksToAllocate p id numTokens hits enc total main cap (i + 1) ms with
      | error e' =>
        rw [hms] at h
        cases h
        exact ih hms
      | ok n' => rw [hms] at h; cases h

theorem sequenceFits_error (h : k.sequenceFits p request a = .error e) :
    e ≠ .fewerBlocksRequired := by
  unfold sequenceFits at h
  dsimp only at h
  split at h
  · cases hn : getNumBlocksToAllocate p request.requestId (min request.numTokens k.maxModelLen)
        (a.hits k) a.numEncoderTokens (a.totalComputedTokens k request)
        (min request.numTokens k.maxModelLen) true 0 k.singleTypeManagers with
    | ok n => rw [hn] at h; cases h
    | error e' =>
      rw [hn] at h
      cases h
      exact getNumBlocksToAllocate_error hn
  · cases h

/-- `allocate_slots` makes the tables of `align` mode as long as the scheduled tokens require, or
keeps their lengths if it returns `None`. -/
theorem allocateSlots_sized (h : k.Sized request.requestId t) (hext : a.numExternalComputedTokens = 0)
    (hroom : Room k request a t) (H : Hashing) :
    Spares (k.allocateSlots H request a) p
      (fun out _ ↦ Each (OnlyFor request.requestId) k out.1 ∧ out.1.Sized request.requestId
        (if out.2.isSome then some (a.numTokensMainModel k request) else t)) := by
  refine .ite (fun _ ↦ .throw (by simp)) fun _ ↦ .get_bind ?_
  split
  next e he => exact .throw (sequenceFits_error he)
  · exact .pure ⟨.refl (OnlyFor.refl _) k, h⟩
  refine .seq (removeSkippedBlocks_trimmed request.requestId _) fun k' p' h' ↦ ?_
  have hsized' := h.trimmed h'
  have honly := h'.mono fun _ _ h ↦ h.toOnlyFor
  have hroom' := hroom.congr h' fun _ _ h ↦ h.spec
  refine .get_bind ?_
  split
  next e he => exact .throw (getNumBlocksToAllocate_error he)
  refine .ite (fun _ ↦ .pure ⟨honly, hsized'⟩) fun _ ↦ ?_
  refine .seq (takeSlots_sized hsized' hext hroom' H) fun out p'' ho ↦ ?_
  refine .pure ⟨honly.trans ho.1 OnlyFor.trans, ?_⟩
  rw [honly.numTokensMainModel] at ho
  exact ho.2

/-- What the managers answer to `get_num_blocks_to_allocate` in `allocate_slots`: for the whole
sequence, and for the slots after the removal of skipped blocks. -/
inductive Asked (k : KVCacheManager) (p : BlockPool) (request : Request) (a : SlotArgs) : ℤ → Prop
  | sequence {i m n} (hfull : a.fullSequenceMustFit = true)
      (hi : k.singleTypeManagers[i]? = some m)
      (h : groupBlocksToAllocate p request.requestId (min request.numTokens k.maxModelLen) (a.hits k)
        a.numEncoderTokens (a.totalComputedTokens k request) (min request.numTokens k.maxModelLen)
        true i m = .ok n) : Asked k p request a n
  | slots {k' p' i m n}
      (hrem : k.removeSkippedBlocks request.requestId (a.totalComputedTokens k request) p = .ok k' p')
      (hi : k'.singleTypeManagers[i]? = some m)
      (h : groupBlocksToAllocate p' request.requestId (a.numTokensNeedSlot k request) (a.hits k)
        a.numEncoderTokens (a.numLocalComputedTokens request + a.numExternalComputedTokens)
        (a.numTokensMainModel k request) false i m = .ok n) : Asked k p request a n

/-- An answer is negative only if the hits and the table of an `align` group are longer than
required. -/
theorem groupBlocksToAllocate_nonneg {enc total main i n}
    (hfit : ∀ l s, hits[i]? = some l → m.kind = .mamba .align s →
      l.length + (m.table id).length ≤ cdiv main m.blockSize + s)
    (h : groupBlocksToAllocate p id numTokens hits enc total main cap i m = .ok n) : 0 ≤ n := by
  have hmap : ∀ {n' hits total}, (m.numBlocksToAllocate p id n' hits total cap).map Nat.cast =
      (.ok n : Except ManagerError ℤ) → 0 ≤ n := by
    intro n' hits total h
    cases hn : m.numBlocksToAllocate p id n' hits total cap with
    | error e => rw [hn] at h; cases h
    | ok c =>
      rw [hn] at h
      rw [← ok.inj h]
      exact Int.natCast_nonneg c
  unfold groupBlocksToAllocate at h
  split at h
  next hcross =>
    simp only [SingleTypeKVCacheManager.getNumBlocksToAllocate, hcross] at h
    exact hmap h
  split at h
  · cases h
  next l hl =>
    unfold SingleTypeKVCacheManager.getNumBlocksToAllocate at h
    split at h
    next mode s hkind =>
      split at h
      · rw [← ok.inj h]
        omega
      split at h
      · rw [← ok.inj h]
        have := hfit l s hl hkind
        simp only [numBlocksToAllocateAlign]
        split
        · split <;> omega
        · omega
      all_goals exact hmap h
    all_goals exact hmap h

theorem Asked.nonneg {n : ℤ} (h : k.Sized request.requestId t) (hroom : Room k request a t)
    (hfull : a.fullSequenceMustFit = true →
      a.numTokensMainModel k request ≤ min request.numTokens k.maxModelLen)
    (hn : Asked k p request a n) : 0 ≤ n := by
  have hfit : ∀ (i : ℕ) m l s, k.singleTypeManagers[i]? = some m → (a.hits k)[i]? = some l →
      m.kind = .mamba .align s → l.length + (m.table request.requestId).length ≤
        cdiv (a.numTokensMainModel k request) m.blockSize + s := by
    intro i m l s hi hl hs
    have hsized := h m (mem_of_getElem? hi) s hs
    cases t with
    | none =>
      have := hroom.2 i m l s hi hl hs
      rw [hsized.1, length_nil]
      omega
    | some t =>
      have := hroom.2 m (mem_of_getElem? hi) s hs
      simp only [SingleTypeKVCacheManager.Sized] at hsized
      rw [SlotArgs.hits, hroom.1] at hl
      obtain rfl := eq_of_mem_replicate (mem_of_getElem? hl)
      rw [length_nil]
      omega
  cases hn with
  | sequence hseq hi hok =>
    refine groupBlocksToAllocate_nonneg (fun l s hl hs ↦ ?_) hok
    exact (hfit _ _ l s hi hl hs).trans (Nat.add_le_add_right (cdiv_mono (hfull hseq) _) s)
  | slots hrem hi hok =>
    refine groupBlocksToAllocate_nonneg (fun l s hl hs ↦ ?_) hok
    have htrim := (removeSkippedBlocks_trimmed request.requestId _).ok hrem
    obtain ⟨m0, hi0, ht⟩ := htrim.source hi
    rw [ht.length, ht.blockSize_eq]
    exact hfit _ m0 l s hi0 hl (ht.kind_eq ▸ hs)

end KVCacheManager

end VllmEngine.Core
