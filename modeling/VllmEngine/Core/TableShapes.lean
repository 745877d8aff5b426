import VllmEngine.Core.SlotTables

namespace VllmEngine.Core

open Lib BlockHash BlockPool FreeKVCacheBlockQueue List

theorem cdiv_mono {n n'} (h : n ≤ n') (size) : cdiv n size ≤ cdiv n' size :=
  Nat.div_le_div_right (by omega)

variable {size : ℕ}

theorem cdiv_le_iff {n k} (hsize : 0 < size) : cdiv n size ≤ k ↔ n ≤ k * size := by
  rw [cdiv, Nat.div_le_iff_le_mul_add_pred hsize, Nat.mul_comm]
  omega

theorem cdiv_cdiv (n) {size'} (hsize : 0 < size) (hsize' : 0 < size') :
    cdiv (cdiv n size) size' = cdiv n (size' * size) := by
  refine eq_of_forall_ge_iff fun k ↦ ?_
  rw [cdiv_le_iff hsize', cdiv_le_iff hsize, cdiv_le_iff (Nat.mul_pos hsize' hsize), Nat.mul_assoc]

theorem cdiv_zero (size) : cdiv 0 size = 0 := by
  rw [cdiv, Nat.div_eq_zero_iff]
  omega

theorem cdiv_mul_self (n) (hsize : 0 < size) : cdiv (n * size) size = n := by
  refine eq_of_forall_ge_iff fun k ↦ ?_
  rw [cdiv_le_iff hsize, Nat.mul_le_mul_right_iff hsize]

theorem div_lt_cdiv {n n'} (h : n < n') (hsize : 0 < size) : n / size < cdiv n' size := by
  rw [cdiv, Nat.div_lt_iff_lt_mul hsize, Nat.mul_comm]
  have := Nat.lt_mul_div_succ (n' + size - 1) hsize
  rw [Nat.mul_add] at this
  omega

theorem popleftLoop_length (n) (curr : Option Ref) (q) :
    Ensures (popleftLoop n curr) q (fun out _ ↦ out.1.length = n) := by
  induction n generalizing curr q with
  | zero => exact .pure rfl
  | succ n ih =>
    cases curr with
    | none => exact .throw trivial
    | some lastBlock =>
      refine .get_bind (.modify_bind (.modify_bind ?_))
      refine .seq (ih _ _) fun out _ hout ↦ ?_
      exact .pure (congrArg (· + 1) hout)

theorem popleftN_length (n) (q) :
    Ensures (popleftN n) q (fun bs _ ↦ bs.length = n.toNat) := by
  refine .ite (fun h ↦ .pure (by simp [h])) fun _ ↦ .get_bind ?_
  refine .ite (fun _ ↦ .throw trivial) fun _ ↦ .modify_bind ?_
  refine .seq (popleftLoop_length _ _ _) fun out _ hout ↦ ?_
  split
  · exact .pure hout
  · exact .modify_bind (.modify_bind (.pure hout))

theorem onQueue_length (n) (p) :
    Ensures (onQueue (popleftN n)) p (fun bs _ ↦ bs.length = n.toNat) := by
  have hpop := popleftN_length n p.freeBlockQueue
  unfold Ensures BlockPool.onQueue at *
  cases hrun : popleftN n p.freeBlockQueue with
  | ok a q => simpa only [hrun] using hpop
  | error e q => trivial

theorem getNewBlocks_length (n) (p) :
    Ensures (getNewBlocks n) p (fun bs _ ↦ bs.length = n.toNat) := by
  refine .get_bind (.ite (fun _ ↦ .throw trivial) fun _ ↦ ?_)
  refine .seq (onQueue_length n p) fun bs p' hlen ↦ ?_
  exact .seq (.any _ _) fun _ _ _ ↦ .pure hlen

/-- A call that does not raise for a table longer than what is required. -/
abbrev Spares {α : Type} (m : ManagerM α) (p : BlockPool) (Q : α → BlockPool → Prop) : Prop :=
  Ensures m p Q fun e _ ↦ e ≠ .fewerBlocksRequired

theorem onPool_any {α : Type} {m : PoolM α} {p Q} (h : Ensures m p Q) : Spares (onPool m) p Q :=
  onPool_ensures h fun _ _ _ he ↦ by cases he

namespace SingleTypeKVCacheManager

variable {m m' m'' : SingleTypeKVCacheManager} {id : ReqId} {p : BlockPool}

structure OnlyFor (id : ReqId) (m m' : SingleTypeKVCacheManager) : Prop where
  spec : m'.kvCacheSpec = m.kvCacheSpec
  table : ∀ id', id' ≠ id → m'.table id' = m.table id'
  allocated : ∀ id', id' ≠ id → (id' ∈ m'.allocatedBlockReqs ↔ id' ∈ m.allocatedBlockReqs)

theorem OnlyFor.refl (id) (m) : OnlyFor id m m :=
  ⟨rfl, fun _ _ ↦ rfl, fun _ _ ↦ Iff.rfl⟩

theorem OnlyFor.trans (h : OnlyFor id m m') (h' : OnlyFor id m' m'') : OnlyFor id m m'' :=
  ⟨h'.spec.trans h.spec, fun id' hid ↦ (h'.table id' hid).trans (h.table id' hid),
    fun id' hid ↦ (h'.allocated id' hid).trans (h.allocated id' hid)⟩

theorem OnlyFor.kind_eq (h : OnlyFor id m m') : m'.kind = m.kind :=
  congrArg KVCacheSpec.kind h.spec

theorem OnlyFor.blockSize_eq (h : OnlyFor id m m') : m'.blockSize = m.blockSize :=
  congrArg KVCacheSpec.blockSize h.spec

variable {t : List Ref} {e : ManagerError}

theorem Retabled.onlyFor (h : Retabled id t m m') : OnlyFor id m m' :=
  ⟨h.spec, h.table, h.allocated⟩

structure Trimmed (id : ReqId) (m m' : SingleTypeKVCacheManager) : Prop extends OnlyFor id m m' where
  length : (m'.table id).length = (m.table id).length
  kept : id ∈ m'.allocatedBlockReqs ↔ id ∈ m.allocatedBlockReqs

theorem Trimmed.refl (id) (m) : Trimmed id m m :=
  ⟨.refl id m, rfl, Iff.rfl⟩

theorem Trimmed.trans (h : Trimmed id m m') (h' : Trimmed id m' m'') : Trimmed id m m'' :=
  ⟨h.toOnlyFor.trans h'.toOnlyFor, h'.length.trans h.length, h'.kept.trans h.kept⟩

theorem Trimmed.setTable (ht : t.length = (m.table id).length) : Trimmed id m (m.setTable id t) :=
  ⟨(Retabled.setTable m id t).onlyFor, by rw [table_setTable_self, ht], Iff.rfl⟩

theorem removeSkipped_trimmed (n) : Spares (m.removeSkipped id n) p
    (fun m' _ ↦ Trimmed id m m') := by
  refine .ite (fun _ ↦ .pure (.refl id m)) fun _ ↦ .get_bind ?_
  refine .seq (onPool_any (.any _ _)) fun _ p' _ ↦ .pure ?_
  exact .setTable (removeLoop_pruned _ _ _).length

theorem removeLastState_trimmed (n) : Spares (m.removeLastState id n) p
    (fun m' _ ↦ Trimmed id m m') := by
  unfold removeLastState
  split
  · exact .pure (.refl id m)
  refine .ite (fun _ ↦ .get_bind ?_) fun _ ↦ .pure (.refl id m)
  dsimp only
  split
  · exact .throw (by simp)
  refine .ite (fun _ ↦ .pure (.refl id m)) fun _ ↦ ?_
  refine .seq (onPool_any (.any _ _)) fun _ p' _ ↦ .pure ?_
  exact .setTable length_set

theorem removeSkippedBlocks_trimmed (n) : Spares (m.removeSkippedBlocks id n) p
    (fun m' _ ↦ Trimmed id m m') := by
  unfold removeSkippedBlocks
  split
  · refine .seq (removeSkipped_trimmed _) fun m' p' h ↦ ?_
    split
    · exact (removeLastState_trimmed _).mono fun _ _ h' ↦ h.trans h'
    all_goals exact .pure h
  all_goals exact removeSkipped_trimmed _

structure Retables (id : ReqId) (t : List Ref) (m m' : SingleTypeKVCacheManager) : Prop
    extends OnlyFor id m m' where
  self : m'.table id = t
  kept : id ∈ m'.allocatedBlockReqs ↔ id ∈ m.allocatedBlockReqs

theorem Retables.same (id) (m) : Retables id (m.table id) m m :=
  ⟨.refl id m, rfl, Iff.rfl⟩

theorem Retables.setTable (m) (id) (t) :
    Retables id t m (m.setTable id t) :=
  ⟨(Retabled.setTable m id t).onlyFor, table_setTable_self m id t, Iff.rfl⟩

/-- The table of a new request with hits: null blocks for skipped ones, then the hits. -/
def hitTable (m : SingleTypeKVCacheManager) (null : Ref) (hits : List Ref) (n : ℕ) : List Ref :=
  replicate (m.getNumSkippedTokens n / m.blockSize) null ++
    hits.drop (m.getNumSkippedTokens n / m.blockSize)

theorem length_hitTable (m : SingleTypeKVCacheManager) (null : Ref) (hits : List Ref) (n) :
    (m.hitTable null hits n).length = max (m.getNumSkippedTokens n / m.blockSize) hits.length := by
  simp only [hitTable, length_append, length_replicate, length_drop]
  omega

theorem addComputedBlocks_retables (hits) (n) :
    Spares (m.addComputedBlocks id hits n 0) p
      (fun m' _ ↦ ∃ null, Retables id (m.hitTable null hits n) m m') := by
  rw [addComputedBlocks_local]
  have hfinal : ∀ p', Spares (do
      let p ← get
      pure (m.withHits id (m.hitTable p.nullBlock hits n)) : ManagerM _) p'
      (fun m' _ ↦ ∃ null, Retables id (m.hitTable null hits n) m m') := fun p' ↦ by
    refine .get_bind (.pure ⟨p'.nullBlock, ?_⟩)
    have h := Retabled.withHits m id (m.hitTable p'.nullBlock hits n)
    exact ⟨h.onlyFor, h.self, Iff.rfl⟩
  refine .ite (fun _ ↦ ?_) fun _ ↦ .ite (fun _ ↦ .throw (by simp)) fun _ ↦ ?_
  · exact .seq (onPool_any (.any _ _)) fun _ p' _ ↦ hfinal p'
  · exact hfinal p

theorem allocateNewComputedBlocks_retables (hits) (n) :
    Spares (m.allocateNewComputedBlocks id hits n 0) p (fun m' _ ↦ Retables id (m.table id) m m' ∨
        m.table id = [] ∧ ∃ null, Retables id (m.hitTable null hits n) m m') := by
  refine .ite (fun _ ↦ .ite (fun _ ↦ .throw (by simp)) fun _ ↦
    .pure (.inl (.same id m))) fun _ ↦ ?_
  refine .ite (fun _ ↦ .ite (fun _ ↦ .throw (by simp)) fun _ ↦
    .pure (.inl (.same id m))) fun _ ↦ ?_
  refine .ite (fun _ ↦ .throw (by simp)) fun htable ↦ ?_
  exact (addComputedBlocks_retables hits n).mono fun _ _ h ↦ .inr ⟨not_not.mp htable, h⟩

theorem allocateBlocks_retables (numTokens) : Spares (m.allocateBlocks id numTokens) p
      (fun out _ ↦ Retables id (m.table id ++ out.2) m out.1 ∧
        out.2.length = cdiv numTokens m.blockSize - (m.table id).length) := by
  refine .ite (fun hle ↦ .pure ⟨?_, ?_⟩) fun hlt ↦ ?_
  · rw [append_nil]
    exact .setTable m id _
  · simp only [length_nil]
    omega
  refine .seq (onPool_any (getNewBlocks_length _ _)) fun bs p' hlen ↦ ?_
  exact .pure ⟨.setTable m id _, by dsimp only; omega⟩

theorem reuseLoop_error {null skipped is}
    (h : reuseLoop null skipped is t = .error e) : e = .indexError := by
  induction is generalizing t with
  | nil => cases h
  | cons i is ih =>
    unfold reuseLoop at h
    split at h
    · split at h
      · exact (Except.error.inj h).symm
      · exact ih h
    · cases h

theorem extendTable_error {null allocated required s}
    (h : extendTable null allocated t required s = .error e) :
    e ≠ .fewerBlocksRequired := by
  cases allocated with
  | false => cases h
  | true =>
    rw [reuseLoop_error h]
    exact ManagerError.noConfusion

theorem allocateBlocksAlign_length {main s}
    (hs : id ∈ m.allocatedBlockReqs → s ≤ (m.table id).length)
    (hle : (m.table id).length ≤ cdiv main m.blockSize + s) :
    Spares (m.allocateBlocksAlign id main s) p
      (fun out _ ↦ OnlyFor id m out.1 ∧ (out.1.table id).length = cdiv main m.blockSize + s) := by
  refine .ite (fun heq ↦ .pure ?_) fun hne ↦ ?_
  · have h := Retables.setTable m id (m.table id)
    exact ⟨h.toOnlyFor, by rw [h.self, ← heq]⟩
  refine .ite (fun hlt ↦ absurd hlt (by omega)) fun _ ↦ .get_bind ?_
  split
  next e he => exact .throw (extendTable_error he)
  next extended hext =>
    refine .ite (fun _ ↦ .throw (by simp)) fun _ ↦ ?_
    refine .seq (onPool_any (getNewBlocks_length _ _)) fun bs p' hlen ↦ ?_
    have hgrown : extended.length ≤ cdiv main m.blockSize + s := by
      by_cases hmem : id ∈ m.allocatedBlockReqs
      · rw [decide_eq_true hmem] at hext
        have := (extendTable_allocated (hs hmem) (by omega) hext).2
        omega
      · rw [decide_eq_false hmem] at hext
        have := (extendTable_new hext).2
        omega
    refine .pure ⟨(Retabled.withBlocks m id _ _).onlyFor, ?_⟩
    change ((m.setTable id (extended ++ bs)).table id).length = _
    rw [table_setTable_self, length_append]
    omega

theorem allocateNewBlocks_onlyFor (hkind : ∀ s, m.kind ≠ .mamba .align s) (numTokens main) :
    Spares (m.allocateNewBlocks id numTokens main) p (fun out _ ↦ OnlyFor id m out.1) := by
  unfold allocateNewBlocks
  split
  next s hs => exact absurd hs (hkind s)
  all_goals
    exact (allocateBlocks_retables _).mono fun _ _ h ↦ h.1.toOnlyFor

theorem cacheFull_retables (H) (request) (n) (id) :
    Spares (m.cacheFull H request n) p (fun m' _ ↦ Retables id (m.table id) m m') := by
  refine .ite (fun _ ↦ .pure (.same id m)) fun _ ↦ ?_
  refine .seq (onPool_any (.any _ _)) fun _ p' _ ↦ .pure ?_
  exact ⟨⟨rfl, fun _ _ ↦ rfl, fun _ _ ↦ Iff.rfl⟩, rfl, Iff.rfl⟩

theorem recordCached_error {bs keys}
    (h : recordCached p bs keys = .error e) : e = .blockWithoutHash := by
  induction bs generalizing keys with
  | nil => cases h
  | cons b bs ih =>
    unfold recordCached at h
    split at h
    · exact ih h
    · split at h
      · exact (Except.error.inj h).symm
      · exact ih h

theorem cacheBlocks_retables (H) (request) (n) (id) :
    Spares (m.cacheBlocks H request n) p (fun m' _ ↦ Retables id (m.table id) m m') := by
  unfold cacheBlocks
  split
  · exact .throw (by simp)
  · refine .seq (cacheFull_retables H request n id) fun m' p' h ↦ ?_
    refine .get_bind ?_
    split
    next e he =>
      rw [recordCached_error he]
      exact .throw (by simp)
    · exact .pure ⟨⟨h.spec, h.table, h.allocated⟩, h.self, h.kept⟩
  all_goals exact cacheFull_retables H request n id

theorem free_onlyFor (id) : Spares (m.free id) p
      (fun m' _ ↦ OnlyFor id m m' ∧ m'.table id = [] ∧ id ∉ m'.allocatedBlockReqs) := by
  refine .seq (onPool_any (.any _ _)) fun _ p' _ ↦ .pure ?_
  refine ⟨⟨rfl, fun id' hid ↦ ?_, fun id' hid ↦ ?_⟩, ?_, ?_⟩
  · simp [table, Dict.get?_erase_ne _ hid]
  · simp [hid]
  · simp [table]
  · simp

theorem newStepStarts_retables (id) : Retables id (m.table id) m m.newStepStarts := by
  unfold newStepStarts
  split
  · exact ⟨⟨rfl, fun _ _ ↦ rfl, fun _ _ ↦ Iff.rfl⟩, rfl, Iff.rfl⟩
  all_goals exact .same id m

end SingleTypeKVCacheManager

end VllmEngine.Core
