import VllmEngine.Core.PoolStock

namespace VllmEngine.Core.BlockPool

open Lib BlockHash List

/-- The pool as its users see it when they hold `held b` references to block `b`. A block without a
hash is not shared. -/
structure Held (owned : Ref → Prop) (null : Ref) (p : BlockPool) (held : Ref → ℕ) : Prop where
  counted : ∃ L, Refines owned null p L ∧ ∀ b, b ≠ null → L.held b = held b
  indexed : Indexed p
  nullBlock : p.nullBlock = null
  mem_blocks : ∀ b, owned b ∨ b = null → b ∈ p.blocks
  hashed : ∀ b, p.blockHash b ≠ none → owned b
  outside : ∀ b, b ≠ null → ¬ owned b → held b = 0
  single : ∀ b, b ≠ null → p.blockHash b = none → held b ≤ 1
  uncached : p.enableCaching = false → ∀ b, p.blockHash b = none

variable {owned : Ref → Prop} {null : Ref} {p p' : BlockPool} {held held' : Ref → ℕ}

theorem Held.stock (h : Held owned null p held) :
    ∃ L, Stock owned null p L ∧ ∀ b, b ≠ null → L.held b = held b := by
  obtain ⟨L, hL, hheld⟩ := h.counted
  exact ⟨L, ⟨hL, h.indexed, h.nullBlock, h.mem_blocks, h.hashed, h.uncached⟩, hheld⟩

theorem Stock.counts_held {L} (h : Stock owned null p L) (hheld : ∀ b, b ≠ null → L.held b = held b)
    (houtside : ∀ b, b ≠ null → ¬ owned b → held b = 0)
    (hsingle : ∀ b, b ≠ null → p.blockHash b = none → held b ≤ 1) : Held owned null p held :=
  ⟨⟨L, h.refines, hheld⟩, h.indexed, h.nullBlock, h.mem_blocks, h.hashed, houtside, hsingle, h.uncached⟩

section

variable (h : Held owned null p held)

include h

theorem Held.refCnt {b} (hb : b ≠ null) : p.refCnt b = held b := by
  obtain ⟨L, hL, hheld⟩ := h.stock
  rw [hL.refines.refCnt b hb, hheld b hb]

theorem Held.isNull (b) : p.isNull b = decide (b = null) := by
  obtain ⟨L, hL, -⟩ := h.stock
  exact hL.refines.isNull b

theorem Held.null_not_owned : ¬ owned null := by
  obtain ⟨L, hL, -⟩ := h.stock
  exact hL.refines.null_not_owned

theorem Held.blockHash_null : p.blockHash null = none := by
  obtain ⟨L, hL, -⟩ := h.stock
  exact hL.blockHash_null

theorem Held.congr (heq : ∀ b, b ≠ null → held' b = held b) : Held owned null p held' := by
  obtain ⟨L, hL, hheld⟩ := h.counted
  exact ⟨⟨L, hL, fun b hb ↦ (hheld b hb).trans (heq b hb).symm⟩, h.indexed, h.nullBlock,
    h.mem_blocks, h.hashed, fun b hb ho ↦ (heq b hb).trans (h.outside b hb ho),
    fun b hb hn ↦ (heq b hb).le.trans (h.single b hb hn), h.uncached⟩

theorem touch_held {bs} (hbs : ∀ b ∈ bs, b = null ∨ p.blockHash b ≠ none) : Succeeds (touch bs) p
      (fun _ p' ↦ Held owned null p' (fun b ↦ held b + bs.count b) ∧ SameHashes p p') := by
  obtain ⟨L, hL, hheld⟩ := h.stock
  have howned : ∀ b ∈ bs, b = null ∨ owned b := fun b hb ↦ (hbs b hb).imp_right (h.hashed b)
  refine (touch_stock hL howned).mono fun _ p' hp' ↦ ⟨?_, hp'.2⟩
  apply hp'.1.counts_held
  · intro b hb
    simp only [Ledger.touch, hheld b hb]
  · intro b hb ho
    have hm : b ∉ bs := fun hm ↦ ho ((howned b hm).resolve_left hb)
    simp [h.outside b hb ho, count_eq_zero_of_not_mem hm]
  intro b hb hn
  rw [hp'.2.blockHash] at hn
  have hm : b ∉ bs := fun hm ↦ (hbs b hm).resolve_left hb hn
  simpa [count_eq_zero_of_not_mem hm] using h.single b hb hn

theorem freeBlocks_held [DecidablePred owned] {bs} (hbs : ∀ b ∈ bs, b = null ∨ owned b)
    (hrel : ∀ b ∈ bs, b ≠ null → bs.count b = 1 ∧ 0 < held b) :
    Succeeds (freeBlocks bs) p
      (fun _ p' ↦ Held owned null p' (fun b ↦ held b - bs.count b) ∧ SameHashes p p') := by
  obtain ⟨L, hL, hheld⟩ := h.stock
  have hrel' : L.Releasable owned bs := fun b hb ho ↦ by
    rw [hheld b (hL.refines.ne_null ho)]
    exact hrel b hb (hL.refines.ne_null ho)
  refine (freeBlocks_stock hL hbs hrel').mono fun _ p' hp' ↦ ⟨?_, hp'.2⟩
  apply hp'.1.counts_held
  · intro b hb
    simp only [Ledger.release, hheld b hb]
  · intro b hb ho
    simp [h.outside b hb ho]
  intro b hb hn
  rw [hp'.2.blockHash] at hn
  have := h.single b hb hn
  omega

end

structure Fresh (owned : Ref → Prop) (held : Ref → ℕ) (p : BlockPool) (bs : List Ref)
    (p' : BlockPool) : Prop where
  nodup : bs.Nodup
  free : ∀ b ∈ bs, owned b ∧ held b = 0
  hashes : ∀ b, p'.blockHash b = if b ∈ bs then none else p.blockHash b
  config : p'.config = p.config

section

variable (h : Held owned null p held)

include h

theorem getNewBlocks_held {n : ℕ} : Ensures (getNewBlocks n) p
      (fun bs p' ↦ bs.length = n ∧ Fresh owned held p bs p' ∧
        Held owned null p' (fun b ↦ held b + bs.count b)) := by
  obtain ⟨L, hL, hheld⟩ := h.stock
  refine (getNewBlocks_stock hL).mono ?_
  rintro bs p' ⟨rfl, hn, hp', hcfg, hhash⟩
  have hfree : ∀ b ∈ L.free.take n, owned b ∧ held b = 0 := by
    intro b hb
    obtain ⟨ho, hz⟩ := (hL.refines.sound.mem_free b).mp (mem_of_mem_take hb)
    exact ⟨ho, by rw [← hheld b (hL.refines.ne_null ho), hz]⟩
  have hnodup : (L.free.take n).Nodup := hL.refines.sound.nodup.sublist (take_sublist n _)
  refine ⟨length_take_of_le hn, ⟨hnodup, hfree, hhash, hcfg⟩, ?_⟩
  apply hp'.counts_held
  · intro b hb
    simp [Ledger.take, hheld b hb]
  · intro b hb ho
    have hm : b ∉ L.free.take n := fun hm ↦ ho (hfree b hm).1
    simp [h.outside b hb ho, count_eq_zero_of_not_mem hm]
  intro b hb hb'
  by_cases hm : b ∈ L.free.take n
  · rw [(hfree b hm).2, count_eq_one_of_mem hnodup hm]
  · rw [hhash b, if_neg hm] at hb'
    rw [count_eq_zero_of_not_mem hm]
    exact h.single b hb hb'

theorem cacheFullBlocks_held {bs}
    (hbs : ∀ b ∈ bs, b = null ∨ owned b) (hc : p.enableCaching = true) (H r c f size g) (hcf : c < f) :
    Ensures (cacheFullBlocks H r bs c f size g) p
      (fun _ p' ↦ Held owned null p' held ∧ p'.config = p.config ∧
        Filed ((hashList r.blockHashes p.hashBlockSize size).drop c) g 0 ((bs.take f).drop c) p p') := by
  obtain ⟨L, hL, hheld⟩ := h.stock
  refine (cacheFullBlocks_stock hL hbs hc H r c f size g hcf).mono ?_
  rintro _ p' ⟨hp', hcfg, hfiled⟩
  refine ⟨hp'.counts_held hheld h.outside fun b hb hn ↦ h.single b hb ?_, hcfg, hfiled⟩
  by_contra hsome
  obtain ⟨key, hkey⟩ := Option.ne_none_iff_exists'.mp hsome
  simp [hfiled.kept b key hkey] at hn

theorem Held.all_free (hused : (p.numGpuBlocks) - p.getNumFreeBlocks = 1) {b} (hb : b ≠ null) :
    held b = 0 := by
  obtain ⟨L, hL, hheld⟩ := h.counted
  by_cases ho : owned b
  · have hnull : null ∉ L.free := fun hm ↦ hL.null_not_owned ((hL.sound.mem_free null).mp hm).1
    have hnodup : (null :: L.free).Nodup := nodup_cons.mpr ⟨hnull, hL.sound.nodup⟩
    have hsub : null :: L.free ⊆ p.blocks := by
      intro r hr
      rcases mem_cons.mp hr with rfl | hr
      · exact h.mem_blocks _ (.inr rfl)
      · exact h.mem_blocks _ (.inl ((hL.sound.mem_free r).mp hr).1)
    have hlen : p.blocks.length ≤ (null :: L.free).length := by
      rw [getNumFreeBlocks, hL.queue.count] at hused
      simp only [blocks, length_map, length_range, length_cons]
      omega
    have hperm := (subperm_of_subset hnodup hsub).perm_of_length_le hlen
    have hfree : b ∈ L.free := (mem_cons.mp (hperm.mem_iff.mpr (h.mem_blocks b (.inl ho)))).resolve_left hb
    rw [← hheld b hb]
    exact ((hL.sound.mem_free b).mp hfree).2
  · exact h.outside b hb ho

theorem resetPrefixCache_held : Ensures resetPrefixCache p
      (fun _ p' ↦ Held owned null p' held ∧ p'.config = p.config ∧
        ∀ b, b ≠ null → 0 < held b → p'.blockHash b = p.blockHash b) := by
  obtain ⟨L, hL, hheld⟩ := h.counted
  have hpre := (resetPrefixCache_index h.indexed).and
    ((resetPrefixCache_preserves counts_ignoresHashes p).and
      (resetPrefixCache_preserves config_ignoresHashes p))
  have hhash : Ensures resetPrefixCache p (fun _ p' ↦ p' = p ∨ (∀ b, p'.blockHash b = none) ∧
      (p.numGpuBlocks : ℤ) - p.getNumFreeBlocks = 1) := by
    refine .get_bind ?_
    split
    · exact .pure (.inl rfl)
    next hused =>
      refine .bind (.modify (.bind (.of_ok (resetHashes_eq _) ?_)))
      refine .bind (.modify (.pure (.inr ⟨fun b ↦ ?_, not_not.mp hused⟩)))
      refine (congrFun (congrArg Index.blockHash (index_pushEvent _ _)) b).trans ?_
      change (if b ∈ p.blocks then none else p.blockHash b) = none
      split
      · rfl
      next hb => exact not_not.mp fun hne ↦ hb (h.indexed.pooled b hne)
  refine (hpre.and hhash).mono ?_
  rintro _ p' ⟨⟨hidx, hcounts, hcfg⟩, rfl | ⟨hnone, hused⟩⟩
  · exact ⟨h, rfl, fun _ _ _ ↦ rfl⟩
  have hzero : ∀ b, b ≠ null → held b = 0 := fun b hb ↦ h.all_free hused hb
  refine ⟨?_, hcfg, fun b hb hpos ↦ absurd (hzero b hb) (by omega)⟩
  simp only [config, Config.mk.injEq] at hcfg
  obtain ⟨hgpu, -, -, -, hnull⟩ := hcfg
  refine ⟨⟨L, hL.congr hcounts, hheld⟩, hidx, hnull.trans h.nullBlock, ?_,
    fun b hb ↦ absurd (hnone b) hb, h.outside, fun b hb _ ↦ by simp [hzero b hb], fun _ ↦ hnone⟩
  rw [blocks, hgpu]
  exact h.mem_blocks

end

end VllmEngine.Core.BlockPool
