import VllmEngine.Core.PoolCounts
import VllmEngine.Core.PoolIndex

namespace VllmEngine.Core.BlockPool

open Lib BlockHash

structure Stock (owned : Ref → Prop) (null : Ref) (p : BlockPool) (L : Ledger Ref) : Prop where
  refines : Refines owned null p L
  indexed : Indexed p
  nullBlock : p.nullBlock = null
  mem_blocks : ∀ b, owned b ∨ b = null → b ∈ p.blocks
  hashed : ∀ b, p.blockHash b ≠ none → owned b
  uncached : p.enableCaching = false → ∀ b, p.blockHash b = none

variable {owned : Ref → Prop} {null : Ref} {p p' : BlockPool} {L L' : Ledger Ref}

theorem Stock.not_free (h : Stock owned null p L) {b} (hb : 0 < L.held b) : b ∉ L.free :=
  fun hf ↦ by have := ((h.refines.sound.mem_free b).mp hf).2; omega

theorem Stock.next (h : Stock owned null p L) (hL : Refines owned null p' L') (hidx : Indexed p')
    (hcfg : p'.config = p.config) (hhash : ∀ b, p'.blockHash b ≠ none → owned b)
    (hun : p.enableCaching = false → ∀ b, p'.blockHash b = none) : Stock owned null p' L' := by
  simp only [config, Config.mk.injEq] at hcfg
  obtain ⟨hgpu, hcaching, -, -, hnull⟩ := hcfg
  refine ⟨hL, hidx, hnull.trans h.nullBlock, ?_, hhash, fun hc ↦ hun (hcaching ▸ hc)⟩
  rw [blocks, hgpu]
  exact h.mem_blocks

def SameHashes (p p' : BlockPool) : Prop := p'.index = p.index ∧ p'.config = p.config

theorem SameHashes.blockHash (h : SameHashes p p') : p'.blockHash = p.blockHash :=
  congrArg Index.blockHash h.1

theorem Stock.move (h : Stock owned null p L) (hsame : SameHashes p p')
    (hL : Refines owned null p' L') : Stock owned null p' L' := by
  apply h.next hL (h.indexed.congr hsame.1) hsame.2
  · rw [hsame.blockHash]
    exact h.hashed
  · rw [hsame.blockHash]
    exact h.uncached

theorem touch_stock {bs} (h : Stock owned null p L) (hbs : ∀ b ∈ bs, b = null ∨ owned b) :
    Succeeds (touch bs) p (fun _ p' ↦ Stock owned null p' (L.touch bs) ∧ SameHashes p p') := by
  have hframe := (touch_preserves index_ignoresCounts bs p).and
    (touch_preserves config_ignoresCounts bs p)
  refine ((touch_refines h.refines fun b hb ↦ (hbs b hb).symm).and hframe).weaken (fun _ p' hp' ↦ ?_)
    (fun _ _ he ↦ he.1)
  exact ⟨h.move hp'.2 hp'.1, hp'.2⟩

theorem freeBlocks_stock [DecidablePred owned] {bs} (h : Stock owned null p L)
    (hbs : ∀ b ∈ bs, b = null ∨ owned b) (hrel : L.Releasable owned bs) :
    Succeeds (freeBlocks bs) p (fun _ p' ↦ Stock owned null p' (L.release owned bs) ∧ SameHashes p p') := by
  have hframe := (freeBlocks_preserves index_ignoresCounts bs p).and
    (freeBlocks_preserves config_ignoresCounts bs p)
  refine ((freeBlocks_refines h.refines (fun b hb ↦ (hbs b hb).symm) hrel).and hframe).weaken
    (fun _ p' hp' ↦ ?_) (fun _ _ he ↦ he.1)
  exact ⟨h.move hp'.2 hp'.1, hp'.2⟩

theorem getNewBlocks_index_uncached (hc : p.enableCaching = false) (n) :
    Ensures (getNewBlocks n) p (fun _ p' ↦ p'.index = p.index) := by
  refine .get_bind ?_
  split
  · exact .throw trivial
  have hpop := (onQueue_preserves index_ignoresCounts (FreeKVCacheBlockQueue.popleftN n) p).and
    (onQueue_preserves config_ignoresCounts (FreeKVCacheBlockQueue.popleftN n) p)
  refine .seq hpop ?_
  intro bs t ht
  have hstep : ∀ b (l : List Ref) t, t.index = p.index ∧ t.enableCaching = false →
      Ensures (claimBlock b) t (fun _ u ↦ u.index = p.index ∧ u.enableCaching = false) := by
    intro b _ t ht
    refine .get_bind ?_
    rw [ht.2]
    refine .get_bind ?_
    split
    · exact .throw trivial
    · exact .modify ht
  have hc' : t.enableCaching = false := (congrArg Config.enableCaching ht.2).trans hc
  refine .seq (.forM (fun _ t ↦ t.index = p.index ∧ t.enableCaching = false) hstep bs
    ⟨ht.1, hc'⟩) ?_
  exact fun _ u hu ↦ .pure hu.1

theorem getNewBlocks_hashes (h : Indexed p)
    (huncached : p.enableCaching = false → ∀ b, p.blockHash b = none) (n) :
    Ensures (getNewBlocks n) p
      (fun bs p' ↦ Indexed p' ∧ ∀ r, p'.blockHash r = if r ∈ bs then none else p.blockHash r) := by
  cases hc : p.enableCaching with
  | true => exact (getNewBlocks_index h hc n).mono fun _ _ hp ↦ hp
  | false =>
    refine (getNewBlocks_index_uncached hc n).mono fun bs p' hp ↦ ⟨h.congr hp, ?_⟩
    intro r
    rw [show p'.blockHash = p.blockHash from congrArg Index.blockHash hp, huncached hc r, ite_self]

section

variable (h : Stock owned null p L)

include h

theorem getNewBlocks_enough {n} (hn : n ≤ L.free.length) : Succeeds (getNewBlocks n) p
      (fun bs p' ↦ bs = L.free.take n ∧ Stock owned null p' (L.take n) ∧ p'.config = p.config ∧
        ∀ b, p'.blockHash b = if b ∈ L.free.take n then none else p.blockHash b) := by
  have hboth := (getNewBlocks_refines h.refines hn).and
    ((getNewBlocks_hashes h.indexed h.uncached n).and (getNewBlocks_config n p))
  refine hboth.weaken ?_ (fun _ _ he ↦ he.1)
  rintro bs p' ⟨⟨rfl, hp'⟩, ⟨hidx, hhash⟩, hcfg⟩
  refine ⟨rfl, h.next hp' hidx hcfg (fun b hb ↦ ?_) (fun hc b ↦ ?_), hcfg, hhash⟩
  · rw [hhash b] at hb
    exact h.hashed b fun hn ↦ hb (by simp [hn])
  · rw [hhash b, h.uncached hc b, ite_self]

theorem getNewBlocks_stock {n : ℕ} : Ensures (getNewBlocks n) p
      (fun bs p' ↦ bs = L.free.take n ∧ n ≤ L.free.length ∧ Stock owned null p' (L.take n) ∧
        p'.config = p.config ∧
        ∀ b, p'.blockHash b = if b ∈ L.free.take n then none else p.blockHash b) := by
  rcases Nat.lt_or_ge L.free.length n with hn | hn
  · unfold Ensures
    rw [getNewBlocks_short h.refines hn]
    trivial
  · exact (getNewBlocks_enough h hn).mono fun _ _ ho ↦ ⟨ho.1, hn, ho.2⟩

theorem Stock.blockHash_null : p.blockHash null = none :=
  not_not.mp fun hne ↦ h.refines.null_not_owned (h.hashed null hne)

theorem Stock.hashed_of_filed {hs g i bs} (hfiled : Filed hs g i bs p p')
    (hbs : ∀ b ∈ bs, b = null ∨ owned b) {b} (hb : p'.blockHash b ≠ none) : owned b := by
  by_cases hm : b ∈ bs
  · apply (hbs b hm).resolve_left
    rintro rfl
    have hnull : p.isNull b = true := by simp [h.refines.isNull]
    exact hb ((hfiled.null b hnull).trans h.blockHash_null)
  · exact h.hashed b (hfiled.frame b hm ▸ hb)

theorem cacheFullBlocks_stock {bs}
    (hbs : ∀ b ∈ bs, b = null ∨ owned b) (hc : p.enableCaching = true) (H r c f size g) (hcf : c < f) :
    Ensures (cacheFullBlocks H r bs c f size g) p
      (fun _ p' ↦ Stock owned null p' L ∧ p'.config = p.config ∧
        Filed ((hashList r.blockHashes p.hashBlockSize size).drop c) g 0 ((bs.take f).drop c) p p') := by
  have hboth := (cacheFullBlocks_index h.indexed (fun b hb ↦ h.mem_blocks b (hbs b hb).symm)
    H r c f size g hcf).and ((cacheFullBlocks_preserves counts_ignoresHashes H r bs c f size g p).and
      (cacheFullBlocks_preserves config_ignoresHashes H r bs c f size g p))
  refine hboth.mono ?_
  rintro _ p' ⟨⟨hidx, hfiled, -⟩, hcounts, hcfg⟩
  refine ⟨h.next (h.refines.congr hcounts) hidx hcfg (fun b hb ↦ ?_) (fun hoff ↦ ?_), hcfg, hfiled⟩
  · exact h.hashed_of_filed hfiled
      (fun b hb ↦ hbs b (List.mem_of_mem_take (List.mem_of_mem_drop hb))) hb
  · rw [hc] at hoff
    cases hoff

end

end VllmEngine.Core.BlockPool
