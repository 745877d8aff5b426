import VllmEngine.Lib.Dict
import VllmEngine.Core.BlockHash
import VllmEngine.Core.FreeQueue

namespace VllmEngine.Core

open Lib Dict Ref Option

/-- `KVCacheBlock | dict[int, KVCacheBlock]`. -/
inductive CachedBlocks
  | single (block : Ref)
  | many (blocks : Dict ℤ Ref)

abbrev BlockHashToBlockMap := Dict BlockHashWithGroupId CachedBlocks

namespace BlockHashToBlockMap

section

variable (m : BlockHashToBlockMap)

section

variable (key : BlockHashWithGroupId)

/-- The first block in insertion order. An empty inner dict would raise `StopIteration`; no
reachable map holds one. -/
def getOneBlock : Option Ref :=
  match m.get? key with
  | none => none
  | some (.single block) => some block
  | some (.many blocks) => blocks.values.head?

def insert (block : Ref) : BlockHashToBlockMap :=
  match m.get? key with
  | none => m.set key (.single block)
  | some (.single old) =>
    m.set key (.many ((empty.set old.blockId old).set block.blockId block))
  | some (.many blocks) => m.set key (.many (blocks.set block.blockId block))

def pop (blockId : ℤ) : Option Ref × BlockHashToBlockMap :=
  match m.get? key with
  | none => (none, m)
  | some (.single block) =>
    if block.blockId = blockId then (some block, m.erase key)
    else (none, (m.erase key).set key (.single block))
  | some (.many blocks) =>
    let rest := blocks.erase blockId
    (blocks.get? blockId,
      if rest.size > 0 then (m.erase key).set key (.many rest) else m.erase key)

end

end

end BlockHashToBlockMap

namespace CachedBlocks

/-- `block` is the single value, or one of the values of the inner dict. -/
def Contains : CachedBlocks → Ref → Prop
  | .single b, block => b = block
  | .many d, block => block ∈ d.values

/-- An inner dict is not empty and files every block of the pool under its own id. -/
structure WellFormed (c : CachedBlocks) : Prop where
  nonempty : ∀ d, c = .many d → d.entries ≠ []
  filed : ∀ d, c = .many d → ∀ e ∈ d.entries, e.1 = e.2.blockId
  pooled : ∀ b, c.Contains b → ∃ i, b = .blk i

variable {b : Ref} {d : Dict ℤ Ref} {o : Option CachedBlocks}

theorem blockId_inj {i} (h : b.blockId = (blk i).blockId) : b = .blk i := by
  cases b with
  | head => simp [blockId] at h
  | tail => simp [blockId] at h
  | blk j => simpa [blockId] using h

theorem contains_many (h : WellFormed (.many d)) :
    Contains (.many d) b ↔ d.get? b.blockId = some b := by
  rw [get?_eq_some]
  constructor
  · intro hb
    obtain ⟨e, he, rfl⟩ := List.mem_map.mp hb
    rwa [← h.filed d rfl e he]
  · exact fun hb ↦ List.mem_map.mpr ⟨_, hb, rfl⟩

def added : Option CachedBlocks → Ref → CachedBlocks
  | none, block => .single block
  | some (.single old), block =>
    .many ((empty.set old.blockId old).set block.blockId block)
  | some (.many blocks), block => .many (blocks.set block.blockId block)

def find : CachedBlocks → ℤ → Option Ref
  | .single block, blockId => if block.blockId = blockId then some block else none
  | .many blocks, blockId => blocks.get? blockId

def remaining : CachedBlocks → ℤ → Option CachedBlocks
  | .single block, blockId => if block.blockId = blockId then none else some (.single block)
  | .many blocks, blockId =>
    if (blocks.erase blockId).size > 0 then some (.many (blocks.erase blockId)) else none

theorem wellFormed_single (i) : WellFormed (.single (.blk i)) where
  nonempty := by simp
  filed := by simp
  pooled := by rintro b rfl; exact ⟨i, rfl⟩

theorem wellFormed_many (hne : d.entries ≠ [])
    (h : ∀ id b, d.get? id = some b → id = b.blockId ∧ ∃ i, b = .blk i) : WellFormed (.many d) where
  nonempty := by
    rintro d' ⟨⟩
    exact hne
  filed := by
    rintro d' ⟨⟩ e he
    exact (h e.1 e.2 (d.get?_eq_some.mpr he)).1
  pooled := by
    intro b hb
    obtain ⟨e, he, rfl⟩ := List.mem_map.mp hb
    exact (h e.1 e.2 (d.get?_eq_some.mpr he)).2

theorem WellFormed.get?_many (h : WellFormed (.many d)) {id}
    (hb : d.get? id = some b) : id = b.blockId ∧ ∃ i, b = .blk i := by
  have he := d.get?_eq_some.mp hb
  exact ⟨h.filed d rfl _ he, h.pooled b (List.mem_map.mpr ⟨_, he, rfl⟩)⟩

theorem set_entries_ne_nil (d : Dict ℤ Ref) (id) (b) : (d.set id b).entries ≠ [] := by
  intro h
  have := d.get?_set_self id b
  rw [get?, h] at this
  simp [lookup] at this

section

variable (i : ℕ) (h : ∀ id b, d.get? id = some b → id = b.blockId ∧ ∃ i, b = .blk i)

include i h

theorem WellFormed.added_many : WellFormed (.many (d.set (blk i).blockId (.blk i))) := by
  refine wellFormed_many (set_entries_ne_nil _ _ _) (fun id b hb ↦ ?_)
  rw [get?_set] at hb
  split at hb
  · cases hb
    exact ⟨‹_›, i, rfl⟩
  · exact h id b hb

theorem contains_set (b) : Contains (.many (d.set (blk i).blockId (.blk i))) b ↔
      b = .blk i ∨ d.get? b.blockId = some b := by
  rw [contains_many (WellFormed.added_many i h), get?_set]
  by_cases hb : b = .blk i
  · simp [hb]
  · have hid : b.blockId ≠ (blk i).blockId := fun e ↦ hb (blockId_inj e)
    simp [hb, hid]

end

theorem get?_single {i} (id) (b : Ref) (h : (empty.set (blk i).blockId (.blk i)).get? id = some b) :
    id = b.blockId ∧ ∃ i, b = .blk i := by
  rw [get?_set] at h
  split at h
  · cases h
    exact ⟨‹_›, i, rfl⟩
  · simp at h

theorem added_wellFormed (h : ∀ c, o = some c → c.WellFormed) (i) :
    (added o (.blk i)).WellFormed := by
  match o, h with
  | none, _ => exact wellFormed_single i
  | some (.single old), h =>
    obtain ⟨j, rfl⟩ := (h _ rfl).pooled old rfl
    exact WellFormed.added_many i get?_single
  | some (.many d), h => exact WellFormed.added_many i (fun _ _ ↦ (h _ rfl).get?_many)

theorem added_contains (h : ∀ c, o = some c → c.WellFormed) (i)
    (b : Ref) : (added o (.blk i)).Contains b ↔ b = .blk i ∨ ∃ c, o = some c ∧ c.Contains b := by
  match o, h with
  | none, _ => simp [added, Contains, eq_comm]
  | some (.single old), h =>
    obtain ⟨j, rfl⟩ := (h _ rfl).pooled old rfl
    rw [added, contains_set i get?_single, get?_set]
    by_cases hb : b = .blk j
    · simp [hb, Contains]
    · have hid : b.blockId ≠ (blk j).blockId := fun e ↦ hb (blockId_inj e)
      simp [hid, Contains, Ne.symm hb]
  | some (.many d), h =>
    rw [added, contains_set i (fun _ _ ↦ (h _ rfl).get?_many)]
    simp [contains_many (h _ rfl)]

theorem find_of_contains {c : CachedBlocks} (h : c.WellFormed) (hb : c.Contains b) :
    c.find b.blockId = some b := by
  cases c with
  | single b' => cases hb; simp [find]
  | many d => exact (contains_many h).mp hb

theorem remaining_spec {c : CachedBlocks} (h : c.WellFormed) (i) :
    (∀ c', c.remaining (blk i).blockId = some c' → c'.WellFormed) ∧
      ∀ b, (∃ c', c.remaining (blk i).blockId = some c' ∧ c'.Contains b) ↔
        c.Contains b ∧ b ≠ .blk i := by
  cases c with
  | single b =>
    by_cases hb : b = .blk i
    · simp [remaining, hb, Contains, eq_comm]
    have hid : b.blockId ≠ (blk i).blockId := fun e ↦ hb (blockId_inj e)
    refine ⟨by simpa [remaining, hid] using h, fun b' ↦ ?_⟩
    simp only [remaining, hid, if_false, some.injEq, exists_eq_left', Contains]
    exact ⟨fun e ↦ ⟨e, e ▸ hb⟩, And.left⟩
  | many d =>
    have hget : ∀ id b, (d.erase (blk i).blockId).get? id = some b →
        id = b.blockId ∧ ∃ i, b = .blk i := by
      intro id b hb
      rw [get?_erase] at hb
      split at hb
      · simp at hb
      · exact h.get?_many hb
    have hmem : ∀ b, (d.erase (blk i).blockId).get? b.blockId = some b ↔
        Contains (.many d) b ∧ b ≠ .blk i := by
      intro b
      rw [get?_erase, contains_many h]
      by_cases hb : b = .blk i
      · simp [hb]
      · have hid : b.blockId ≠ (blk i).blockId := fun e ↦ hb (blockId_inj e)
        simp [hid, hb]
    by_cases hsize : (d.erase (blk i).blockId).size > 0
    · have hwf := wellFormed_many (List.ne_nil_of_length_pos hsize) hget
      refine ⟨by simpa [remaining, hsize] using hwf, fun b ↦ ?_⟩
      simp only [remaining, hsize, if_true, some.injEq, exists_eq_left',
        contains_many hwf, hmem]
    · refine ⟨by simp [remaining, hsize], fun b ↦ ?_⟩
      have hnil : (d.erase (blk i).blockId).entries = [] := by
        simpa [size] using hsize
      rw [← hmem, get?, hnil]
      simp [remaining, hsize, lookup]

end CachedBlocks

namespace BlockHashToBlockMap

open CachedBlocks

def Stored (m : BlockHashToBlockMap) (key : BlockHashWithGroupId) (block : Ref) : Prop :=
  ∃ c, m.get? key = some c ∧ c.Contains block

def WellFormed (m : BlockHashToBlockMap) : Prop := ∀ key c, m.get? key = some c → c.WellFormed

variable {m : BlockHashToBlockMap} {key key' : BlockHashWithGroupId}

theorem get?_insert (block) : (m.insert key block).get? key' =
    if key' = key then some (added (m.get? key) block) else m.get? key' := by
  unfold insert
  match hk : m.get? key with
  | none | some (.single old) | some (.many d) => simp only [added, get?_set]

theorem get?_pop (id) : (m.pop key id).2.get? key' =
    if key' = key then (m.get? key).bind (remaining · id) else m.get? key' := by
  unfold pop
  match hk : m.get? key with
  | none =>
    by_cases h : key' = key <;> simp [h, hk]
  | some (.single b) =>
    by_cases hb : b.blockId = id <;> by_cases h : key' = key <;>
      simp [hb, h, remaining, get?_set, get?_erase]
  | some (.many d) =>
    by_cases hs : (d.erase id).size > 0 <;> by_cases h : key' = key <;>
      simp [hs, h, remaining, get?_set, get?_erase]

theorem pop_fst (id) : (m.pop key id).1 = (m.get? key).bind (find · id) := by
  unfold pop
  match hk : m.get? key with
  | none => rfl
  | some (.single b) => by_cases hb : b.blockId = id <;> simp [hb, find]
  | some (.many d) => rfl

section

variable (h : m.WellFormed) (i : ℕ)

include h i

theorem WellFormed.insert : (m.insert key (.blk i)).WellFormed := by
  intro k c hc
  rw [get?_insert] at hc
  split at hc
  · cases hc
    exact added_wellFormed (fun c hc ↦ h key c hc) i
  · exact h k c hc

theorem stored_insert (b) :
    (m.insert key (.blk i)).Stored key' b ↔ (key' = key ∧ b = .blk i) ∨ m.Stored key' b := by
  by_cases hk : key' = key
  · simp [Stored, get?_insert, hk, added_contains (fun c hc ↦ h key c hc)]
  · simp [Stored, get?_insert, hk]

theorem WellFormed.pop : (m.pop key (blk i).blockId).2.WellFormed := by
  intro k c hc
  rw [get?_pop] at hc
  split at hc
  · obtain ⟨c0, h0, hc⟩ := bind_eq_some_iff.mp hc
    exact (remaining_spec (h key c0 h0) i).1 c hc
  · exact h k c hc

theorem stored_pop (b) : (m.pop key (blk i).blockId).2.Stored key' b ↔
      m.Stored key' b ∧ ¬ (key' = key ∧ b = .blk i) := by
  by_cases hk : key' = key
  · subst hk
    simp only [Stored, get?_pop, if_true, bind_eq_some_iff, true_and]
    constructor
    · rintro ⟨c, ⟨c0, h0, hc⟩, hb⟩
      obtain ⟨hb0, hne⟩ := ((remaining_spec (h _ c0 h0) i).2 b).mp ⟨c, hc, hb⟩
      exact ⟨⟨c0, h0, hb0⟩, hne⟩
    · rintro ⟨⟨c0, h0, hb0⟩, hne⟩
      obtain ⟨c, hc, hb⟩ := ((remaining_spec (h _ c0 h0) i).2 b).mpr ⟨hb0, hne⟩
      exact ⟨c, ⟨c0, h0, hc⟩, hb⟩
  · simp [Stored, get?_pop, hk]

end

theorem pop_of_stored (h : m.WellFormed) {b} (hb : m.Stored key b) :
    (m.pop key b.blockId).1 = some b := by
  obtain ⟨c, hc, hcb⟩ := hb
  simp [pop_fst, hc, find_of_contains (h _ _ hc) hcb]

theorem stored_of_getOneBlock {b} (hb : m.getOneBlock key = some b) : m.Stored key b := by
  unfold getOneBlock at hb
  match hk : m.get? key, hb with
  | some (.single b'), hb => exact ⟨_, hk, by simpa [Contains] using hb⟩
  | some (.many d), hb => exact ⟨_, hk, List.mem_of_mem_head? hb⟩

theorem getOneBlock_isSome (h : m.WellFormed) :
    (m.getOneBlock key).isSome ↔ ∃ b, m.Stored key b := by
  constructor
  · intro hs
    obtain ⟨b, hb⟩ := isSome_iff_exists.mp hs
    exact ⟨b, stored_of_getOneBlock hb⟩
  rintro ⟨b, c, hc, hcb⟩
  unfold getOneBlock
  match c, hc with
  | .single b', hc => simp [hc]
  | .many d, hc =>
    have hne := (h _ _ hc).nonempty d rfl
    simp [hc, values, hne]

end BlockHashToBlockMap

end VllmEngine.Core
