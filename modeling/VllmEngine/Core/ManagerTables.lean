import VllmEngine.Core.PoolHeld
import VllmEngine.Core.SingleTypeManager
import Mathlib.Data.List.NodupEquivFin

namespace VllmEngine.Core

open Lib BlockHash BlockPool List

theorem onPool_ensures {α : Type} {m : PoolM α} {p Q E E'} (h : Ensures m p Q E')
    (hE : ∀ e p', E' e p' → E (.pool e) p') : Ensures (onPool m) p Q E := by
  unfold Ensures onPool at *
  cases hm : m p with
  | ok a p' => simpa only [hm] using h
  | error e p' => exact hE e p' (by simpa only [hm] using h)

theorem onPool_returns {α : Type} {m : PoolM α} {p Q}
    (h : Ensures m p Q) : Ensures (onPool m) p Q (fun _ _ ↦ True) :=
  onPool_ensures h fun _ _ he ↦ he

def KeyAt (R : Request → Prop) (hashBlockSize blockSize g i : ℕ) (key : BlockHashWithGroupId) :
    Prop :=
  ∃ r h, R r ∧ (i + 1) * blockSize ≤ r.numTokens ∧
    hashAt r.blockHashes hashBlockSize blockSize i = some h ∧ key = makeBlockHashWithGroupId h g

def Distinct (R : Request → Prop) (hashBlockSize blockSize : ℕ) : Prop :=
  ∀ r r' i i' h, R r → R r' → (i + 1) * blockSize ≤ r.numTokens → (i' + 1) * blockSize ≤ r'.numTokens →
    hashAt r.blockHashes hashBlockSize blockSize i = some h →
    hashAt r'.blockHashes hashBlockSize blockSize i' = some h → i = i'

theorem KeyAt.index_eq {R hashBlockSize blockSize g i i' key} (hR : Distinct R hashBlockSize blockSize)
    (h : KeyAt R hashBlockSize blockSize g i key) (h' : KeyAt R hashBlockSize blockSize g i' key) :
    i = i' := by
  obtain ⟨r, x, hr, hi, hx, rfl⟩ := h
  obtain ⟨r', x', hr', hi', hx', hkey⟩ := h'
  obtain rfl : x = x' := append_cancel_right hkey
  exact hR r r' i i' x hr hr' hi hi' hx hx'

namespace SingleTypeKVCacheManager

variable {R : Request → Prop} {owned : Ref → Prop} {null : Ref} {m : SingleTypeKVCacheManager}
  {p : BlockPool} {rest : Ref → ℕ} {id : ReqId}

def occurrences (m : SingleTypeKVCacheManager) (b : Ref) : ℕ := m.reqToBlocks.total (count b)

theorem count_table_eq (m : SingleTypeKVCacheManager) (id : ReqId) (b : Ref) :
    (m.reqToBlocks.get? id).elim 0 (count b) = (m.table id).count b := by
  unfold table
  cases m.reqToBlocks.get? id with
  | none => simp
  | some t => rfl

theorem occurrences_setTable (m : SingleTypeKVCacheManager) (id : ReqId) (t : List Ref) (b : Ref) :
    (m.setTable id t).occurrences b + (m.table id).count b = m.occurrences b + t.count b := by
  rw [← count_table_eq]
  exact m.reqToBlocks.total_set _ id t

theorem count_table_le (m : SingleTypeKVCacheManager) (id : ReqId) (b : Ref) :
    (m.table id).count b ≤ m.occurrences b := by
  have := m.reqToBlocks.total_erase (count b) id
  rw [count_table_eq] at this
  change _ ≤ m.reqToBlocks.total (count b)
  omega

theorem count_tables_le (m : SingleTypeKVCacheManager) {id id'} (h : id ≠ id') (b : Ref) :
    (m.table id).count b + (m.table id').count b ≤ m.occurrences b := by
  have herase := m.reqToBlocks.total_erase (count b) id
  rw [count_table_eq] at herase
  have hother := count_table_le { m with reqToBlocks := m.reqToBlocks.erase id } id' b
  simp only [table, occurrences, Dict.get?_erase_ne _ h.symm] at hother herase ⊢
  omega

theorem occurrences_eq_zero (m : SingleTypeKVCacheManager) (h : ∀ id, m.table id = []) (b : Ref) :
    m.occurrences b = 0 := by
  refine Dict.total_eq_zero _ fun id t ht ↦ ?_
  have hid := h id
  rw [table, ht, Option.getD_some] at hid
  simp [hid]

@[simp] theorem table_setTable_self (m : SingleTypeKVCacheManager) (id : ReqId) (t : List Ref) :
    (m.setTable id t).table id = t := by
  simp [table, setTable]

theorem table_setTable_ne (m : SingleTypeKVCacheManager) {id id'} (h : id' ≠ id)
    (t : List Ref) : (m.setTable id t).table id' = m.table id' := by
  simp [table, setTable, Dict.get?_set_ne _ h]

/-- The tables hold blocks of the pool only, each with a hash where that hash puts it. -/
structure Tables (R : Request → Prop) (owned : Ref → Prop) (null : Ref)
    (m : SingleTypeKVCacheManager) (p : BlockPool) : Prop where
  mem : ∀ id, ∀ b ∈ m.table id, b = null ∨ owned b
  keyed : ∀ id i b key, (m.table id)[i]? = some b → p.blockHash b = some key →
    KeyAt R p.hashBlockSize m.blockSize m.kvCacheGroupId i key

structure Kept (R : Request → Prop) (owned : Ref → Prop) (null : Ref) (rest : Ref → ℕ)
    (m : SingleTypeKVCacheManager) (p : BlockPool) : Prop where
  held : Held owned null p (fun b ↦ m.occurrences b + rest b)
  tables : Tables R owned null m p

/-- A call for the request `id` does nothing to the other requests and the rest of the pool. -/
structure Frame (rest : Ref → ℕ) (null : Ref) (id : ReqId) (m : SingleTypeKVCacheManager)
    (p : BlockPool) (m' : SingleTypeKVCacheManager) (p' : BlockPool) : Prop where
  spec : m'.kvCacheSpec = m.kvCacheSpec
  group : m'.kvCacheGroupId = m.kvCacheGroupId
  caching : m'.enableCaching = m.enableCaching
  sinks : m'.sinkBlocks = m.sinkBlocks
  config : p'.config = p.config
  table : ∀ id', id' ≠ id → m'.table id' = m.table id'
  allocated : ∀ id', id' ≠ id → (id' ∈ m'.allocatedBlockReqs ↔ id' ∈ m.allocatedBlockReqs)
  hashes : ∀ id', id' ≠ id → ∀ b ∈ m.table id', b ≠ null → p'.blockHash b = p.blockHash b
  rest : ∀ b, b ≠ null → 0 < rest b → p'.blockHash b = p.blockHash b

theorem Frame.refl (m) (p) : Frame rest null id m p m p :=
  ⟨rfl, rfl, rfl, rfl, rfl, fun _ _ ↦ rfl, fun _ _ ↦ Iff.rfl, fun _ _ _ _ _ ↦ rfl, fun _ _ _ ↦ rfl⟩

theorem Frame.trans {m' m'' p' p''}
    (h : Frame rest null id m p m' p') (h' : Frame rest null id m' p' m'' p'') :
    Frame rest null id m p m'' p'' where
  spec := h'.spec.trans h.spec
  group := h'.group.trans h.group
  caching := h'.caching.trans h.caching
  sinks := h'.sinks.trans h.sinks
  config := h'.config.trans h.config
  table id' hid := (h'.table id' hid).trans (h.table id' hid)
  allocated id' hid := (h'.allocated id' hid).trans (h.allocated id' hid)
  hashes id' hid b hb hn :=
    (h'.hashes id' hid b (h.table id' hid ▸ hb) hn).trans (h.hashes id' hid b hb hn)
  rest b hb hpos := (h'.rest b hb hpos).trans (h.rest b hb hpos)

def Keeps (R : Request → Prop) (owned : Ref → Prop) (null : Ref) (rest : Ref → ℕ) (id : ReqId)
    (m : SingleTypeKVCacheManager) (p : BlockPool) (m' : SingleTypeKVCacheManager)
    (p' : BlockPool) : Prop :=
  Kept R owned null rest m' p' ∧ Frame rest null id m p m' p'

variable {b : Ref}

theorem Kept.mem_of_count (h : Kept R owned null rest m p) (hb : b ≠ null)
    (hpos : 2 ≤ m.occurrences b + rest b) : ∃ key, p.blockHash b = some key := by
  refine Option.ne_none_iff_exists'.mp fun hn ↦ ?_
  have := h.held.single b hb hn
  omega

theorem two_le_count_iff {t : List Ref} :
    2 ≤ t.count b ↔ ∃ i j : ℕ, i < j ∧ t[i]? = some b ∧ t[j]? = some b := by
  rw [← duplicate_iff_two_le_count, duplicate_iff_exists_distinct_get]
  constructor
  · rintro ⟨i, j, hij, hi, hj⟩
    refine ⟨i.1, j.1, hij, ?_, ?_⟩
    · rw [hi]
      exact getElem?_eq_getElem i.2
    · rw [hj]
      exact getElem?_eq_getElem j.2
  · rintro ⟨i, j, hij, hi, hj⟩
    obtain ⟨hi, hbi⟩ := List.getElem?_eq_some_iff.mp hi
    obtain ⟨hj, hbj⟩ := List.getElem?_eq_some_iff.mp hj
    exact ⟨⟨i, hi⟩, ⟨j, hj⟩, hij, hbi.symm, hbj.symm⟩

theorem Kept.unique (h : Kept R owned null rest m p) (hn : b ≠ null)
    (hb : p.blockHash b = none) {id id' : ReqId} {i i' : ℕ} (hi : (m.table id)[i]? = some b)
    (hi' : (m.table id')[i']? = some b) : id = id' ∧ i = i' ∧ rest b = 0 := by
  have hone := h.held.single b hn hb
  have hpos := count_pos_iff.mpr (mem_of_getElem? hi)
  have hpos' := count_pos_iff.mpr (mem_of_getElem? hi')
  have hle := m.count_table_le id b
  have hid : id = id' := by
    by_contra hne
    have := m.count_tables_le hne b
    omega
  subst hid
  refine ⟨rfl, ?_, by omega⟩
  rcases Nat.lt_trichotomy i i' with hlt | heq | hlt
  · have := two_le_count_iff.mpr ⟨i, i', hlt, hi, hi'⟩
    omega
  · exact heq
  · have := two_le_count_iff.mpr ⟨i', i, hlt, hi', hi⟩
    omega

theorem Kept.count_le_one (h : Kept R owned null rest m p)
    (hR : Distinct R p.hashBlockSize m.blockSize) (id : ReqId) (hb : b ≠ null) :
    (m.table id).count b ≤ 1 := by
  by_contra hlt
  obtain ⟨i, j, hij, hi, hj⟩ := two_le_count_iff.mp (show 2 ≤ (m.table id).count b by omega)
  have hcount := m.count_table_le id b
  obtain ⟨key, hkey⟩ := h.mem_of_count hb (by omega)
  have := (h.tables.keyed id i b key hi hkey).index_eq hR (h.tables.keyed id j b key hj hkey)
  omega

end SingleTypeKVCacheManager

end VllmEngine.Core
