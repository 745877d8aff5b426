import VllmEngine.Core.ManagerSteps
import VllmEngine.Core.KVCacheManager

namespace VllmEngine.Core

open Lib BlockHash BlockPool SingleTypeKVCacheManager List

variable {R : Request → Prop} {owned : Ref → Prop} {null : Ref}
  {ms done todo : List SingleTypeKVCacheManager} {m m' : SingleTypeKVCacheManager} {p p' : BlockPool}
  {id : ReqId}

def occurrencesOf (ms : List SingleTypeKVCacheManager) (b : Ref) : ℕ :=
  (ms.map fun m ↦ m.occurrences b).sum

theorem occurrencesOf_cons (done todo) (b) :
    occurrencesOf (done ++ m :: todo) b = m.occurrences b + occurrencesOf (done ++ todo) b := by
  simp only [occurrencesOf, map_append, map_cons, sum_append, sum_cons]
  omega

theorem occurrences_le (hm : m ∈ ms) (b) : m.occurrences b ≤ occurrencesOf ms b := by
  obtain ⟨done, todo, rfl⟩ := append_of_mem hm
  rw [occurrencesOf_cons]
  omega

theorem occurrencesOf_pos (hm : m ∈ ms) {id b} (hb : b ∈ m.table id) : 0 < occurrencesOf ms b := by
  have hpos := count_pos_iff.mpr hb
  have hle := m.count_table_le id b
  have := occurrences_le hm b
  omega

def SingleTypeKVCacheManager.fixed (m : SingleTypeKVCacheManager) :
    KVCacheSpec × ℕ × Bool × List Ref :=
  (m.kvCacheSpec, m.kvCacheGroupId, m.enableCaching, m.sinkBlocks)

theorem SingleTypeKVCacheManager.Frame.fixed {rest} (h : Frame rest null id m p m' p') :
    m'.fixed = m.fixed := by
  simp only [SingleTypeKVCacheManager.fixed, h.spec, h.group, h.caching, h.sinks]

/-- The references to the pool are those in the tables of the managers, which are in order. -/
structure Joint (R : Request → Prop) (owned : Ref → Prop) (null : Ref)
    (ms : List SingleTypeKVCacheManager) (p : BlockPool) : Prop where
  held : Held owned null p (occurrencesOf ms)
  tables : ∀ m ∈ ms, Tables R owned null m p
  distinct : ∀ m ∈ ms, Distinct R p.hashBlockSize m.blockSize

structure Unnoticed (null : Ref) (m : SingleTypeKVCacheManager) (p p' : BlockPool) : Prop where
  config : p'.config = p.config
  hashes : ∀ id, ∀ b ∈ m.table id, b ≠ null → p'.blockHash b = p.blockHash b

theorem Unnoticed.settled (h : Unnoticed null m p p') (hs : Settled null m p id) :
    Settled null m p' id := fun s hkind ↦
  ⟨(hs s hkind).1, fun i b hi hb hn ↦
    (h.hashes id b (mem_of_getElem? hb) hn).trans ((hs s hkind).2 i b hi hb hn)⟩

theorem Unnoticed.ready {n} (h : Unnoticed null m p p') (hs : Ready null m p id n) :
    Ready null m p' id n := fun s hkind ↦
  ⟨fun ha ↦ ⟨((hs s hkind).1 ha).1, fun i b hi hb hn ↦
      (h.hashes id b (mem_of_getElem? hb) hn).trans (((hs s hkind).1 ha).2 i b hi hb hn)⟩,
    fun ha hle i b hi hb hn ↦
      (h.hashes id b (mem_of_getElem? hb) hn).trans ((hs s hkind).2 ha hle i b hi hb hn)⟩

theorem Unnoticed.tables (h : Unnoticed null m p p') (ht : Tables R owned null m p)
    (hnull : p'.blockHash null = none) : Tables R owned null m p' := by
  refine ⟨ht.mem, fun id i b key hi hkey ↦ ?_⟩
  have hn : b ≠ null := by
    rintro rfl
    simp [hnull] at hkey
  rw [show p'.hashBlockSize = p.hashBlockSize from congrArg Config.hashBlockSize h.config]
  exact ht.keyed id i b key hi ((h.hashes id b (mem_of_getElem? hi) hn).symm.trans hkey)

theorem Joint.kept (h : Joint R owned null (done ++ m :: todo) p) :
    Kept R owned null (occurrencesOf (done ++ todo)) m p :=
  ⟨h.held.congr fun b _ ↦ (occurrencesOf_cons done todo b).symm, h.tables m (by simp)⟩

theorem Joint.kept_at (h : Joint R owned null ms p) {g} (hg : ms[g]? = some m) :
    ∃ rest, Kept R owned null (occurrencesOf rest) m p ∧
      ∀ (g' : ℕ) m', g' ≠ g → ms[g']? = some m' → m' ∈ rest := by
  obtain ⟨hlt, rfl⟩ := List.getElem?_eq_some_iff.mp hg
  have hsplit : ms = ms.take g ++ ms[g] :: ms.drop (g + 1) := by simp
  refine ⟨ms.take g ++ ms.drop (g + 1), Joint.kept (hsplit ▸ h), fun g' m' hne hm' ↦ ?_⟩
  rw [mem_append]
  rcases Nat.lt_or_gt_of_ne hne with hlt' | hgt
  · exact .inl (mem_of_getElem? (by rwa [getElem?_take_of_lt hlt']))
  · refine .inr (mem_of_getElem? (i := g' - (g + 1)) ?_)
    rw [getElem?_drop]
    rwa [show g + 1 + (g' - (g + 1)) = g' by omega]

theorem SingleTypeKVCacheManager.Frame.unnoticed (h : Frame (occurrencesOf ms) null id m p m' p')
    {m''} (hm : m'' ∈ ms) : Unnoticed null m'' p p' :=
  ⟨h.config, fun _ b hb hn ↦ h.rest b hn (occurrencesOf_pos hm hb)⟩

theorem Joint.step (h : Joint R owned null (done ++ m :: todo) p)
    (hk : Keeps R owned null (occurrencesOf (done ++ todo)) id m p m' p') :
    Joint R owned null (done ++ m' :: todo) p' := by
  obtain ⟨hkept, hframe⟩ := hk
  have hheld : Held owned null p' (occurrencesOf (done ++ m' :: todo)) :=
    hkept.held.congr fun b _ ↦ occurrencesOf_cons done todo b
  have hsize : p'.hashBlockSize = p.hashBlockSize := congrArg Config.hashBlockSize hframe.config
  have hmem : ∀ m'' ∈ done ++ m' :: todo, m'' = m' ∨ m'' ∈ done ++ todo := by
    intro m'' hm''
    simp only [mem_append, mem_cons] at hm'' ⊢
    tauto
  have hold : ∀ m'' ∈ done ++ todo, m'' ∈ done ++ m :: todo := by
    intro m'' hm''
    simp only [mem_append, mem_cons] at hm'' ⊢
    tauto
  refine ⟨hheld, fun m'' hm'' ↦ ?_, fun m'' hm'' ↦ ?_⟩
  · rcases hmem m'' hm'' with rfl | hm''
    · exact hkept.tables
    · exact (hframe.unnoticed hm'').tables (h.tables m'' (hold m'' hm'')) hheld.blockHash_null
  rw [hsize]
  rcases hmem m'' hm'' with rfl | hm''
  · rw [SingleTypeKVCacheManager.blockSize, hframe.spec]
    exact h.distinct m (by simp)
  · exact h.distinct m'' (hold m'' hm'')

end VllmEngine.Core
