import VllmEngine.Core.ManagerCalls
import VllmEngine.Core.TableEdits

namespace VllmEngine.Core.SingleTypeKVCacheManager

open Lib BlockHash BlockPool List

variable {R : Request → Prop} {owned : Ref → Prop} {null : Ref} {m m' : SingleTypeKVCacheManager}
  {p p' : BlockPool} {rest : Ref → ℕ} {id : ReqId} {t : List Ref}

def Unhashed (null : Ref) (p : BlockPool) (t : List Ref) (n : ℕ) : Prop :=
  ∀ i b, n ≤ i → t[i]? = some b → b ≠ null → p.blockHash b = none

/-- The last blocks of a table of `align` mode are speculative ones without a hash, which may be
moved. -/
def Settled (null : Ref) (m : SingleTypeKVCacheManager) (p : BlockPool) (id : ReqId) : Prop :=
  ∀ s, m.kind = .mamba .align s → (id ∈ m.allocatedBlockReqs → s ≤ (m.table id).length) ∧
      Unhashed null p (m.table id) ((m.table id).length - s)

/-- What `allocate_new_blocks` needs: hits of a new request that reach into the speculative blocks
of its table would lose their places. -/
def Ready (null : Ref) (m : SingleTypeKVCacheManager) (p : BlockPool) (id : ReqId)
    (numTokensMainModel : ℕ) : Prop :=
  ∀ s, m.kind = .mamba .align s → (id ∈ m.allocatedBlockReqs → s ≤ (m.table id).length ∧
        Unhashed null p (m.table id) ((m.table id).length - s)) ∧
      (id ∉ m.allocatedBlockReqs → (m.table id).length ≤ cdiv numTokensMainModel m.blockSize + s →
        Unhashed null p (m.table id) (cdiv numTokensMainModel m.blockSize))

theorem Unhashed.mono {n n'} (h : Unhashed null p t n) (hn : n ≤ n') : Unhashed null p t n' :=
  fun i b hi ↦ h i b (hn.trans hi)

theorem Settled.ready (h : Settled null m p id) (n : ℕ) : Ready null m p id n := fun s hs ↦
  ⟨fun ha ↦ ⟨(h s hs).1 ha, (h s hs).2⟩, fun _ hle ↦ (h s hs).2.mono (by omega)⟩

theorem Frame.settled (h : Frame rest null id m p m' p') {id'} (hid : id' ≠ id)
    (hs : Settled null m p id') : Settled null m' p' id' := by
  intro s hkind
  have hkind' : m.kind = .mamba .align s := by rw [← hkind, kind, kind, h.spec]
  obtain ⟨halloc, hun⟩ := hs s hkind'
  rw [h.table id' hid, h.allocated id' hid]
  refine ⟨halloc, fun i b hi hb hn ↦ ?_⟩
  rw [h.hashes id' hid b (mem_of_getElem? hb) hn]
  exact hun i b hi hb hn

structure Trims (R : Request → Prop) (owned : Ref → Prop) (null : Ref) (rest : Ref → ℕ)
    (id : ReqId) (m : SingleTypeKVCacheManager) (p : BlockPool) (m' : SingleTypeKVCacheManager)
    (p' : BlockPool) : Prop where
  keeps : Keeps R owned null rest id m p m' p'
  hashes : SameHashes p p'
  allocated : m'.allocatedBlockReqs = m.allocatedBlockReqs
  pruned : ∃ removed, Pruned null (m.table id) removed (m'.table id)

theorem Trims.refl (h : Kept R owned null rest m p) : Trims R owned null rest id m p m p :=
  ⟨⟨h, .refl m p⟩, ⟨rfl, rfl⟩, rfl, [], .refl null _⟩

theorem Trims.trans {m'' p''}
    (h : Trims R owned null rest id m p m' p') (h' : Trims R owned null rest id m' p' m'' p'') :
    Trims R owned null rest id m p m'' p'' := by
  obtain ⟨removed, hpruned⟩ := h.pruned
  obtain ⟨removed', hpruned'⟩ := h'.pruned
  exact ⟨⟨h'.keeps.1, h.keeps.2.trans h'.keeps.2⟩,
    ⟨h'.hashes.1.trans h.hashes.1, h'.hashes.2.trans h.hashes.2⟩,
    h'.allocated.trans h.allocated, _, hpruned.trans hpruned'⟩

theorem Trims.settled (h : Trims R owned null rest id m p m' p') (hs : Settled null m p id) :
    Settled null m' p' id := by
  intro s hkind
  obtain ⟨removed, hpruned⟩ := h.pruned
  have hkind' : m.kind = .mamba .align s := by rw [← hkind, kind, kind, h.keeps.2.spec]
  obtain ⟨halloc, hun⟩ := hs s hkind'
  rw [h.allocated, hpruned.length]
  refine ⟨halloc, fun i b hi hb hn ↦ ?_⟩
  rw [h.hashes.blockHash]
  exact hun i b hi ((hpruned.get i b hb).resolve_left hn) hn

section

variable (h : Kept R owned null rest m p) (hR : Distinct R p.hashBlockSize m.blockSize)

include h hR

theorem freeBlocks_trims [DecidablePred owned] {removed}
    (hpruned : Pruned null (m.table id) removed t) :
    Succeeds (onPool (freeBlocks removed)) p
      (fun _ p' ↦ Trims R owned null rest id m p (m.setTable id t) p') := by
  refine (freeBlocks_keeps h hR (.setTable m id t) hpruned.count (fun b hb ↦ (hpruned.mem b hb).2)
    hpruned.get).mono fun _ p' hp' ↦ ⟨hp'.1, hp'.2, rfl, removed, ?_⟩
  rwa [table_setTable_self]

theorem removeSkipped_trims [DecidablePred owned] (n : ℕ) :
    Succeeds (m.removeSkipped id n) p (fun m' p' ↦ Trims R owned null rest id m p m' p') := by
  unfold removeSkipped
  dsimp only
  split
  · exact .pure (.refl h)
  refine .get_bind (.bind ?_)
  rw [h.held.nullBlock]
  exact (freeBlocks_trims h hR (removeLoop_pruned null _ _)).mono (fun _ _ hp' ↦ .pure hp')

theorem removeLastState_trims [DecidablePred owned] (n : ℕ) :
    Ensures (m.removeLastState id n) p (fun m' p' ↦ Trims R owned null rest id m p m' p') := by
  unfold removeLastState
  split
  · exact .pure (.refl h)
  split
  · refine .get_bind ?_
    rw [h.held.nullBlock]
    dsimp only
    split
    · exact .throw trivial
    next b hb =>
      split
      · exact .pure (.refl h)
      next hn =>
        exact .seq (freeBlocks_trims h hR (.set hb hn)) (fun _ _ hp' ↦ .pure hp')
  · exact .pure (.refl h)

theorem removeSkippedBlocks_trims [DecidablePred owned] (n : ℕ) :
    Ensures (m.removeSkippedBlocks id n) p (fun m' p' ↦ Trims R owned null rest id m p m' p') := by
  have hbase : ∀ n, Ensures (m.removeSkipped id n) p
      (fun m' p' ↦ Trims R owned null rest id m p m' p') := fun n ↦
    (removeSkipped_trims h hR n).mono fun _ _ ht ↦ ht
  unfold removeSkippedBlocks
  split
  next mode s _ =>
    refine .seq (hbase _) fun m' p' ht ↦ ?_
    have hR' : Distinct R p'.hashBlockSize m'.blockSize := by
      rw [blockSize, ht.keeps.2.spec,
        show p'.hashBlockSize = p.hashBlockSize from congrArg Config.hashBlockSize ht.hashes.2]
      exact hR
    split
    · exact (removeLastState_trims ht.keeps.1 hR' _).mono fun _ _ ht' ↦ ht.trans ht'
    all_goals exact .pure ht
  all_goals exact hbase n

end

theorem getElem?_padded {hits : List Ref} {skipped i : ℕ} {b}
    (hi : (replicate skipped null ++ hits.drop skipped)[i]? = some b) (hn : b ≠ null) :
    hits[i]? = some b := by
  rw [getElem?_append, length_replicate] at hi
  split at hi
  · exact absurd (eq_of_mem_replicate (mem_of_getElem? hi)) hn
  next hlt => rwa [getElem?_drop, show skipped + (i - skipped) = i by omega] at hi

def withHits (m : SingleTypeKVCacheManager) (id : ReqId) (t : List Ref) : SingleTypeKVCacheManager :=
  { m with numCachedBlock := m.numCachedBlock.set id t.length }.setTable id t

theorem Retabled.withHits (m : SingleTypeKVCacheManager) (id : ReqId) (t : List Ref) :
    Retabled id t m (m.withHits id t) :=
  ⟨rfl, rfl, rfl, rfl, table_setTable_self _ _ _, fun _ h ↦ table_setTable_ne _ h _,
    fun _ _ ↦ Iff.rfl, m.occurrences_setTable id t⟩

theorem addComputedBlocks_local (m : SingleTypeKVCacheManager) (id : ReqId) (hits : List Ref)
    (n : ℕ) :
    m.addComputedBlocks id hits n 0 = (do
        if m.enableCaching then
          onPool (touch (hits.drop (m.getNumSkippedTokens n / m.blockSize)))
        else if hits.drop (m.getNumSkippedTokens n / m.blockSize) ≠ [] then
          throw .hitsWithoutCaching
        let p ← get
        pure (m.withHits id (replicate (m.getNumSkippedTokens n / m.blockSize) p.nullBlock ++
          hits.drop (m.getNumSkippedTokens n / m.blockSize))) : ManagerM _) := by
  simp [addComputedBlocks, SingleTypeKVCacheManager.withHits]

section

variable (h : Kept R owned null rest m p)

include h

theorem addComputedBlocks_keeps {hits}
    (hempty : m.table id = []) (hhits : Hits R null m p hits) (n : ℕ) :
    Ensures (m.addComputedBlocks id hits n 0) p
      (fun m' p' ↦ Keeps R owned null rest id m p m' p' ∧ SameHashes p p' ∧
        ∃ skipped, m' = m.withHits id (replicate skipped null ++ hits.drop skipped)) := by
  have htouch := touch_keeps h (.withHits m id (replicate (m.getNumSkippedTokens n / m.blockSize)
    null ++ hits.drop (m.getNumSkippedTokens n / m.blockSize))) hempty hhits
  have hend : ∀ p', Keeps R owned null rest id m p (m.withHits id
      (replicate (m.getNumSkippedTokens n / m.blockSize) null ++
        hits.drop (m.getNumSkippedTokens n / m.blockSize))) p' ∧ SameHashes p p' →
      Ensures (do
          let p ← get
          pure (m.withHits id (replicate (m.getNumSkippedTokens n / m.blockSize) p.nullBlock ++
            hits.drop (m.getNumSkippedTokens n / m.blockSize))) : ManagerM _) p'
        (fun m' p' ↦ Keeps R owned null rest id m p m' p' ∧ SameHashes p p' ∧
          ∃ skipped, m' = m.withHits id (replicate skipped null ++ hits.drop skipped)) := by
    intro p' hp'
    refine .get_bind (.pure ?_)
    rw [hp'.1.1.held.nullBlock]
    exact ⟨hp'.1, hp'.2, _, rfl⟩
  rw [addComputedBlocks_local]
  split
  · exact .seq htouch (fun _ p' hp' ↦ hend p' hp')
  split
  · exact .bind (.throw trivial)
  next hnil =>
    -- without hits there is nothing to touch
    rw [not_not.mp hnil] at htouch hend ⊢
    exact hend p (htouch.ok rfl)

theorem allocateNewComputedBlocks_keeps {hits : List Ref}
    (hhits : Hits R null m p hits) (hs : Settled null m p id) {main n : ℕ}
    (hcover : ∀ s, m.kind = .mamba .align s → hits.length ≤ cdiv main m.blockSize) :
    Ensures (m.allocateNewComputedBlocks id hits n 0) p
      (fun m' p' ↦ Keeps R owned null rest id m p m' p' ∧ SameHashes p p' ∧ Ready null m' p' id main) := by
  have hsame : Keeps R owned null rest id m p m p ∧ SameHashes p p ∧ Ready null m p id main :=
    ⟨⟨h, .refl m p⟩, ⟨rfl, rfl⟩, hs.ready main⟩
  unfold allocateNewComputedBlocks
  split
  · split
    · exact .throw trivial
    · exact .pure hsame
  split
  · split
    · exact .throw trivial
    · exact .pure hsame
  split
  · exact .throw trivial
  next hempty =>
    have hempty : m.table id = [] := not_not.mp hempty
    refine (addComputedBlocks_keeps h hempty hhits n).mono ?_
    rintro m' p' ⟨hkeeps, hhash, skipped, rfl⟩
    refine ⟨hkeeps, hhash, fun s hkind ↦ ⟨fun ha ↦ ?_, fun _ _ i b hi hb hn ↦ ?_⟩⟩
    · have hzero : s = 0 := by simpa [hempty] using (hs s hkind).1 ha
      refine ⟨by omega, fun i b hi hb _ ↦ ?_⟩
      have := (List.getElem?_eq_some_iff.mp hb).1
      omega
    · rw [(Retabled.withHits m id _).self] at hb
      have hlt := (List.getElem?_eq_some_iff.mp (getElem?_padded hb hn)).1
      have := hcover s hkind
      change cdiv main m.blockSize ≤ i at hi
      omega

theorem setTable_same : Keeps R owned null rest id m p (m.setTable id (m.table id)) p := by
  refine h.retable (.setTable m id _) h.held rfl (fun _ _ ↦ rfl) (fun _ _ _ ↦ rfl)
    (h.tables.mem id) (fun i b key hi hkey ↦ h.tables.keyed id i b key hi hkey)

theorem allocateBlocks_keeps (n : ℕ) :
    Ensures (m.allocateBlocks id n) p (fun out p' ↦ Keeps R owned null rest id m p out.1 p') := by
  unfold allocateBlocks
  dsimp only
  split
  · exact .pure (setTable_same h)
  next hlt =>
    rw [show (cdiv n m.blockSize : ℤ) - (m.table id).length =
      ((cdiv n m.blockSize - (m.table id).length : ℕ) : ℤ) by omega]
    exact .seq (getNewBlocks_keeps h (fun bs ↦ .setTable m id (m.table id ++ bs))
      (fun _ _ ↦ rfl) (fun _ _ _ hi _ ↦ hi)) fun _ _ hp' ↦ .pure hp'.1

end

def withBlocks (m : SingleTypeKVCacheManager) (id : ReqId) (s : ℕ) (t : List Ref) :
    SingleTypeKVCacheManager :=
  { m.setTable id t with
    lastStateBlockIdx := m.newLastStateBlockIdx id (m.table id).length s
    allocatedBlockReqs := m.allocatedBlockReqs.insert id }

theorem Retabled.withBlocks (m : SingleTypeKVCacheManager) (id : ReqId) (s : ℕ) (t : List Ref) :
    Retabled id t m (m.withBlocks id s t) := by
  refine ⟨rfl, rfl, rfl, rfl, m.table_setTable_self id t, fun _ h ↦ m.table_setTable_ne h t,
    fun id' hid ↦ ?_, m.occurrences_setTable id t⟩
  simp [SingleTypeKVCacheManager.withBlocks, hid]

/-- The table that `align` mode appends blocks to: its hashed blocks are in their places, and no
hash is behind them. -/
structure Extends (null : Ref) (p : BlockPool) (t : List Ref) (n : ℕ) (ext : List Ref) : Prop where
  count : ∀ b, b ≠ null → ext.count b = t.count b
  place : ∀ (i : ℕ) (b : Ref) key, ext[i]? = some b → p.blockHash b = some key → t[i]? = some b
  unhashed : Unhashed null p ext n

theorem extendTable_extends {main} (hs : Ready null m p id main) {s required ext}
    (hkind : m.kind = .mamba .align s) (hrequired : required = cdiv main m.blockSize + s)
    (hlt : (m.table id).length < required) (hnull : p.blockHash null = none)
    (h : extendTable null (decide (id ∈ m.allocatedBlockReqs)) (m.table id) required s = .ok ext) :
    Extends null p (m.table id) (cdiv main m.blockSize) ext ∧ ext.length < required := by
  obtain ⟨halloc, hnew⟩ := hs s hkind
  have hne : ∀ {b : Ref} {key}, p.blockHash b = some key → b ≠ null := by
    rintro b key hkey rfl
    simp [hnull] at hkey
  by_cases ha : id ∈ m.allocatedBlockReqs
  · obtain ⟨hlen, hun⟩ := halloc ha
    rw [decide_eq_true ha] at h
    obtain ⟨hmoved, hext⟩ := extendTable_allocated hlen hlt h
    -- what moves comes from the unhashed end of the table
    have hfrom : ∀ b, b ≠ null → (∃ j ∈ range' ((m.table id).length - s) s,
        (m.table id)[j]? = some b) → p.blockHash b = none := by
      rintro b hb ⟨j, hj, hjb⟩
      exact hun j b (mem_range'_1.mp hj).1 hjb hb
    refine ⟨⟨hmoved.count, fun i b key hi hkey ↦ ?_, fun i b hi hb hn ↦ ?_⟩, by omega⟩
    · refine (hmoved.get i b hi (hne hkey)).resolve_right fun hmv ↦ ?_
      simp [hfrom b (hne hkey) hmv] at hkey
    · rcases hmoved.get i b hb hn with hb | hmv
      · exact hun i b (by omega) hb hn
      · exact hfrom b hn hmv
  · have hun := hnew ha (by omega)
    rw [decide_eq_false ha] at h
    obtain ⟨hmoved, hext⟩ := extendTable_new h
    refine ⟨⟨hmoved.count, fun i b key hi hkey ↦ ?_, fun i b hi hb hn ↦ ?_⟩, by omega⟩
    · simpa using hmoved.get i b hi (hne hkey)
    · exact hun i b hi (by simpa using hmoved.get i b hb hn) hn

theorem allocateBlocksAlign_keeps (h : Kept R owned null rest m p) {s}
    (hkind : m.kind = .mamba .align s) (hs : Ready null m p id main) :
    Ensures (m.allocateBlocksAlign id main s) p
      (fun out p' ↦ Keeps R owned null rest id m p out.1 p' ∧ Settled null out.1 p' id ∧
        (out.1.table id).length = cdiv main m.blockSize + s) := by
  unfold allocateBlocksAlign
  dsimp only
  split
  next heq =>
    refine .pure ⟨setTable_same h, fun s' hkind' ↦ ?_, by rw [table_setTable_self, ← heq]⟩
    obtain rfl : s' = s := by simpa using hkind'.symm.trans hkind
    obtain ⟨halloc, hnew⟩ := hs s' hkind
    rw [table_setTable_self]
    by_cases ha : id ∈ m.allocatedBlockReqs
    · exact ⟨fun _ ↦ (halloc ha).1, (halloc ha).2⟩
    · exact ⟨fun ha' ↦ absurd ha' ha, (hnew ha heq.ge).mono (by omega)⟩
  split
  · exact .throw trivial
  refine .get_bind ?_
  rw [h.held.nullBlock]
  split
  · exact .throw trivial
  next ext hext =>
    refine .ite (fun _ ↦ .throw trivial) fun _ ↦ ?_
    obtain ⟨hextends, hlt⟩ := extendTable_extends hs hkind rfl (by omega) h.held.blockHash_null hext
    rw [show ((cdiv main m.blockSize + s : ℕ) : ℤ) - ext.length =
      ((cdiv main m.blockSize + s - ext.length : ℕ) : ℤ) by omega]
    refine .seq (getNewBlocks_keeps h (fun bs ↦ .withBlocks m id s (ext ++ bs))
      hextends.count hextends.place) ?_
    rintro bs p' ⟨hkeeps, hlen, hhash⟩
    have hself := (Retabled.withBlocks m id s (ext ++ bs)).self
    have hlength : ((m.withBlocks id s (ext ++ bs)).table id).length = cdiv main m.blockSize + s := by
      rw [hself, length_append, hlen]
      omega
    have hsettled : Settled null (m.withBlocks id s (ext ++ bs)) p' id := by
      intro s' hkind'
      obtain rfl : s' = s := by simpa using hkind'.symm.trans hkind
      refine ⟨fun _ ↦ by omega, fun i b hi hb hn ↦ ?_⟩
      rw [hhash]
      split
      · rfl
      next hfresh =>
        rw [hself, getElem?_append] at hb
        split at hb
        · exact hextends.unhashed i b (by omega) hb hn
        · exact absurd (mem_of_getElem? hb) hfresh
    exact .pure ⟨hkeeps, hsettled, hlength⟩

end VllmEngine.Core.SingleTypeKVCacheManager
