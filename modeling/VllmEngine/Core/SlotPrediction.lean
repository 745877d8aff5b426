import VllmEngine.Core.AlignTables
import VllmEngine.Core.KVCacheRun
import Mathlib.Algebra.BigOperators.Ring.Finset
import Mathlib.Algebra.Order.BigOperators.Group.Finset

namespace VllmEngine.Core

open Lib BlockHash BlockPool List Option Except KVCacheManager

def BlockPool.Spent (owned : Ref → Prop) (null : Ref) (L : Ledger Ref) (n : ℕ) (p : BlockPool) :
    Prop :=
  ∃ L', Refines owned null p L' ∧ L'.free ⊆ L.free ∧ L.free.length ≤ L'.free.length + n

namespace SingleTypeKVCacheManager

variable {owned : Ref → Prop} {null : Ref} {m m' : SingleTypeKVCacheManager} {p : BlockPool}
  {L : Ledger Ref} {id : ReqId}

theorem getNumEvictableBlocks_eq (h : Refines owned null p L) {bs}
    (hbs : ∀ b ∈ bs, owned b ∨ b = null) :
    getNumEvictableBlocks p bs = (bs.filter (· ∈ L.free)).length := by
  unfold getNumEvictableBlocks
  congr 1
  apply filter_congr
  intro b hb
  rw [decide_eq_decide, h.sound.mem_free, h.isNull]
  rcases hbs b hb with hown | rfl
  · simp only [h.refCnt b (h.ne_null hown), h.ne_null hown, hown]
    simp
  · simp [h.null_not_owned]

theorem getNumEvictableBlocks_drop (p) (bs) (n) :
    getNumEvictableBlocks p (bs.drop n) ≤ getNumEvictableBlocks p bs :=
  ((drop_sublist n bs).filter _).length_le

structure HitsEntered (id : ReqId) (t : ℕ) (m m' : SingleTypeKVCacheManager) : Prop where
  spec : m'.kvCacheSpec = m.kvCacheSpec
  length : (m'.table id).length = t
  allocated : id ∈ m'.allocatedBlockReqs ↔ id ∈ m.allocatedBlockReqs

def hitLength (m : SingleTypeKVCacheManager) (hits : List Ref) (n : ℕ) : ℕ :=
  max (m.getNumSkippedTokens n / m.blockSize) hits.length

theorem getNumSkippedTokens_crossAttention (hkind : m.kind = .crossAttention) (n) :
    m.getNumSkippedTokens n = 0 := by
  simp only [getNumSkippedTokens, hkind]

theorem allocateNewComputedBlocks_entered {hits} (n) (hnew : m.numCachedBlock.get? id = none)
    (htable : m.table id = []) (hcross : m.kind = .crossAttention → hits = []) :
    Ensures (m.allocateNewComputedBlocks id hits n 0) p
      (fun m' _ ↦ HitsEntered id (m.hitLength hits n) m m') := by
  refine .ite (fun hkind ↦ ?_) fun _ ↦ ?_
  · refine .ite (fun _ ↦ .throw trivial) fun _ ↦ .pure ⟨rfl, ?_, Iff.rfl⟩
    rw [htable, hitLength, getNumSkippedTokens_crossAttention hkind, hcross hkind]
    simp
  rw [if_neg (by simp [hnew]), if_neg (not_not.mpr htable)]
  refine (addComputedBlocks_retables hits n).mono fun m' _ h ↦ ?_
  obtain ⟨null, h⟩ := h
  refine ⟨h.spec, ?_, h.kept⟩
  rw [h.self, length_hitTable, hitLength]

theorem allocateNewComputedBlocks_touches {hits n} (h : Refines owned null p L)
    (hnew : m.numCachedBlock.get? id = none) (htable : m.table id = [])
    (hcaching : m.enableCaching = true) (hcross : m.kind = .crossAttention → hits = [])
    (hhits : ∀ b ∈ hits, owned b ∨ b = null) :
    Succeeds (m.allocateNewComputedBlocks id hits n 0) p (fun _ p' ↦ Refines owned null p'
        (L.touch (hits.drop (m.getNumSkippedTokens n / m.blockSize)))) := by
  refine .ite (fun hkind ↦ ?_) fun _ ↦ ?_
  · rw [if_neg (not_not.mpr (hcross hkind))]
    refine .pure ?_
    rw [hcross hkind, drop_nil, L.touch_nil]
    exact h
  rw [if_neg (by simp [hnew]), if_neg (not_not.mpr htable), addComputedBlocks_local]
  simp only [hcaching, if_true]
  have hdrop : ∀ b ∈ hits.drop (m.getNumSkippedTokens n / m.blockSize), owned b ∨ b = null :=
    fun b hb ↦ hhits b (mem_of_mem_drop hb)
  exact .andThen (onPool_ensures (touch_refines h hdrop) fun _ _ he ↦ he.elim) fun _ _ h' ↦
    .get_bind (.pure h')

def blocksTaken (m : SingleTypeKVCacheManager) (id : ReqId) (numTokens main t : ℕ) : ℕ :=
  match m.kind with
  | .mamba .align s =>
    if id ∈ m.allocatedBlockReqs then min 1 (cdiv main m.blockSize + s - t)
    else cdiv main m.blockSize + s - max t (cdiv main m.blockSize - 1)
  | .mamba .none s | .mamba .all s => cdiv (numTokens + m.blockSize * s) m.blockSize - t
  | .fullAttention | .sinkFullAttention _ | .slidingWindow _ | .chunkedLocalAttention _
  | .crossAttention => cdiv numTokens m.blockSize - t

theorem HitsEntered.blocksTaken_eq {t} (h : HitsEntered id t m m') (numTokens main) :
    m'.blocksTaken id numTokens main t = m.blocksTaken id numTokens main t := by
  simp only [blocksTaken, kind, blockSize, h.spec, h.allocated]

theorem HitsEntered.kind_eq {t} (h : HitsEntered id t m m') : m'.kind = m.kind :=
  congrArg KVCacheSpec.kind h.spec

theorem HitsEntered.blockSize_eq {t} (h : HitsEntered id t m m') : m'.blockSize = m.blockSize :=
  congrArg KVCacheSpec.blockSize h.spec

theorem allocateBlocks_takes {numTokens} (h : Refines owned null p L)
    (hfree : cdiv numTokens m.blockSize - (m.table id).length ≤ L.free.length) :
    Succeeds (m.allocateBlocks id numTokens) p (fun _ p' ↦ Refines owned null p'
        (L.take (cdiv numTokens m.blockSize - (m.table id).length))) := by
  refine .ite (fun hle ↦ .pure ?_) fun hlt ↦ ?_
  · rw [Nat.sub_eq_zero_of_le hle, L.take_zero]
    exact h
  have hnew := onPool_ensures (E := fun _ _ ↦ False) (getNewBlocks_refines h hfree) fun _ _ he ↦ he
  rw [Nat.cast_sub (Nat.le_of_not_le hlt)] at hnew
  exact .seq hnew fun _ _ h' ↦ .pure h'.2

variable {t : List Ref} {s main : ℕ}

theorem reuseLoop_returns {skipped idxs}
    (h : ∀ i ∈ idxs, i < t.length) : ∃ t', reuseLoop null skipped idxs t = .ok t' := by
  induction idxs generalizing t with
  | nil => exact ⟨t, rfl⟩
  | cons i idxs ih =>
    unfold reuseLoop
    split
    · rw [getElem?_eq_getElem (h i (by simp))]
      refine ih fun j hj ↦ ?_
      simp only [length_set, length_append, length_singleton]
      exact Nat.lt_succ_of_lt (h j (by simp [hj]))
    · exact ⟨t, rfl⟩

theorem extendTable_returns (null) {allocated} (required) (hs : allocated = true → s ≤ t.length) :
    ∃ t', extendTable null allocated t required s = .ok t' := by
  cases allocated with
  | false => exact ⟨_, rfl⟩
  | true =>
    refine reuseLoop_returns fun i hi ↦ ?_
    have hlen := hs rfl
    rw [mem_range'_1] at hi
    rw [length_append]
    omega

theorem length_extendTable {t'}
    (hs : id ∈ m.allocatedBlockReqs → s ≤ t.length) (hlt : t.length < main + s)
    (h : extendTable null (decide (id ∈ m.allocatedBlockReqs)) t (main + s) s = .ok t') :
    t'.length = if id ∈ m.allocatedBlockReqs then main + s - 1 else max t.length (main - 1) := by
  split
  next hid =>
    rw [decide_eq_true hid] at h
    exact (extendTable_allocated (hs hid) hlt h).2
  next hid =>
    rw [decide_eq_false hid] at h
    have := (extendTable_new h).2
    omega

theorem allocateBlocksAlign_takes (h : Refines owned null p L)
    (hkind : m.kind = .mamba .align s) (hs : id ∈ m.allocatedBlockReqs → s ≤ (m.table id).length)
    (hle : (m.table id).length ≤ cdiv main m.blockSize + s) (numTokens)
    (hfree : m.blocksTaken id numTokens main (m.table id).length ≤ L.free.length) :
    Succeeds (m.allocateBlocksAlign id main s) p (fun _ p' ↦ Refines owned null p'
        (L.take (m.blocksTaken id numTokens main (m.table id).length))) := by
  simp only [blocksTaken, hkind] at hfree ⊢
  refine .ite (fun heq ↦ .pure ?_) fun hne ↦ ?_
  · rw [show (if id ∈ m.allocatedBlockReqs then
        min 1 (cdiv main m.blockSize + s - (m.table id).length)
      else cdiv main m.blockSize + s - max (m.table id).length (cdiv main m.blockSize - 1)) = 0 by
        split <;> omega, L.take_zero]
    exact h
  refine .ite (fun hlt ↦ absurd hlt (by omega)) fun _ ↦ .get_bind ?_
  obtain ⟨extended, hext⟩ := extendTable_returns p.nullBlock
    (cdiv main m.blockSize + s) fun hid ↦ hs (of_decide_eq_true hid)
  have hlen := length_extendTable hs (by omega) hext
  simp only [hext]
  -- what is missing at the end is what was counted
  have htaken : ((cdiv main m.blockSize + s : ℕ) : ℤ) - extended.length =
      ((if id ∈ m.allocatedBlockReqs then min 1 (cdiv main m.blockSize + s - (m.table id).length)
      else cdiv main m.blockSize + s - max (m.table id).length (cdiv main m.blockSize - 1) : ℕ) :
        ℤ) := by
    split
    next hid => rw [if_pos hid] at hlen; omega
    next hid => rw [if_neg hid] at hlen; omega
  refine .ite (fun hmany ↦ absurd hmany ?_) fun _ ↦ ?_
  · simp only [decide_eq_true_eq]
    split
    next hid => rw [if_pos hid] at hlen; omega
    next hid => rw [if_neg hid] at hlen; omega
  rw [htaken]
  have hnew := onPool_ensures (E := fun _ _ ↦ False) (getNewBlocks_refines h hfree) fun _ _ he ↦ he
  exact .seq hnew fun _ _ h' ↦ .pure h'.2

theorem allocateNewBlocks_takes (numTokens) (h : Refines owned null p L)
    (hs : ∀ s, m.kind = .mamba .align s → id ∈ m.allocatedBlockReqs → s ≤ (m.table id).length)
    (hle : ∀ s, m.kind = .mamba .align s → (m.table id).length ≤ cdiv main m.blockSize + s)
    (hfree : m.blocksTaken id numTokens main (m.table id).length ≤ L.free.length) :
    Succeeds (m.allocateNewBlocks id numTokens main) p (fun _ p' ↦ Refines owned null p'
        (L.take (m.blocksTaken id numTokens main (m.table id).length))) := by
  unfold allocateNewBlocks
  split
  next s hkind =>
    exact allocateBlocksAlign_takes h hkind (hs s hkind) (hle s hkind) numTokens hfree
  all_goals
    next hkind =>
      simp only [blocksTaken, hkind] at hfree ⊢
      exact allocateBlocks_takes h hfree

theorem length_le_of_allocateNewBlocks {numTokens} (hkind : m.kind = .mamba .align s) {out p'}
    (h : m.allocateNewBlocks id numTokens main p = .ok out p') :
    (m.table id).length ≤ cdiv main m.blockSize + s := by
  simp only [allocateNewBlocks, hkind, allocateBlocksAlign] at h
  split at h
  · omega
  · split at h
    · cases h
    · omega

end SingleTypeKVCacheManager

namespace KVCacheManager

open SingleTypeKVCacheManager

variable {owned : Ref → Prop} {null : Ref} {k k' : KVCacheManager} {p p' : BlockPool}
  {L : Ledger Ref} {request : Request} {a : SlotArgs} {n : ℤ}
  {Q : ℕ → SingleTypeKVCacheManager → SingleTypeKVCacheManager → Prop} {α : Type}
  {f : ℕ → SingleTypeKVCacheManager → ManagerM (SingleTypeKVCacheManager × α)}
  {m : SingleTypeKVCacheManager} {ms : List SingleTypeKVCacheManager} {i : ℕ}
  {cost : ℕ → SingleTypeKVCacheManager → ℕ} {hits : List (List Ref)}

/-- The rule for a call of each manager in turn, where what is known of the pool depends on the
managers left. -/
theorem onEach_indexed {I : ℕ → BlockPool → Prop} {E} (ms) (i) (hI : I i p)
    (hstep : ∀ j m p, ms[j]? = some m → I (i + j) p →
      Ensures (f (i + j) m) p (fun out p' ↦ I (i + j + 1) p' ∧ Q (i + j) m out.1) E) :
    Ensures (onEach f i ms) p (fun out p' ↦ I (i + ms.length) p' ∧ out.1.length = ms.length ∧
        ∀ (j : ℕ) m m', ms[j]? = some m → out.1[j]? = some m' → Q (i + j) m m') E := by
  induction ms generalizing i p with
  | nil => exact .pure ⟨hI, rfl, by simp⟩
  | cons m ms ih =>
    refine .seq (hstep 0 m p rfl hI) fun out p1 hQ ↦ ?_
    have hrest := ih (i + 1) hQ.1 fun j m' p' hj hI' ↦ by
      rw [add_right_comm] at hI' ⊢
      exact hstep (j + 1) m' p' hj hI'
    refine .seq hrest fun rest p2 hQs ↦ ?_
    obtain ⟨hlast, hlen, hQs⟩ := hQs
    refine .pure ⟨?_, congrArg Nat.succ hlen, fun j m1 m1' hj hj' ↦ ?_⟩
    · rwa [length_cons, add_comm ms.length, ← add_assoc]
    cases j with
    | zero =>
      cases hj
      cases hj'
      exact hQ.2
    | succ j =>
      have := hQs j m1 m1' hj hj'
      rwa [add_assoc, add_comm 1] at this

theorem onEach_called {out} (h : onEach f i ms p = .ok out p') {j} (hj : ms[j]? = some m) :
    ∃ p1 o p2, f (i + j) m p1 = .ok o p2 := by
  induction ms generalizing i j p p' out with
  | nil => simp at hj
  | cons m1 ms ih =>
    rw [onEach, EState.bind_apply] at h
    split at h
    next o p1 hm =>
      rw [EState.bind_apply] at h
      split at h
      next rest p2 hrest =>
        cases j with
        | zero =>
          cases hj
          exact ⟨p, o, p1, hm⟩
        | succ j =>
          have := ih hrest hj
          rwa [add_assoc, add_comm 1] at this
      · cases h
    · cases h

def predictedBlocks (k : KVCacheManager) (p : BlockPool) (request : Request) (a : SlotArgs) :
    Except ManagerError ℤ :=
  getNumBlocksToAllocate p request.requestId (a.numTokensNeedSlot k request) (a.hits k)
    a.numEncoderTokens (a.numLocalComputedTokens request + a.numExternalComputedTokens)
    (a.numTokensMainModel k request) false 0 k.singleTypeManagers

/-- The calls that follow in `allocate_slots` return, and no more than `n` blocks leave the free
queue. -/
def Suffices (k : KVCacheManager) (p : BlockPool) (request : Request) (a : SlotArgs) (n : ℤ) :
    Prop :=
  ∃ k1 p1 out p2, k.enterHits request a p = .ok k1 p1 ∧
    k1.allocateNewBlocks request.requestId (a.numTokensNeedSlot k request)
      (a.numTokensMainModel k request) a.numEncoderTokens p1 = .ok out p2 ∧
    p.getNumFreeBlocks - p2.getNumFreeBlocks ≤ n

/-- The free queue and the reference counts agree, and an allocated table of `align` mode has its
speculative blocks. -/
structure InOrder (owned : Ref → Prop) (null : Ref) (k : KVCacheManager) (p : BlockPool)
    (id : ReqId) : Prop where
  books : ∃ L, Refines owned null p L
  bounded : p.getNumFreeBlocks ≤ p.numGpuBlocks
  speculative : ∀ m ∈ k.singleTypeManagers, ∀ s, m.kind = .mamba .align s →
    id ∈ m.allocatedBlockReqs → s ≤ (m.table id).length

/-- How group `i` is called: for a new request with hits, or for one without, whose computed tokens
have slots. -/
def Called (owned : Ref → Prop) (null : Ref) (request : Request) (a : SlotArgs) (i : ℕ)
    (m : SingleTypeKVCacheManager) : Prop :=
  match a.newComputedBlocks with
  | none => m.numCachedBlock.get? request.requestId = none →
      m.getNumSkippedTokens (a.numLocalComputedTokens request) / m.blockSize ≤
        (m.table request.requestId).length
  | some hits => m.numCachedBlock.get? request.requestId = none ∧ m.table request.requestId = [] ∧
      request.requestId ∉ m.allocatedBlockReqs ∧ m.enableCaching = true ∧
      ∃ l, hits[i]? = some l ∧ (m.kind = .crossAttention → l = []) ∧ ∀ b ∈ l, owned b ∨ b = null

def enteredLength (request : Request) (a : SlotArgs) (i : ℕ) (m : SingleTypeKVCacheManager) : ℕ :=
  match a.newComputedBlocks with
  | none => (m.table request.requestId).length
  | some hits => m.hitLength (hits.getD i []) (a.numLocalComputedTokens request)

def evicted (p : BlockPool) (request : Request) (a : SlotArgs) (i : ℕ)
    (m : SingleTypeKVCacheManager) : ℕ :=
  match a.newComputedBlocks with
  | none => 0
  | some hits => getNumEvictableBlocks p ((hits.getD i []).drop
      (m.getNumSkippedTokens (a.numLocalComputedTokens request) / m.blockSize))

def taken (k : KVCacheManager) (request : Request) (a : SlotArgs) (i : ℕ)
    (m : SingleTypeKVCacheManager) : ℕ :=
  m.blocksTaken request.requestId
    (if m.kind = .crossAttention then a.numEncoderTokens else a.numTokensNeedSlot k request)
    (a.numTokensMainModel k request) (enteredLength request a i m)

def upTo (ms : List SingleTypeKVCacheManager) (cost : ℕ → SingleTypeKVCacheManager → ℕ) (j : ℕ) :
    ℕ :=
  ∑ i ∈ Finset.range j, (ms[i]?).elim 0 (cost i)

abbrev total (k : KVCacheManager) (cost : ℕ → SingleTypeKVCacheManager → ℕ) : ℕ :=
  upTo k.singleTypeManagers cost k.singleTypeManagers.length

theorem upTo_succ {j} (hj : ms[j]? = some m) :
    upTo ms cost (j + 1) = upTo ms cost j + cost j m := by
  rw [upTo, Finset.sum_range_succ, hj]
  rfl

theorem upTo_le (ms) (cost : ℕ → SingleTypeKVCacheManager → ℕ)
    {j j'} (h : j ≤ j') : upTo ms cost j ≤ upTo ms cost j' :=
  Finset.sum_le_sum_of_subset (Finset.range_mono h)

theorem onEach_spent (cost : ℕ → SingleTypeKVCacheManager → ℕ) (h : Refines owned null p L)
    (hstep : ∀ j m p L', ms[j]? = some m → Refines owned null p L' → L'.free ⊆ L.free →
      L.free.length ≤ L'.free.length + upTo ms cost j →
      Succeeds (f j m) p (fun out p' ↦ Spent owned null L' (cost j m) p' ∧ Q j m out.1)) :
    Succeeds (onEach f 0 ms) p
      (fun out p' ↦ Spent owned null L (upTo ms cost ms.length) p' ∧ out.1.length = ms.length ∧
        ∀ (j : ℕ) m m', ms[j]? = some m → out.1[j]? = some m' → Q j m m') := by
  have hrule := onEach_indexed (f := f) (I := fun j p ↦ Spent owned null L (upTo ms cost j) p)
    (Q := Q) (E := fun _ _ ↦ False) (p := p) ms 0 ⟨L, h, List.Subset.refl _, by omega⟩
  simp only [zero_add] at hrule
  refine hrule fun j m p1 hj hI ↦ ?_
  obtain ⟨L', href, hsub, hlen⟩ := hI
  refine (hstep j m p1 L' hj href hsub hlen).mono fun out p' hout ↦ ⟨?_, hout.2⟩
  obtain ⟨L'', href', hsub', hlen'⟩ := hout.1
  refine ⟨L'', href', List.Subset.trans hsub' hsub, ?_⟩
  rw [upTo_succ hj]
  omega

theorem Called.new
    (hblocks : a.newComputedBlocks = some hits) (h : Called owned null request a i m) :
    m.numCachedBlock.get? request.requestId = none ∧ m.table request.requestId = [] ∧
      request.requestId ∉ m.allocatedBlockReqs ∧ m.enableCaching = true ∧
      ∃ l, hits[i]? = some l ∧ (m.kind = .crossAttention → l = []) ∧ ∀ b ∈ l, owned b ∨ b = null := by
  simpa only [Called, hblocks] using h

theorem Called.running (hblocks : a.newComputedBlocks = none)
    (h : Called owned null request a i m) (hnew : m.numCachedBlock.get? request.requestId = none) :
    m.getNumSkippedTokens (a.numLocalComputedTokens request) / m.blockSize ≤
      (m.table request.requestId).length := by
  simp only [Called, hblocks] at h
  exact h hnew

theorem enterHits_spent (h : Refines owned null p L) (hext : a.numExternalComputedTokens = 0)
    (hcalled : ∀ i m, k.singleTypeManagers[i]? = some m → Called owned null request a i m) :
    Succeeds (k.enterHits request a) p (fun k' p' ↦ Spent owned null L
          (total k (evicted p request a)) p' ∧
        k'.singleTypeManagers.length = k.singleTypeManagers.length ∧
        ∀ (i : ℕ) m m', k.singleTypeManagers[i]? = some m → k'.singleTypeManagers[i]? = some m' →
          HitsEntered request.requestId (enteredLength request a i m) m m') := by
  unfold enterHits
  cases hblocks : a.newComputedBlocks with
  | none =>
    rw [if_neg (by simp [hext])]
    refine .pure ⟨⟨L, h, List.Subset.refl _, by omega⟩, rfl, fun i m m' hm hm' ↦ ?_⟩
    obtain rfl := some.inj (hm.symm.trans hm')
    exact ⟨rfl, by rw [enteredLength, hblocks], Iff.rfl⟩
  | some hits =>
    rw [if_pos (by simp), hext]
    refine .seq (onEach_spent (evicted p request a) h
      fun j m p1 L' hj href hsub hlen ↦ ?_) fun out p' ho ↦ .pure ho
    obtain ⟨hnew, htable, -, hcaching, l, hl, hcross, hown⟩ := (hcalled j m hj).new hblocks
    have hget : hits.getD j [] = l := by rw [getD_eq_getElem?_getD, hl, getD_some]
    rw [SlotArgs.hits, hblocks, getD_some, hl]
    have hboth := (allocateNewComputedBlocks_touches href hnew
      htable hcaching hcross hown).and (allocateNewComputedBlocks_entered
      (a.numLocalComputedTokens request) hnew htable hcross)
    refine .bind (hboth.weaken (fun m' p' hm' ↦ .pure ⟨?_, ?_⟩) fun _ _ he ↦ he.1)
    · refine ⟨_, hm'.1, filter_sublist.subset, ?_⟩
      apply le_trans (href.sound.length_free_touch (l.drop
        (m.getNumSkippedTokens (a.numLocalComputedTokens request) / m.blockSize)))
      rw [evicted, hblocks]
      dsimp only
      rw [hget, getNumEvictableBlocks_eq h fun b hb ↦ hown b (mem_of_mem_drop hb)]
      refine Nat.add_le_add_left (List.Sublist.length_le ?_) _
      refine monotone_filter_right _ fun b hb ↦ ?_
      simp only [decide_eq_true_eq] at hb ⊢
      exact hsub hb
    · rw [enteredLength, hblocks]
      dsimp only
      rw [hget]
      exact hm'.2

def missing (id : ReqId) (numTokens main enc : ℕ) (_ : ℕ) (m : SingleTypeKVCacheManager) : ℕ :=
  m.blocksTaken id (if m.kind = .crossAttention then enc else numTokens) main (m.table id).length

theorem allocateNewBlocks_spent (h : Refines owned null p L) (id) (numTokens main enc)
    (hs : ∀ m ∈ k.singleTypeManagers, ∀ s, m.kind = .mamba .align s → id ∈ m.allocatedBlockReqs →
      s ≤ (m.table id).length) (hle : ∀ m ∈ k.singleTypeManagers, ∀ s, m.kind = .mamba .align s →
      (m.table id).length ≤ cdiv main m.blockSize + s)
    (hfree : total k (missing id numTokens main enc) ≤ L.free.length) :
    Succeeds (k.allocateNewBlocks id numTokens main enc) p (fun _ p' ↦ Spent owned null L
        (total k (missing id numTokens main enc)) p') := by
  refine .seq (onEach_spent (missing id numTokens main enc) (Q := fun _ _ _ ↦ True) h
    fun j m p1 L' hj href hsub hlen ↦ ?_) fun out p' ho ↦ .pure ho.1
  have hmem := mem_of_getElem? hj
  have hlast : j + 1 ≤ k.singleTypeManagers.length := (List.getElem?_eq_some_iff.mp hj).1
  have hroom := (upTo_le _ (missing id numTokens main enc) hlast).trans hfree
  rw [upTo_succ hj] at hroom
  have htakes := allocateNewBlocks_takes (if m.kind = .crossAttention then enc
    else numTokens) href (hs m hmem) (hle m hmem) (by unfold missing at *; omega)
  refine htakes.mono fun out p' h' ↦ ⟨⟨_, h', drop_subset _ _, ?_⟩, trivial⟩
  simp only [Ledger.take, length_drop, missing]
  omega

theorem upTo_congr {ms' cost'} (hlen : ms'.length = ms.length)
    (h : ∀ i m m', ms[i]? = some m → ms'[i]? = some m' → cost' i m' = cost i m) (j) :
    upTo ms' cost' j = upTo ms cost j := by
  refine Finset.sum_congr rfl fun i _ ↦ ?_
  cases hm : ms[i]? with
  | none =>
    rw [getElem?_eq_none (hlen ▸ getElem?_eq_none_iff.mp hm)]
    rfl
  | some m =>
    have hi : i < ms'.length := hlen ▸ (List.getElem?_eq_some_iff.mp hm).1
    rw [getElem?_eq_getElem hi]
    exact h i m _ hm (getElem?_eq_getElem hi)

theorem getNumBlocksToAllocate_sum {id numTokens enc total main cap}
    (h : getNumBlocksToAllocate p id numTokens hits enc total main cap i ms = .ok n) :
    ∃ c : ℕ → ℤ, n = ∑ j ∈ Finset.range ms.length, c j ∧ ∀ (j : ℕ) m, ms[j]? = some m →
      groupBlocksToAllocate p id numTokens hits enc total main cap (i + j) m = .ok (c j) := by
  induction ms generalizing i n with
  | nil =>
    cases h
    exact ⟨fun _ ↦ 0, by simp, by simp⟩
  | cons m ms ih =>
    obtain ⟨n0, hn0, h⟩ := of_bind_eq_ok h
    obtain ⟨rest, hrest, h⟩ := of_bind_eq_ok h
    cases h
    obtain ⟨c, hc, hgroups⟩ := ih hrest
    refine ⟨fun j ↦ j.casesOn n0 c, ?_, fun j m' hj ↦ ?_⟩
    · rw [length_cons, Finset.sum_range_succ', ← hc, add_comm]
      rfl
    cases j with
    | zero =>
      cases hj
      exact hn0
    | succ j =>
      have := hgroups j m' hj
      rwa [add_assoc, add_comm 1] at this

def groupHits (a : SlotArgs) (i : ℕ) : List Ref :=
  a.newComputedBlocks.elim [] (·.getD i [])

theorem numBlocksToAllocate_exact {tokens c} (hcalled : Called owned null request a i m)
    (h : m.numBlocksToAllocate p request.requestId tokens (groupHits a i)
      (a.numLocalComputedTokens request) false = .ok c) :
    c = evicted p request a i m + (cdiv tokens m.blockSize - enteredLength request a i m) := by
  unfold numBlocksToAllocate at h
  dsimp only at h
  cases hblocks : a.newComputedBlocks with
  | none =>
    have hhits : groupHits a i = [] := by rw [groupHits, hblocks]; rfl
    simp only [evicted, enteredLength, hblocks, zero_add]
    rw [hhits] at h
    split at h
    · rw [if_neg (not_not.mpr rfl)] at h
      exact (ok.inj h).symm
    next hnew =>
      have hskip := hcalled.running hblocks (by simpa using hnew)
      rw [← ok.inj h]
      simp only [length_nil, drop_nil, getNumEvictableBlocks, filter_nil,
        zero_add, max_eq_right hskip, add_zero]
  | some hits =>
    have hhits : groupHits a i = hits.getD i [] := by rw [groupHits, hblocks]; rfl
    obtain ⟨hnew, htable, -⟩ := hcalled.new hblocks
    rw [if_neg (by simp [hnew]), htable, hhits] at h
    simp only [evicted, enteredLength, hblocks]
    rw [← ok.inj h]
    exact add_comm _ _

theorem numBlocksToAllocate_crossAttention {id tokens l cap} (hkind : m.kind = .crossAttention)
    (total total') :
    m.numBlocksToAllocate p id tokens l total cap = m.numBlocksToAllocate p id tokens l total' cap := by
  simp only [numBlocksToAllocate, getNumSkippedTokens_crossAttention hkind]

theorem of_map_cast_eq_ok {x : Except ManagerError ℕ} {c}
    (h : (x.map Nat.cast : Except ManagerError ℤ) = .ok c) : ∃ c0 : ℕ, x = .ok c0 ∧ c = c0 := by
  cases x with
  | error e => cases h
  | ok c0 => exact ⟨c0, rfl, (ok.inj h).symm⟩

theorem groupHits_of_hits {l} (hl : (a.hits k)[i]? = some l) : groupHits a i = l := by
  rw [SlotArgs.hits] at hl
  cases hblocks : a.newComputedBlocks with
  | none =>
    rw [hblocks, getD_none] at hl
    rw [groupHits, hblocks, eq_of_mem_replicate (mem_of_getElem? hl)]
    rfl
  | some hits =>
    rw [hblocks, getD_some] at hl
    rw [groupHits, hblocks, elim_some, getD_eq_getElem?_getD, hl, getD_some]

theorem Called.groupHits_crossAttention
    (h : Called owned null request a i m) (hkind : m.kind = .crossAttention) : groupHits a i = [] := by
  cases hblocks : a.newComputedBlocks with
  | none => rw [groupHits, hblocks]; rfl
  | some hits =>
    obtain ⟨-, -, -, -, l, hl, hcross, -⟩ := h.new hblocks
    rw [groupHits, hblocks, elim_some, getD_eq_getElem?_getD, hl, getD_some, hcross hkind]

theorem numBlocksToAllocateAlign_covers {s}
    (hkind : m.kind = .mamba .align s) (hcalled : Called owned null request a i m)
    (hfit : enteredLength request a i m ≤ cdiv (a.numTokensMainModel k request) m.blockSize + s) :
    ((evicted p request a i m + taken k request a i m : ℕ) : ℤ) ≤
      m.numBlocksToAllocateAlign p request.requestId (groupHits a i)
        (a.numTokensMainModel k request) s := by
  have hevicted : evicted p request a i m ≤ getNumEvictableBlocks p (groupHits a i) := by
    cases hblocks : a.newComputedBlocks with
    | none => simp only [evicted, hblocks]; exact Nat.zero_le _
    | some hits =>
      simp only [evicted, groupHits, hblocks]
      exact getNumEvictableBlocks_drop p _ _
  have hlong : (groupHits a i).length + (m.table request.requestId).length ≤
      enteredLength request a i m := by
    cases hblocks : a.newComputedBlocks with
    | none => simp only [groupHits, enteredLength, hblocks, elim_none, length_nil]; omega
    | some hits =>
      obtain ⟨-, htable, -⟩ := hcalled.new hblocks
      simp only [groupHits, enteredLength, hblocks, elim_some, htable, length_nil, hitLength]
      omega
  have hallocated : request.requestId ∈ m.allocatedBlockReqs →
      (groupHits a i).length + (m.table request.requestId).length = enteredLength request a i m := by
    intro hid
    cases hblocks : a.newComputedBlocks with
    | none => simp only [groupHits, enteredLength, hblocks, elim_none, length_nil]; omega
    | some hits => exact absurd hid (hcalled.new hblocks).2.2.1
  simp only [numBlocksToAllocateAlign, taken, blocksTaken, hkind]
  split <;> split <;> omega

/-- The answer of a group is not negative and, unless the group asks for more blocks than there are,
at least what it lets leave the queue. -/
theorem groupBlocksToAllocate_covers {c}
    (hext : a.numExternalComputedTokens = 0) (hcalled : Called owned null request a i m)
    (hfit : ∀ s, m.kind = .mamba .align s → enteredLength request a i m ≤
      cdiv (a.numTokensMainModel k request) m.blockSize + s)
    (h : groupBlocksToAllocate p request.requestId (a.numTokensNeedSlot k request) (a.hits k)
      a.numEncoderTokens (a.numLocalComputedTokens request + a.numExternalComputedTokens)
      (a.numTokensMainModel k request) false i m = .ok c) :
    0 ≤ c ∧ (c ≤ p.numGpuBlocks →
      ((evicted p request a i m + taken k request a i m : ℕ) : ℤ) ≤ c) := by
  have hexact : ∀ {tokens}, (m.numBlocksToAllocate p request.requestId tokens (groupHits a i)
      (a.numLocalComputedTokens request) false).map Nat.cast = .ok c →
      taken k request a i m = cdiv tokens m.blockSize - enteredLength request a i m →
      0 ≤ c ∧ (c ≤ p.numGpuBlocks →
        ((evicted p request a i m + taken k request a i m : ℕ) : ℤ) ≤ c) := by
    intro tokens hc htaken
    obtain ⟨c0, hc0, rfl⟩ := of_map_cast_eq_ok hc
    rw [numBlocksToAllocate_exact hcalled hc0, htaken]
    exact ⟨Int.natCast_nonneg _, fun _ ↦ le_refl _⟩
  unfold groupBlocksToAllocate at h
  split at h
  next hcross =>
    simp only [SingleTypeKVCacheManager.getNumBlocksToAllocate, hcross] at h
    rw [← hcalled.groupHits_crossAttention hcross, numBlocksToAllocate_crossAttention hcross 0
      (a.numLocalComputedTokens request)] at h
    exact hexact h (by simp only [taken, blocksTaken, hcross, if_true])
  next hcross =>
    split at h
    · cases h
    next l hl =>
      rw [← groupHits_of_hits hl, hext, add_zero] at h
      unfold SingleTypeKVCacheManager.getNumBlocksToAllocate at h
      split at h
      next mode s hkind =>
        split at h
        · rw [← ok.inj h]
          omega
        split at h
        · have hcovers := numBlocksToAllocateAlign_covers (p := p) hkind hcalled (hfit s hkind)
          rw [← ok.inj h]
          exact ⟨le_trans (Int.natCast_nonneg _) hcovers, fun _ ↦ hcovers⟩
        all_goals
          exact hexact h (by rw [taken, if_neg hcross]; simp only [blocksTaken, hkind])
      all_goals
        next hkind =>
          exact hexact h (by rw [taken, if_neg hcross]; simp only [blocksTaken, hkind])

def TablesFit (k : KVCacheManager) (request : Request) (a : SlotArgs) : Prop :=
  ∀ (i : ℕ) m s, k.singleTypeManagers[i]? = some m → m.kind = .mamba .align s →
    enteredLength request a i m ≤ cdiv (a.numTokensMainModel k request) m.blockSize + s

theorem predictedBlocks_covers (hext : a.numExternalComputedTokens = 0)
    (hcalled : ∀ i m, k.singleTypeManagers[i]? = some m → Called owned null request a i m)
    (hfit : TablesFit k request a) (hn : k.predictedBlocks p request a = .ok n)
    (hle : n ≤ p.numGpuBlocks) :
    ((total k (evicted p request a) + total k (taken k request a) : ℕ) : ℤ) ≤ n := by
  obtain ⟨c, rfl, hgroups⟩ := getNumBlocksToAllocate_sum hn
  simp only [Nat.zero_add] at hgroups
  have hcovers : ∀ j ∈ Finset.range k.singleTypeManagers.length, 0 ≤ c j ∧
      (c j ≤ p.numGpuBlocks → (((k.singleTypeManagers[j]?).elim 0 (evicted p request a j) +
        (k.singleTypeManagers[j]?).elim 0 (taken k request a j) : ℕ) : ℤ) ≤ c j) := by
    intro j hj
    have hget := getElem?_eq_getElem (Finset.mem_range.mp hj)
    rw [hget]
    exact groupBlocksToAllocate_covers hext (hcalled j _ hget) (fun s ↦ hfit j _ s hget)
      (hgroups j _ hget)
  rw [total, total, upTo, upTo, ← Finset.sum_add_distrib, Nat.cast_sum]
  apply Finset.sum_le_sum
  intro j hj
  apply (hcovers j hj).2
  exact (Finset.single_le_sum (fun j' hj' ↦ (hcovers j' hj').1) hj).trans hle

/-- If the predicted number of blocks is free, the calls that follow succeed and let no more leave
the free queue, exactly if no group of `align` mode has a longer table than it requires. -/
theorem predicted_blocks_suffice_iff (h : InOrder owned null k p request.requestId)
    (hext : a.numExternalComputedTokens = 0)
    (hcalled : ∀ (i : ℕ) m, k.singleTypeManagers[i]? = some m → Called owned null request a i m)
    (hn : k.predictedBlocks p request a = .ok n) (hfree : n ≤ p.getNumFreeBlocks) :
    Suffices k p request a n ↔ TablesFit k request a := by
  obtain ⟨L, href⟩ := h.books
  have hhits := enterHits_spent href hext hcalled
  constructor
  · rintro ⟨k1, p1, out, p2, hhit, hnew, -⟩ i m s hi hkind
    obtain ⟨-, hlen, hentered⟩ := hhits.ok hhit
    have hi1 : i < k1.singleTypeManagers.length := hlen ▸ (List.getElem?_eq_some_iff.mp hi).1
    have hget := getElem?_eq_getElem hi1
    have hm1 := hentered i m _ hi hget
    rw [allocateNewBlocks, EState.bind_apply] at hnew
    split at hnew
    next heach =>
      obtain ⟨p3, o, p4, hcall⟩ := onEach_called heach hget
      have := length_le_of_allocateNewBlocks (hm1.kind_eq.trans hkind) hcall
      rwa [hm1.length, hm1.blockSize_eq] at this
    · cases hnew
  · intro hfit
    have hcovers := predictedBlocks_covers hext hcalled hfit hn (hfree.trans h.bounded)
    rw [href.numFree] at hfree
    obtain ⟨k1, p1, hhit, ⟨L1, href1, -, hspent1⟩, hlen, hentered⟩ := hhits.exists_ok
    have htaken : total k1 (missing request.requestId (a.numTokensNeedSlot k request)
        (a.numTokensMainModel k request) a.numEncoderTokens) = total k (taken k request a) := by
      rw [total, hlen]
      refine upTo_congr hlen (fun i m m' hm hm' ↦ ?_) _
      have he := hentered i m m' hm hm'
      rw [missing, taken, he.length, he.blocksTaken_eq, he.kind_eq]
    have hsource : ∀ m' ∈ k1.singleTypeManagers, ∃ i m, k.singleTypeManagers[i]? = some m ∧
        HitsEntered request.requestId (enteredLength request a i m) m m' := by
      intro m' hm'
      obtain ⟨i, hi⟩ := mem_iff_getElem?.mp hm'
      have hi1 : i < k.singleTypeManagers.length := hlen ▸ (List.getElem?_eq_some_iff.mp hi).1
      exact ⟨i, _, getElem?_eq_getElem hi1, hentered i _ m' (getElem?_eq_getElem hi1) hi⟩
    have hblocks := allocateNewBlocks_spent (k := k1) href1 request.requestId
      (a.numTokensNeedSlot k request) (a.numTokensMainModel k request) a.numEncoderTokens ?_ ?_
      (by omega)
    · obtain ⟨out, p2, hnew, L2, href2, -, hspent2⟩ := hblocks.exists_ok
      refine ⟨k1, p1, out, p2, hhit, hnew, ?_⟩
      rw [href.numFree, href2.numFree]
      omega
    · intro m' hm' s hkind hid
      obtain ⟨i, m, hm, he⟩ := hsource m' hm'
      have hid := he.allocated.mp hid
      cases hblocks : a.newComputedBlocks with
      | none =>
        rw [he.length, enteredLength, hblocks]
        exact h.speculative m (mem_of_getElem? hm) s (he.kind_eq ▸ hkind) hid
      | some hits => exact absurd hid ((hcalled i m hm).new hblocks).2.2.1
    · intro m' hm' s hkind
      obtain ⟨i, m, hm, he⟩ := hsource m' hm'
      rw [he.length, he.blockSize_eq]
      exact hfit i m s hm (he.kind_eq ▸ hkind)

theorem Sane.inOrder {R N reserved}
    (h : Sane R (Usable N reserved) null k p) (hN : p.numGpuBlocks = N) (id) :
    InOrder (Usable N reserved) null k p id := by
  obtain ⟨L, href, -⟩ := h.joint.held.counted
  refine ⟨⟨L, href⟩, ?_, fun m hm s hkind ↦ (h.settled m hm id s hkind).1⟩
  have hle : L.free.length ≤ ((range N).map Ref.blk).length :=
    (href.sound.nodup.subperm fun r hr ↦ ((href.sound.mem_free r).mp hr).1.1).length_le
  rw [length_map, length_range] at hle
  rw [href.numFree, hN]
  exact_mod_cast hle

def slotError (k : KVCacheManager) (p : BlockPool) (request : Request) (a : SlotArgs) :
    Option ManagerError :=
  match k.enterHits request a p with
  | .error e _ => some e
  | .ok k1 p1 =>
    match k1.allocateNewBlocks request.requestId (a.numTokensNeedSlot k request)
      (a.numTokensMainModel k request) a.numEncoderTokens p1 with
    | .error e _ => some e
    | .ok .. => none

theorem not_suffices_of_slotError {e} (h : k.slotError p request a = some e) :
    ¬ Suffices k p request a n := by
  rintro ⟨k1, p1, out, p2, hhit, hnew, -⟩
  simp only [slotError, hhit, hnew] at h
  cases h

/-- The test of `allocate_slots` and what follows: the predicted number of blocks, the number of
free ones and the error. -/
def slotTest (k : KVCacheManager) (p : BlockPool) (request : Request) (a : SlotArgs) :
    Option (ℤ × ℤ × Option ManagerError) :=
  match k.removeSkippedBlocks request.requestId (a.totalComputedTokens k request) p with
  | .error .. => none
  | .ok k' p' =>
    match k'.predictedBlocks p' request a with
    | .error _ => none
    | .ok n => some (n, p'.getNumFreeBlocks, k'.slotError p' request a)

theorem not_suffices_of_slotTest {free e} (h : k.slotTest p request a = some (n, free, some e)) :
    ∃ k' p', k.removeSkippedBlocks request.requestId (a.totalComputedTokens k request) p = .ok k' p' ∧
      k'.predictedBlocks p' request a = .ok n ∧ p'.getNumFreeBlocks = free ∧
      ¬ Suffices k' p' request a n := by
  unfold slotTest at h
  split at h
  · cases h
  next k' p' hremove =>
    split at h
    · cases h
    next n' hn =>
      simp only [some.injEq, Prod.mk.injEq] at h
      obtain ⟨rfl, hfree, herror⟩ := h
      exact ⟨k', p', hremove, hn, hfree, not_suffices_of_slotError herror⟩

def afterCalls (H : Hashing) (cfg : KVCacheManagerConfig) :
    List Call → Except ManagerError (KVCacheManager × BlockPool)
  | [] => init cfg
  | c :: cs =>
    match afterCalls H cfg cs with
    | .error e => .error e
    | .ok (k, p) =>
      match c.run H k p with
      | .error e _ => .error e
      | .ok k' p' => .ok (k', p')

def draftGroups : KVCacheManagerConfig where
  kvCacheConfig := {
    numBlocks := 20
    kvCacheGroups := [{ kvCacheSpec := { kind := .fullAttention, blockSize := 4 } },
      { kvCacheSpec := { kind := .mamba .align 3, blockSize := 4 } }] }
  maxModelLen := 100
  hashBlockSize := 4

def emptyHashing : Hashing := ⟨fun _ ↦ [], fun _ ↦ [], []⟩

def prompt : Request := { requestId := "a", allTokenIds := [0, 1] }

def draftCalls : List Call :=
  [.runningRequest { prompt with allTokenIds := [0, 1, 7], numComputedTokens := 2 }
      { numNewTokens := 4, numLookaheadTokens := 3 },
    .newRequest prompt { numNewTokens := 2, numLookaheadTokens := 3 }]

def afterDrafts : Request := { prompt with allTokenIds := [0, 1, 7, 8], numComputedTokens := 3 }

/-- If the next step has no drafts, the group of `align` mode answers `-1` and refuses a table of
five blocks where four are required. -/
theorem predicted_blocks_insufficient_after_drafts :
    ∃ k p k' p', afterCalls emptyHashing draftGroups draftCalls = .ok (k, p) ∧
      k.removeSkippedBlocks "a" (SlotArgs.totalComputedTokens k { numNewTokens := 1 } afterDrafts) p =
        .ok k' p' ∧
      k'.predictedBlocks p' afterDrafts { numNewTokens := 1 } = .ok (-1) ∧
      -1 ≤ p'.getNumFreeBlocks ∧ ¬ Suffices k' p' afterDrafts { numNewTokens := 1 } (-1) := by
  have hrun : ∃ out ∈ (afterCalls emptyHashing draftGroups draftCalls).toOption,
      out.1.slotTest out.2 afterDrafts { numNewTokens := 1 } =
        some (-1, 11, some .fewerBlocksRequired) := by
    decide +kernel
  obtain ⟨⟨k, p⟩, hcalls, htest⟩ := hrun
  obtain ⟨k', p', hremove, hn, hfree, hnot⟩ := not_suffices_of_slotTest htest
  exact ⟨k, p, k', p', of_toOption_eq_some hcalls, hremove, hn, by omega, hnot⟩

theorem predicted_blocks_suffice_for_prompt : ∃ k p, init draftGroups = .ok (k, p) ∧
      k.predictedBlocks p prompt { numNewTokens := 2, numLookaheadTokens := 3 } = .ok 6 ∧
      Suffices k p prompt { numNewTokens := 2, numLookaheadTokens := 3 } 6 := by
  obtain ⟨pool, k, hpool, hinit, hnew, hn⟩ : ∃ pool k,
      BlockPool.init 20 true 4 false false = .ok pool ∧
      init draftGroups = .ok (k, pool) ∧
      (∀ m ∈ k.singleTypeManagers, m.allocatedBlockReqs = [] ∧ m.table prompt.requestId = [] ∧
        m.getNumSkippedTokens 0 = 0) ∧
      k.predictedBlocks pool prompt { numNewTokens := 2, numLookaheadTokens := 3 } = .ok 6 :=
    ⟨_, _, rfl, rfl, by simp only [forall_mem_cons]; decide, rfl⟩
  obtain ⟨href, -, hgpu, -⟩ := init_refines hpool
  have hfree := href.numFree
  rw [length_map, length_range'] at hfree
  have horder : InOrder (Usable 20 []) (.blk 0) k pool prompt.requestId := by
    refine ⟨⟨_, href⟩, by omega, fun m hm s _ hid ↦ ?_⟩
    rw [(hnew m hm).1] at hid
    cases hid
  refine ⟨k, pool, hinit, hn, (predicted_blocks_suffice_iff horder rfl (fun i m hm ↦ ?_) hn
    (by omega)).mpr ?_⟩
  · intro _
    change m.getNumSkippedTokens 0 / m.blockSize ≤ _
    rw [(hnew m (mem_of_getElem? hm)).2.2, Nat.zero_div]
    exact Nat.zero_le _
  · intro i m s hm hkind
    change (m.table prompt.requestId).length ≤ _
    rw [(hnew m (mem_of_getElem? hm)).2.1]
    exact Nat.zero_le _

end KVCacheManager

end VllmEngine.Core
