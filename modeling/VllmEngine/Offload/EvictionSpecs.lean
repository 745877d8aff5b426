import VllmEngine.Offload.CachePolicy

namespace VllmEngine.Offload

open Lib List ARCCachePolicy CachePolicy

def evictables (protectedKeys : List OffloadKey) (items : List CacheItem) : List CacheItem :=
  items.filter (isEvictable protectedKeys)

variable {protectedKeys : List OffloadKey} {items : List CacheItem}

theorem mem_evictables {item} : item ∈ evictables protectedKeys items ↔
      item ∈ items ∧ item.2.refCnt = 0 ∧ item.1 ∉ protectedKeys := by
  simp [evictables, isEvictable]

theorem nodup_evictables (protectedKeys)
    (h : (items.map Prod.fst).Nodup) : ((evictables protectedKeys items).map Prod.fst).Nodup :=
  h.sublist ((filter_sublist).map Prod.fst)

theorem find?_not_taken {α κ : Type} [DecidableEq κ] (key : α → κ) {l : List α} (taken : List κ)
    {i} (hl : (l.map key).Nodup) (htaken : ∀ x ∈ l, key x ∈ taken ↔ x ∈ l.take i) :
    l.find? (fun x ↦ !taken.contains (key x)) = l[i]? := by
  induction l generalizing i with
  | nil => simp
  | cons x xs ih =>
    rw [map_cons, nodup_cons] at hl
    have hx := htaken x mem_cons_self
    cases i with
    | zero =>
      rw [find?_cons_of_pos (by simpa using hx)]
      rfl
    | succ i =>
      have hmem : key x ∈ taken := hx.mpr (by simp)
      rw [find?_cons_of_neg (by simpa using hmem), getElem?_cons_succ]
      refine ih hl.2 fun y hy ↦ ?_
      have hne : y ≠ x := fun h ↦ hl.1 (h ▸ mem_map_of_mem hy)
      rw [htaken y (mem_cons_of_mem x hy), take_succ_cons, mem_cons, or_iff_right hne]

theorem LRUCachePolicy.selectLoop_eq (protectedKeys) {n}
    (items candidates) (h : candidates.length < n) :
    selectLoop protectedKeys n items candidates =
      candidates ++ (evictables protectedKeys items).take (n - candidates.length) := by
  induction items generalizing candidates with
  | nil => simp [selectLoop, evictables]
  | cons item items ih =>
    unfold selectLoop
    by_cases hitem : isEvictable protectedKeys item = true
    · have hcons : evictables protectedKeys (item :: items) =
          item :: evictables protectedKeys items := filter_cons_of_pos hitem
      rw [if_pos hitem, hcons, show n - candidates.length = n - (candidates.length + 1) + 1 by omega,
        take_succ_cons]
      split
      next hlen =>
        rw [length_append, length_singleton] at hlen
        simp [hlen]
      next hlen =>
        rw [length_append, length_singleton] at hlen
        rw [ih _ (by simp; omega)]
        simp
    · have hcons : evictables protectedKeys (item :: items) = evictables protectedKeys items :=
        filter_cons_of_neg hitem
      rw [if_neg hitem, hcons, ih _ h]

namespace ARCCachePolicy

variable (p : ARCCachePolicy) (protectedKeys : List OffloadKey)

def surplus : ℕ := ((p.t1.size : ℤ) + 1 - truncate p.targetT1Size).toNat

def firstOfT1 (i : ℕ) : List CacheItem := (evictables protectedKeys p.t1.entries).take i

def restOfT2 (i : ℕ) : List CacheItem :=
  (evictables protectedKeys p.t2.entries).filter fun item ↦
    !((p.firstOfT1 protectedKeys i).map Prod.fst).contains item.1

def chosen (i j : ℕ) : List Candidate :=
  (p.firstOfT1 protectedKeys i).map (⟨·, true⟩) ++
    ((p.restOfT2 protectedKeys i).take j).map (⟨·, false⟩)

variable {p protectedKeys}

theorem nodup_firstOfT1 (i) : ((p.firstOfT1 protectedKeys i).map Prod.fst).Nodup :=
  (nodup_evictables protectedKeys p.t1.nodup).sublist ((take_sublist i _).map Prod.fst)

theorem nodup_restOfT2 (p : ARCCachePolicy) (protectedKeys) (i) :
    ((p.restOfT2 protectedKeys i).map Prod.fst).Nodup :=
  (nodup_evictables protectedKeys p.t2.nodup).sublist ((filter_sublist).map Prod.fst)

theorem keys_chosen (i j) : (p.chosen protectedKeys i j).map (fun c ↦ c.item.1) =
      (p.firstOfT1 protectedKeys i).map Prod.fst ++
        ((p.restOfT2 protectedKeys i).take j).map Prod.fst := by
  simp only [chosen, map_append, map_map]
  rfl

theorem items_chosen (p : ARCCachePolicy) (protectedKeys) (i j) :
    (p.chosen protectedKeys i j).map Candidate.item =
      p.firstOfT1 protectedKeys i ++ (p.restOfT2 protectedKeys i).take j := by
  simp only [chosen, map_append, map_map]
  change (p.firstOfT1 protectedKeys i).map id ++ ((p.restOfT2 protectedKeys i).take j).map id = _
  rw [map_id, map_id]

variable {i : ℕ} {item : CacheItem}

theorem key_mem_iff {l : List CacheItem} (hl : (l.map Prod.fst).Nodup)
    (hitem : item ∈ l) : item.1 ∈ (l.take i).map Prod.fst ↔ item ∈ l.take i := by
  refine ⟨fun h ↦ ?_, fun h ↦ mem_map_of_mem h⟩
  obtain ⟨other, hother, heq⟩ := mem_map.mp h
  exact inj_on_of_nodup_map hl (mem_of_mem_take hother) hitem heq ▸ hother

theorem nextItem_t1 (i : ℕ) : nextItem protectedKeys (p.chosen protectedKeys i 0) p.t1.entries =
      (evictables protectedKeys p.t1.entries)[i]? := by
  have hnd := nodup_evictables protectedKeys p.t1.nodup
  have h := find?_not_taken Prod.fst ((p.firstOfT1 protectedKeys i).map Prod.fst) hnd
    fun item hitem ↦ key_mem_iff hnd hitem
  rw [← h, nextItem, keys_chosen, evictables, find?_filter]
  congr 1
  funext item
  generalize (p.firstOfT1 protectedKeys i).map Prod.fst = first
  cases isEvictable protectedKeys item <;> simp

theorem nextItem_t1_none (h : (evictables protectedKeys p.t1.entries).length ≤ i) (j) :
    nextItem protectedKeys (p.chosen protectedKeys i j) p.t1.entries = none := by
  refine find?_eq_none.mpr fun item hitem ↦ ?_
  rw [keys_chosen, firstOfT1, take_of_length_le h]
  cases hev : isEvictable protectedKeys item with
  | false => simp
  | true =>
    have hmem : item ∈ evictables protectedKeys p.t1.entries := mem_filter.mpr ⟨hitem, hev⟩
    have hkey := mem_map_of_mem (f := Prod.fst) hmem
    simp only [contains_eq_mem, mem_append, hkey, true_or, decide_true, Bool.not_true,
      Bool.and_false, Bool.false_eq_true, not_false_eq_true]

theorem nextItem_t2 (i j : ℕ) : nextItem protectedKeys (p.chosen protectedKeys i j) p.t2.entries =
      (p.restOfT2 protectedKeys i)[j]? := by
  have hnd := nodup_restOfT2 p protectedKeys i
  have h := find?_not_taken Prod.fst (((p.restOfT2 protectedKeys i).take j).map Prod.fst) hnd
    fun item hitem ↦ key_mem_iff hnd hitem
  rw [← h, nextItem, keys_chosen, restOfT2, evictables, filter_filter, find?_filter]
  congr 1
  funext item
  generalize (p.firstOfT1 protectedKeys i).map Prod.fst = first
  cases isEvictable protectedKeys item <;> simp

theorem chosen_snoc_t1 (h : (evictables protectedKeys p.t1.entries)[i]? = some item) :
    p.chosen protectedKeys i 0 ++ [⟨item, true⟩] = p.chosen protectedKeys (i + 1) 0 := by
  simp [chosen, firstOfT1, take_add_one, h]

theorem chosen_snoc_t2 {j} (h : (p.restOfT2 protectedKeys i)[j]? = some item) :
    p.chosen protectedKeys i j ++ [⟨item, false⟩] = p.chosen protectedKeys i (j + 1) := by
  simp [chosen, take_add_one, h]

theorem selectLoop_t2 {virtualT1Size} (hnone : truncate p.targetT1Size ≤ virtualT1Size →
      (evictables protectedKeys p.t1.entries).length ≤ i) (n j) :
    p.selectLoop protectedKeys n virtualT1Size (p.chosen protectedKeys i j) =
      if n ≤ (p.restOfT2 protectedKeys i).length - j then some (p.chosen protectedKeys i (j + n))
      else none := by
  induction n generalizing j with
  | zero => simp [selectLoop]
  | succ n ih =>
    have hfrom : (if truncate p.targetT1Size ≤ virtualT1Size then
        nextItem protectedKeys (p.chosen protectedKeys i j) p.t1.entries else none) = none := by
      split
      next hle => exact nextItem_t1_none (hnone hle) j
      · rfl
    rw [selectLoop]
    simp only [hfrom, nextItem_t2]
    cases hitem : (p.restOfT2 protectedKeys i)[j]? with
    | none =>
      have hlen := getElem?_eq_none_iff.mp hitem
      rw [if_neg (by omega)]
    | some item =>
      have hlen := (List.getElem?_eq_some_iff.mp hitem).1
      dsimp only
      rw [chosen_snoc_t2 hitem, ih (j + 1), show j + 1 + n = j + (n + 1) by omega]
      exact if_congr (by omega) rfl rfl

def numFromT1 (p : ARCCachePolicy) (protectedKeys : List OffloadKey) : ℕ :=
  min (evictables protectedKeys p.t1.entries).length p.surplus

theorem selectLoop_t1 (p : ARCCachePolicy) (protectedKeys)
    (hi : i ≤ p.numFromT1 protectedKeys) (n) :
    p.selectLoop protectedKeys n (p.t1.size - i) (p.chosen protectedKeys i 0) =
      if n ≤ p.numFromT1 protectedKeys - i then some (p.chosen protectedKeys (i + n) 0)
      else if n - (p.numFromT1 protectedKeys - i) ≤
          (p.restOfT2 protectedKeys (p.numFromT1 protectedKeys)).length then
        some (p.chosen protectedKeys (p.numFromT1 protectedKeys)
          (n - (p.numFromT1 protectedKeys - i)))
      else none := by
  induction n generalizing i with
  | zero => simp [selectLoop]
  | succ n ih =>
    by_cases hlt : i < p.numFromT1 protectedKeys
    · have hsize : truncate p.targetT1Size ≤ (p.t1.size : ℤ) - i := by
        unfold numFromT1 surplus at hlt
        omega
      have hlen : i < (evictables protectedKeys p.t1.entries).length := by
        unfold numFromT1 at hlt
        omega
      rw [selectLoop]
      simp only [if_pos hsize, nextItem_t1, getElem?_eq_getElem hlen]
      have hsub : (p.t1.size : ℤ) - i - 1 = p.t1.size - (i + 1 : ℕ) := by omega
      rw [chosen_snoc_t1 (getElem?_eq_getElem hlen), hsub, ih hlt,
        show i + 1 + n = i + (n + 1) by omega, show n - (p.numFromT1 protectedKeys - (i + 1)) =
          n + 1 - (p.numFromT1 protectedKeys - i) by omega]
      exact if_congr (by omega) rfl rfl
    · obtain rfl : i = p.numFromT1 protectedKeys := by omega
      have hnot : ¬ n + 1 ≤ p.numFromT1 protectedKeys - p.numFromT1 protectedKeys := by omega
      rw [if_neg hnot, selectLoop_t2 (fun hle ↦ ?_) (n + 1) 0]
      · simp only [Nat.sub_self, Nat.sub_zero, Nat.zero_add]
      · unfold numFromT1 surplus at hle ⊢
        omega

def numAvailable (p : ARCCachePolicy) (protectedKeys : List OffloadKey) : ℕ :=
  p.numFromT1 protectedKeys + (p.restOfT2 protectedKeys (p.numFromT1 protectedKeys)).length

theorem selectLoop_eq_none_iff (n) :
    p.selectLoop protectedKeys n p.t1.size [] = none ↔ p.numAvailable protectedKeys < n := by
  have h := selectLoop_t1 p protectedKeys (Nat.zero_le _) n
  have hnil : p.chosen protectedKeys 0 0 = [] := rfl
  rw [hnil, Nat.cast_zero, sub_zero] at h
  rw [h]
  unfold numAvailable
  split
  · simp only [reduceCtorEq, false_iff]
    omega
  split
  · simp only [reduceCtorEq, false_iff]
    omega
  · simp only [true_iff]
    omega

theorem selectLoop_eq_some {n candidates}
    (h : p.selectLoop protectedKeys n p.t1.size [] = some candidates) :
    ∃ i j, candidates = p.chosen protectedKeys i j ∧ i + j = n ∧
      i ≤ (evictables protectedKeys p.t1.entries).length ∧
      j ≤ (p.restOfT2 protectedKeys i).length := by
  have heq := selectLoop_t1 p protectedKeys (Nat.zero_le _) n
  have hnil : p.chosen protectedKeys 0 0 = [] := rfl
  have hfrom : p.numFromT1 protectedKeys ≤ (evictables protectedKeys p.t1.entries).length :=
    min_le_left _ _
  rw [hnil, Nat.cast_zero, sub_zero, h] at heq
  split at heq
  · exact ⟨n, 0, by simpa using heq, by omega, by omega, by omega⟩
  split at heq
  · exact ⟨_, _, by simpa using heq, by omega, hfrom, by omega⟩
  · cases heq

theorem length_chosen {j} (hi : i ≤ (evictables protectedKeys p.t1.entries).length)
    (hj : j ≤ (p.restOfT2 protectedKeys i).length) :
    (p.chosen protectedKeys i j).length = i + j := by
  simp only [chosen, firstOfT1, length_append, length_map, length_take]
  omega

theorem nodup_keys_chosen (p : ARCCachePolicy) (protectedKeys) (i j) :
    ((p.chosen protectedKeys i j).map fun c ↦ c.item.1).Nodup := by
  rw [keys_chosen]
  refine List.Nodup.append (nodup_firstOfT1 i) ?_ ?_
  · exact (nodup_restOfT2 p protectedKeys i).sublist ((take_sublist j _).map Prod.fst)
  intro key hkey hkey'
  obtain ⟨item, hitem, rfl⟩ := mem_map.mp hkey'
  have := (mem_filter.mp (mem_of_mem_take hitem)).2
  simp only [contains_eq_mem, hkey, decide_true, Bool.not_true] at this
  cases this

theorem numAvailable_le (p : ARCCachePolicy) (protectedKeys) :
    p.numAvailable protectedKeys ≤
    (evictables protectedKeys p.t1.entries).length + (evictables protectedKeys p.t2.entries).length :=
  Nat.add_le_add (min_le_left _ _) (length_filter_le _ _)

theorem evict_eq_some {n evicted p'} (h : p.evict n protectedKeys = some (evicted, p')) :
    ∃ i j, evicted = p.firstOfT1 protectedKeys i ++ (p.restOfT2 protectedKeys i).take j ∧ i + j = n ∧
      i ≤ (evictables protectedKeys p.t1.entries).length ∧
      j ≤ (p.restOfT2 protectedKeys i).length ∧
      (n = 0 ∧ p' = p ∨ p' = ((p.chosen protectedKeys i j).foldl applyEviction p).trimGhosts) := by
  unfold evict at h
  split at h
  next hzero =>
    cases h
    exact ⟨0, 0, rfl, hzero.symm, Nat.zero_le _, Nat.zero_le _, .inl ⟨hzero, rfl⟩⟩
  · split at h
    · cases h
    next candidates hsel =>
      obtain ⟨i, j, rfl, hij, hi, hj⟩ := selectLoop_eq_some hsel
      cases h
      exact ⟨i, j, items_chosen p protectedKeys i j, hij, hi, hj, .inr rfl⟩

theorem evict_eq_none_iff (n) :
    p.evict n protectedKeys = none ↔ p.numAvailable protectedKeys < n := by
  rw [← selectLoop_eq_none_iff]
  unfold evict
  split
  next hzero =>
    subst hzero
    simp [selectLoop]
  · split
    next h => simp [h]
    next h => simp [h]

end ARCCachePolicy

theorem LRUCachePolicy.evict_eq_none_iff {p : LRUCachePolicy} {n} :
    p.evict n protectedKeys = none ↔ (evictables protectedKeys p.blocks.entries).length < n := by
  unfold evict
  split
  next hzero => simp [hzero]
  next hpos =>
    have hsel := selectLoop_eq protectedKeys p.blocks.entries [] (Nat.pos_of_ne_zero hpos)
    simp only [nil_append, length_nil, Nat.sub_zero] at hsel
    rw [hsel]
    dsimp only
    rw [length_take]
    split <;> simp only [reduceCtorEq, true_iff, false_iff] <;> omega

theorem LRUCachePolicy.evict_eq_some {p p' : LRUCachePolicy} {n evicted}
    (h : p.evict n protectedKeys = some (evicted, p')) :
    evicted = (evictables protectedKeys p.blocks.entries).take n ∧ evicted.length = n ∧
      p' = ⟨evicted.foldl (fun blocks item ↦ blocks.erase item.1) p.blocks⟩ := by
  unfold evict at h
  split at h
  next hzero =>
    cases h
    simp [hzero]
  next hpos =>
    have hsel := selectLoop_eq protectedKeys p.blocks.entries [] (Nat.pos_of_ne_zero hpos)
    simp only [nil_append, length_nil, Nat.sub_zero] at hsel
    rw [hsel] at h
    dsimp only at h
    split at h
    · cases h
    next hlen =>
      cases h
      refine ⟨rfl, ?_, rfl⟩
      rw [length_take] at hlen ⊢
      omega

namespace CachePolicy

def EvictsExactly (p : CachePolicy) (n : ℕ) (protectedKeys : List OffloadKey) : Prop :=
  (p.evict n protectedKeys = none ↔ (evictables protectedKeys p.items).length < n) ∧
    ∀ evicted p', p.evict n protectedKeys = some (evicted, p') →
      evicted.length = n ∧ (evicted.map Prod.fst).Nodup ∧
        ∀ item ∈ evicted, item ∈ p.items ∧ item.2.refCnt = 0 ∧ item.1 ∉ protectedKeys

/-- The blocks of `t1` beyond the target, with those of `t2`, are enough for `n`, or even all blocks
are not. -/
def LetsGo : CachePolicy → ℕ → List OffloadKey → Prop
  | .lru _, _, _ => True
  | .arc p, n, protectedKeys =>
    n ≤ p.numAvailable protectedKeys ∨ (evictables protectedKeys (p.t1.entries ++ p.t2.entries)).length < n

theorem evictables_append (protectedKeys) (l l') :
    evictables protectedKeys (l ++ l') = evictables protectedKeys l ++ evictables protectedKeys l' :=
  filter_append ..

theorem evict_sound {p p' : CachePolicy} {n protectedKeys evicted}
    (h : p.evict n protectedKeys = some (evicted, p')) :
    evicted.length = n ∧ (evicted.map Prod.fst).Nodup ∧
      ∀ item ∈ evicted, item ∈ p.items ∧ item.2.refCnt = 0 ∧ item.1 ∉ protectedKeys := by
  cases p with
  | lru p =>
    obtain ⟨⟨evicted', p1⟩, hev, heq⟩ := Option.map_eq_some_iff.mp h
    obtain ⟨rfl, -⟩ := Prod.mk.inj heq
    obtain ⟨rfl, hlen, -⟩ := LRUCachePolicy.evict_eq_some hev
    refine ⟨hlen, ?_, fun item hitem ↦ mem_evictables.mp (mem_of_mem_take hitem)⟩
    exact (nodup_evictables protectedKeys p.blocks.nodup).sublist ((take_sublist n _).map Prod.fst)
  | arc p =>
    obtain ⟨⟨evicted', p1⟩, hev, heq⟩ := Option.map_eq_some_iff.mp h
    obtain ⟨rfl, -⟩ := Prod.mk.inj heq
    obtain ⟨i, j, rfl, rfl, hi, hj, -⟩ := evict_eq_some hev
    have hitems := items_chosen p protectedKeys i j
    rw [← hitems]
    refine ⟨?_, ?_, fun item hitem ↦ ?_⟩
    · rw [length_map, length_chosen hi hj]
    · rw [map_map]
      exact nodup_keys_chosen p protectedKeys i j
    rw [hitems, mem_append] at hitem
    rcases hitem with hitem | hitem
    · obtain ⟨hmem, hev⟩ := mem_evictables.mp (mem_of_mem_take hitem)
      exact ⟨mem_append_left _ hmem, hev⟩
    · obtain ⟨hmem, hev⟩ :=
        mem_evictables.mp (mem_filter.mp (mem_of_mem_take hitem)).1
      exact ⟨mem_append_right _ hmem, hev⟩

/-- `evict` finds the blocks that may be evicted exactly if the target of ARC holds none of them
back. -/
theorem evicts_exactly_iff (p : CachePolicy) (n : ℕ) (protectedKeys : List OffloadKey) :
    p.EvictsExactly n protectedKeys ↔ p.LetsGo n protectedKeys := by
  have hsound : ∀ evicted p', p.evict n protectedKeys = some (evicted, p') → _ :=
    fun evicted p' h ↦ evict_sound h
  cases p with
  | lru p =>
    refine ⟨fun _ ↦ trivial, fun _ ↦ ⟨?_, hsound⟩⟩
    exact Option.map_eq_none_iff.trans LRUCachePolicy.evict_eq_none_iff
  | arc p =>
    have hnone : (arc p).evict n protectedKeys = none ↔ p.numAvailable protectedKeys < n :=
      Option.map_eq_none_iff.trans (evict_eq_none_iff n)
    have hle := numAvailable_le p protectedKeys
    rw [← length_append, ← evictables_append] at hle
    rw [EvictsExactly, hnone, and_iff_left hsound]
    change (_ ↔ (evictables protectedKeys (p.t1.entries ++ p.t2.entries)).length < n) ↔ _ ∨ _
    omega

/-- Two blocks have been evicted for two others and were asked for again, so that the target has
grown to two. -/
def recentBlocks : ARCCachePolicy :=
  let p : ARCCachePolicy := { cacheCapacity := 2 }
  let p := (p.insert [1] ⟨0, 0⟩).insert [2] ⟨0, 1⟩
  let p := ((p.evict 2 []).map Prod.snd).getD p
  ((p.insert [3] ⟨0, 0⟩).insert [4] ⟨0, 1⟩).touch [[1], [1]]

theorem evict_overlooks_recent_block : ¬ (arc recentBlocks).EvictsExactly 2 [] ∧
      (arc recentBlocks).evict 2 [] = none ∧
      evictables [] (arc recentBlocks).items = [([3], ⟨0, 0⟩), ([4], ⟨0, 1⟩)] := by
  have hnone : ((arc recentBlocks).evict 2 []).isNone = true := by decide +kernel
  have hnone := Option.isNone_iff_eq_none.mp hnone
  have hitems : evictables [] (arc recentBlocks).items = [([3], ⟨0, 0⟩), ([4], ⟨0, 1⟩)] := by
    decide +kernel
  refine ⟨fun h ↦ ?_, hnone, hitems⟩
  have hlt := h.1.mp hnone
  rw [hitems] at hlt
  simp at hlt

end CachePolicy

end VllmEngine.Offload
