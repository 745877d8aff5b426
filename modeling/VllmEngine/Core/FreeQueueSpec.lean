import VllmEngine.Core.FreeQueue
import VllmEngine.Lib.Linked
import VllmEngine.Lib.Triple

namespace VllmEngine.Core.FreeKVCacheBlockQueue

open Lib List EState

structure Holds (q : FreeKVCacheBlockQueue) (l : List Ref) : Prop where
  linked : Linked q.nextFreeBlock q.prevFreeBlock (.head :: l ++ [.tail])
  nodup : (Ref.head :: l ++ [Ref.tail]).Nodup
  stop : q.nextFreeBlock .tail = none
  count : q.numFreeBlocks = l.length

theorem nodup_ends_iff {l} :
    (Ref.head :: l ++ [Ref.tail]).Nodup ↔ l.Nodup ∧ Ref.head ∉ l ∧ Ref.tail ∉ l := by
  simp only [cons_append, nodup_cons, nodup_append, mem_append,
    mem_singleton, not_or, nodup_nil, not_mem_nil]
  constructor
  · rintro ⟨⟨hh, -⟩, hl, -, ht⟩
    exact ⟨hl, hh, fun h ↦ ht _ h _ rfl rfl⟩
  rintro ⟨hl, hh, ht⟩
  refine ⟨⟨hh, by simp⟩, hl, by simp, ?_⟩
  rintro a ha b rfl rfl
  exact ht ha

variable {q : FreeKVCacheBlockQueue} {l : List Ref}

theorem Holds.nodup_blocks (h : Holds q l) : l.Nodup := (nodup_ends_iff.mp h.nodup).1

theorem Holds.tail_not_mem (h : Holds q l) : Ref.tail ∉ l := (nodup_ends_iff.mp h.nodup).2.2

theorem init_linked (n) (k) (hk : k ≤ n) :
    Linked (init n).nextFreeBlock (init n).prevFreeBlock
      (.head :: (range k).map .blk ++ [if k = n then .tail else .blk k]) := by
  induction k with
  | zero =>
    refine isChain_pair.mpr ⟨?_, ?_⟩ <;> by_cases hn : n = 0 <;> simp [init, hn, eq_comm]
  | succ k ih =>
    have ih := ih (by omega)
    rw [if_neg (by omega)] at ih
    rw [range_succ, map_append, map_singleton, ← cons_append, append_assoc]
    refine Linked.join.mpr ⟨ih, ⟨?_, ?_⟩, .singleton _⟩
    · by_cases hn : k + 1 = n
      · simp [init, ← hn]
      · simp [init, hn, show k < n by omega, show ¬ k = n - 1 by omega]
    · by_cases hn : k + 1 = n
      · simp [init, ← hn]
      · simp [init, hn, show k + 1 < n by omega]

theorem init_holds (n) : Holds (init n) ((range n).map .blk) where
  linked := by simpa only [if_pos] using init_linked n n le_rfl
  nodup := by
    refine nodup_ends_iff.mpr ⟨?_, by simp, by simp⟩
    exact nodup_range.map (fun a b h ↦ by simpa using h)
  stop := rfl
  count := by simp [init]

def clear : List Ref → FreeKVCacheBlockQueue → FreeKVCacheBlockQueue
  | [], q => q
  | b :: bs, q => clear bs (setNext b none (setPrev b none q))

section

variable (bs : List Ref)

theorem clear_next (r) :
    (clear bs q).nextFreeBlock r = if r ∈ bs then none else q.nextFreeBlock r := by
  induction bs generalizing q with
  | nil => simp [clear]
  | cons b bs ih =>
    rw [clear, ih]
    by_cases hr : r = b <;> by_cases hm : r ∈ bs <;> simp [setNext, setPrev, hr, hm]

theorem clear_prev (r) :
    (clear bs q).prevFreeBlock r = if r ∈ bs then none else q.prevFreeBlock r := by
  induction bs generalizing q with
  | nil => simp [clear]
  | cons b bs ih =>
    rw [clear, ih]
    by_cases hr : r = b <;> by_cases hm : r ∈ bs <;> simp [setNext, setPrev, hr, hm]

theorem clear_numFreeBlocks : (clear bs q).numFreeBlocks = q.numFreeBlocks := by
  induction bs generalizing q with
  | nil => rfl
  | cons b bs ih => exact ih

theorem popleftLoop_eq (c) (hd : (bs ++ [c]).Nodup)
    (h : Linked q.nextFreeBlock q.prevFreeBlock (bs ++ [c])) :
    popleftLoop bs.length (bs ++ [c]).head? q = .ok (bs, some c) (clear bs q) := by
  induction bs generalizing q with
  | nil => rfl
  | cons b bs ih =>
    obtain ⟨hb, hbs⟩ : b ∉ bs ++ [c] ∧ (bs ++ [c]).Nodup := nodup_cons.mp hd
    have hnext : q.nextFreeBlock b = (bs ++ [c]).head? := by
      cases bs with
      | nil => exact h.next_eq []
      | cons b' bs => exact h.next_eq []
    have hrest : Linked (setNext b none (setPrev b none q)).nextFreeBlock
        (setNext b none (setPrev b none q)).prevFreeBlock (bs ++ [c]) := by
      refine (h.right [b]).congr (fun x hx ↦ ?_) (fun x hx ↦ ?_)
      · have hxb : x ≠ b := fun e ↦ hb (e ▸ dropLast_subset _ hx)
        exact Function.update_of_ne hxb _ _
      · have hxb : x ≠ b := fun e ↦ hb (e ▸ mem_of_mem_tail hx)
        exact Function.update_of_ne hxb _ _
    simp only [cons_append, length_cons, head?_cons, popleftLoop, bind_apply,
      get_apply, modify_apply, hnext, ih hbs hrest, pure_apply, clear]

end

theorem exists_cons_tail (l) : ∃ c rest, l ++ [Ref.tail] = c :: rest := by
  cases l with
  | nil => exact ⟨_, _, rfl⟩
  | cons b l => exact ⟨_, _, rfl⟩

theorem exists_head_concat (l) : ∃ rest a, Ref.head :: l = rest ++ [a] :=
  ⟨_, _, (dropLast_append_getLast (cons_ne_nil _ _)).symm⟩

theorem Holds.next_head (h : Holds q l) : q.nextFreeBlock .head = (l ++ [Ref.tail]).head? := by
  obtain ⟨c, rest, hc⟩ := exists_cons_tail l
  have hl := h.linked
  rw [cons_append, hc] at hl
  rw [hc]
  exact hl.next_eq []

theorem Holds.unlink {q' l2 rest c} (l1 bs pre) (a)
    (h : Holds q (l1 ++ bs ++ l2)) (ha : .head :: l1 = pre ++ [a]) (hc : l2 ++ [.tail] = c :: rest)
    (hac : q'.nextFreeBlock a = some c) (hca : q'.prevFreeBlock c = some a)
    (hn : ∀ x, x ≠ a → x ∉ bs → q'.nextFreeBlock x = q.nextFreeBlock x)
    (hp : ∀ x, x ≠ c → x ∉ bs → q'.prevFreeBlock x = q.prevFreeBlock x)
    (hnum : q'.numFreeBlocks = q.numFreeBlocks - bs.length) : Holds q' (l1 ++ l2) := by
  have hshape : Ref.head :: (l1 ++ bs ++ l2) ++ [.tail] = pre ++ a :: bs ++ c :: rest := by
    calc Ref.head :: (l1 ++ bs ++ l2) ++ [.tail] = (.head :: l1) ++ (bs ++ (l2 ++ [.tail])) := by simp
      _ = pre ++ a :: bs ++ c :: rest := by rw [ha, hc]; simp
  have hshape' : Ref.head :: (l1 ++ l2) ++ [.tail] = pre ++ a :: c :: rest := by
    calc Ref.head :: (l1 ++ l2) ++ [.tail] = (.head :: l1) ++ (l2 ++ [.tail]) := by simp
      _ = pre ++ a :: c :: rest := by rw [ha, hc]; simp
  have hd := h.nodup
  have hl := h.linked
  have hends := nodup_ends_iff.mp hd
  rw [hshape] at hl hd
  refine ⟨?_, nodup_ends_iff.mpr ⟨?_, ?_, ?_⟩, ?_, ?_⟩
  · rw [hshape']
    exact hl.cut hd hac hca hn hp
  · exact hends.1.sublist (by simp)
  · exact fun hm ↦ hends.2.1 (by simp at hm ⊢; tauto)
  · exact fun hm ↦ hends.2.2 (by simp at hm ⊢; tauto)
  · have hta : Ref.tail ≠ a := by
      have : a ∈ Ref.head :: l1 := by simp [ha]
      rintro rfl
      rcases mem_cons.mp this with e | e
      · cases e
      · exact hends.2.2 (by simp [e])
    rw [hn _ hta (fun hm ↦ hends.2.2 (by simp [hm])), h.stop]
  · rw [hnum, h.count]
    simp only [length_append]
    omega

theorem popleft_holds {b} (h : Holds q (b :: l)) : ∃ q', popleft q = .ok b q' ∧ Holds q' l := by
  obtain ⟨c, rest, hc⟩ := exists_cons_tail l
  have hfirst : q.nextFreeBlock .head = some b := h.next_head
  have hb : b ≠ .tail := fun e ↦ h.tail_not_mem (by simp [e])
  have hbh : b ≠ .head := fun e ↦ (nodup_ends_iff.mp h.nodup).2.1 (by simp [e])
  have hsecond : q.nextFreeBlock b = some c := by
    have hl := h.linked
    rw [show Ref.head :: b :: l ++ [.tail] = [.head] ++ b :: (l ++ [.tail]) from rfl, hc] at hl
    exact hl.next_eq [.head]
  have hbc : c ≠ b := by
    have hd := h.nodup
    rw [show Ref.head :: b :: l ++ [.tail] = [.head] ++ b :: (l ++ [.tail]) from rfl, hc] at hd
    simp at hd
    tauto
  refine ⟨addFree (-1) (setNext b none (setPrev b none
    (setPrev c (some .head) (setNext .head (some c) q)))), ?_, ?_⟩
  · cases b <;> simp_all [popleft]
  refine Holds.unlink [] [b] [] .head h rfl hc ?_ ?_ ?_ ?_ ?_
  · simp [addFree, setNext, setPrev, hbh.symm]
  · simp [addFree, setNext, setPrev, hbc]
  · intro x hx hxb
    simp at hxb
    simp [addFree, setNext, setPrev, hx, hxb]
  · intro x hx hxb
    simp at hxb
    simp [addFree, setNext, setPrev, hx, hxb]
  · rfl

theorem popleftN_holds {bs} (h : Holds q (bs ++ l)) :
    ∃ q', popleftN bs.length q = .ok bs q' ∧ Holds q' l := by
  rcases eq_or_ne bs [] with rfl | hbs
  · exact ⟨q, rfl, h⟩
  obtain ⟨c, rest, hc⟩ := exists_cons_tail l
  have hshape : Ref.head :: (bs ++ l) ++ [.tail] = [.head] ++ (bs ++ [c]) ++ rest := by
    rw [cons_append, append_assoc, hc]
    simp
  have hlinked := h.linked
  have hnodup := h.nodup
  rw [hshape] at hlinked hnodup
  have hd : (bs ++ [c]).Nodup := hnodup.of_append_left.of_append_right
  have hhead : q.nextFreeBlock .head = (bs ++ [c]).head? := by
    rw [h.next_head, append_assoc, hc, ← singleton_append, ← append_assoc,
      head?_append_of_ne_nil _ (by simp)]
  have hloop := popleftLoop_eq (q := addFree (-bs.length) q) bs c hd hlinked.left.right
  have hcnt : ¬ q.numFreeBlocks < bs.length := by
    have := h.count
    simp only [length_append] at this
    omega
  have hlen : ¬ (bs.length : ℤ) = 0 := by simpa using hbs
  have hhc : Ref.head ∉ bs ++ [c] := by
    have := (nodup_append.mp hnodup.of_append_left).2.2
    exact fun hm ↦ this _ (by simp) _ hm rfl
  refine ⟨setPrev c (some .head) (setNext .head (some c) (clear bs (addFree (-bs.length) q))), ?_, ?_⟩
  · simp only [popleftN, hlen, if_false, bind_apply, get_apply, hcnt,
      modify_apply, Int.toNat_natCast, hhead, hloop, pure_apply]
  refine Holds.unlink [] bs [] .head h rfl hc ?_ ?_ ?_ ?_ ?_
  · simp [setNext, setPrev]
  · simp [setNext, setPrev]
  · intro x hx hxb
    simp [setNext, setPrev, hx, clear_next, hxb, addFree]
  · intro x hx hxb
    simp [setNext, setPrev, hx, clear_prev, hxb, addFree]
  · simp only [setPrev, setNext, clear_numFreeBlocks, addFree]
    omega

theorem remove_holds {l1 l2 b} (h : Holds q (l1 ++ b :: l2)) :
    ∃ q', remove b q = .ok () q' ∧ Holds q' (l1 ++ l2) := by
  obtain ⟨pre, a, ha⟩ := exists_head_concat l1
  obtain ⟨c, rest, hc⟩ := exists_cons_tail l2
  have hshape : Ref.head :: (l1 ++ b :: l2) ++ [.tail] = pre ++ a :: b :: c :: rest := by
    rw [← cons_append, ha]
    simp [hc]
  have hlinked := h.linked
  have hnodup := h.nodup
  rw [hshape] at hlinked hnodup
  have hprev : q.prevFreeBlock b = some a := hlinked.prev_eq _
  have hnext : q.nextFreeBlock b = some c := (hlinked.right pre).next_eq [a]
  obtain ⟨hab, hac, hbc⟩ : a ≠ b ∧ a ≠ c ∧ b ≠ c := by
    have := hnodup.of_append_right
    simp at this
    tauto
  refine ⟨addFree (-1) (setNext b none (setPrev b none
    (setPrev c (some a) (setNext a (some c) q)))), ?_, ?_⟩
  · simp only [remove, bind_apply, get_apply, hprev, hnext, modify_apply]
  refine Holds.unlink l1 [b] pre a (by simpa using h) ha hc ?_ ?_ ?_ ?_ ?_
  · simp [addFree, setNext, setPrev, hab]
  · simp [addFree, setNext, setPrev, hbc.symm]
  · intro x hx hxb
    simp at hxb
    simp [addFree, setNext, setPrev, hx, hxb]
  · intro x hx hxb
    simp at hxb
    simp [addFree, setNext, setPrev, hx, hxb]
  · rfl

theorem appendLoop_linked {l0} (bs) (a) (hd : (l0 ++ a :: bs).Nodup)
    (h : Linked q.nextFreeBlock q.prevFreeBlock (l0 ++ [a])) :
    ∃ q' b pre, appendLoop bs a q = .ok b q' ∧ l0 ++ a :: bs = pre ++ [b] ∧
      Linked q'.nextFreeBlock q'.prevFreeBlock (l0 ++ a :: bs) ∧
      q'.numFreeBlocks = q.numFreeBlocks ∧
      ∀ x ∉ a :: bs, q'.nextFreeBlock x = q.nextFreeBlock x := by
  induction bs generalizing q l0 a with
  | nil => exact ⟨q, a, l0, rfl, rfl, h, rfl, fun _ _ ↦ rfl⟩
  | cons b bs ih =>
    have hd' : (l0 ++ [a] ++ b :: bs).Nodup := by simpa using hd
    have hsep := (nodup_append.mp hd').2.2
    have hstep : Linked (setNext a (some b) (setPrev b (some a) q)).nextFreeBlock
        (setNext a (some b) (setPrev b (some a) q)).prevFreeBlock (l0 ++ [a] ++ [b]) := by
      rw [append_assoc]
      refine Linked.join.mpr ⟨h.congr (fun x hx ↦ ?_) (fun x hx ↦ ?_), ⟨?_, ?_⟩, .singleton b⟩
      · rw [dropLast_concat] at hx
        have hxa : x ≠ a := (nodup_append.mp hd'.of_append_left).2.2 x hx a (by simp)
        simp [setNext, setPrev, hxa]
      · have hxb : x ≠ b := hsep x (mem_of_mem_tail hx) b (by simp)
        simp [setNext, setPrev, hxb]
      · simp [setNext]
      · simp [setNext, setPrev]
    obtain ⟨q', z, pre, hrun, hz, hlink, hnum, hframe⟩ := ih b hd' hstep
    refine ⟨q', z, pre, hrun, by simpa using hz, by simpa using hlink, hnum, fun x hx ↦ ?_⟩
    simp only [mem_cons, not_or] at hx
    rw [hframe x (by simp [hx])]
    simp [setNext, setPrev, hx]

theorem appendN_holds {bs} (h : Holds q l) (hd : (l ++ bs).Nodup)
    (hh : Ref.head ∉ bs) (ht : Ref.tail ∉ bs) :
    ∃ q', appendN bs q = .ok () q' ∧ Holds q' (l ++ bs) := by
  rcases eq_or_ne bs [] with rfl | hbs
  · exact ⟨q, rfl, by simpa using h⟩
  obtain ⟨pre, a, ha⟩ := exists_head_concat l
  obtain ⟨-, hhl, htl⟩ := nodup_ends_iff.mp h.nodup
  have hends : (Ref.head :: (l ++ bs) ++ [Ref.tail]).Nodup :=
    nodup_ends_iff.mpr ⟨hd, by simp [hhl, hh], by simp [htl, ht]⟩
  have hlinked := h.linked
  rw [ha, append_assoc] at hlinked
  have hlast : q.prevFreeBlock .tail = some a := hlinked.prev_eq _
  have hnodup : (pre ++ a :: bs).Nodup := by
    have := hends.of_append_left
    rw [← cons_append, ha] at this
    simpa using this
  obtain ⟨q', z, pre', hrun, hz, hlink, hnum, hframe⟩ :=
    appendLoop_linked bs a hnodup (Linked.join.mp hlinked).1
  have hshape : Ref.head :: (l ++ bs) ++ [.tail] = pre' ++ z :: [.tail] := by
    rw [← cons_append, ha, append_assoc pre, singleton_append, hz]
    simp
  rw [hshape] at hends
  have hzt : Ref.tail ≠ z := by
    intro e
    have := hends.of_append_right
    simp [e] at this
  refine ⟨addFree bs.length (setPrev .tail (some z) (setNext z (some .tail) q')), ?_, ?_, ?_, ?_, ?_⟩
  · simp only [appendN, hbs, if_false, bind_apply, get_apply, hlast, hrun,
      modify_apply]
  · rw [hshape]
    rw [hz] at hlink
    refine Linked.join.mpr ⟨hlink.congr (fun x hx ↦ ?_) (fun x hx ↦ ?_), ⟨?_, ?_⟩, .singleton _⟩
    · rw [dropLast_concat] at hx
      have hxz : x ≠ z := fun e ↦ (nodup_append.mp hends).2.2 x hx z (by simp) e
      simp [addFree, setNext, setPrev, hxz]
    · have hxt : x ≠ Ref.tail := by
        rintro rfl
        rcases mem_append.mp (mem_of_mem_tail hx) with hx | hx
        · exact (nodup_append.mp hends).2.2 _ hx .tail (by simp) rfl
        · exact hzt (by simpa using hx)
      simp [addFree, setNext, setPrev, hxt]
    · simp [addFree, setNext, setPrev]
    · simp [addFree, setNext, setPrev]
  · rwa [hshape]
  · have hta : Ref.tail ∉ a :: bs := by
      simp only [mem_cons, not_or]
      refine ⟨?_, ht⟩
      rintro rfl
      have : Ref.tail ∈ Ref.head :: l := by simp [ha]
      simp [htl] at this
    simp [addFree, setNext, setPrev, hzt, hframe _ hta, h.stop]
  · simp only [addFree, setNext, setPrev, hnum, h.count, length_append]
    omega

theorem readFrom_linked (h : Linked q.nextFreeBlock q.prevFreeBlock (l ++ [.tail]))
    (hstop : q.nextFreeBlock .tail = none) (fuel) (hfuel : l.length < fuel) :
    ∀ first, (l ++ [Ref.tail]).head? = some first → readFrom q fuel first = l := by
  induction l generalizing fuel with
  | nil =>
    intro first hf
    obtain rfl : Ref.tail = first := by simpa using hf
    cases fuel with
    | zero => rfl
    | succ fuel => simp [readFrom, hstop]
  | cons b l ih =>
    intro first hf
    obtain rfl : b = first := by simpa using hf
    obtain ⟨c, rest, hc⟩ := exists_cons_tail l
    rw [cons_append, hc] at h
    have hnext : q.nextFreeBlock b = some c := h.next_eq []
    cases fuel with
    | zero => simp at hfuel
    | succ fuel =>
      have hrest := ih (by rw [hc]; exact h.right [b]) fuel (by simpa using hfuel) c (by simp [hc])
      simp [readFrom, hnext, hrest]

theorem Holds.getAllFreeBlocks_eq (h : Holds q l) (fuel) (hfuel : l.length < fuel) :
    getAllFreeBlocks q fuel = .ok l := by
  obtain ⟨c, rest, hc⟩ := exists_cons_tail l
  have hfirst : q.nextFreeBlock .head = some c := by rw [h.next_head, hc]; rfl
  have hread := readFrom_linked (h.linked.right [.head]) h.stop fuel hfuel c (by simp [hc])
  simp [getAllFreeBlocks, hfirst, hread]

end VllmEngine.Core.FreeKVCacheBlockQueue
