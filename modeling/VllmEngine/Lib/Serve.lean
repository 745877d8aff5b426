import Mathlib.Data.List.TakeWhile
import Mathlib.Algebra.BigOperators.Group.List.Basic
import Mathlib.Algebra.GroupWithZero.Nat

namespace VllmEngine.Lib

open List

variable {ν : Type}

/-- What a customer asks a queue for: items it has picked, wherever they stand, and then items from
the head. -/
structure Order (ν : Type) where
  picks : List ν
  fresh : ℕ
  deriving DecidableEq

namespace Order

def picked (os : List (Order ν)) : List ν := os.flatMap picks

theorem picked_cons (o : Order ν) (os : List (Order ν)) : picked (o :: os) = o.picks ++ picked os := rfl

variable [DecidableEq ν] {o : Order ν} {os : List (Order ν)} {queue : List ν} {b : ν}

def left (o : Order ν) (queue : List ν) : List ν := queue.filter (· ∉ o.picks)

def serve : List (Order ν) → List ν → List (List ν)
  | [], _ => []
  | o :: os, queue => (o.left queue).take o.fresh :: serve os ((o.left queue).drop o.fresh)

def Respected : List (Order ν) → List ν → Prop
  | [], _ => True
  | o :: os, queue => (∀ b ∈ picked os, b ∉ (o.left queue).take o.fresh) ∧
      Respected os ((o.left queue).drop o.fresh)

def ahead (os : List (Order ν)) (queue : List ν) (b : ν) : ℕ :=
  ((queue.takeWhile (· ≠ b)).filter (· ∉ picked os)).length

/-- Before each picked item there is enough for the customers that come before its own. -/
def Enough : List (Order ν) → ℕ → List (Order ν) → List ν → Prop
  | _, _, [], _ => True
  | all, needed, o :: os, queue =>
      (∀ b ∈ o.picks, b ∈ queue → needed ≤ ahead all queue b) ∧ Enough all (needed + o.fresh) os queue

def Apart : List (Order ν) → Prop
  | [] => True
  | o :: os => (∀ b ∈ o.picks, b ∉ picked os) ∧ Apart os

omit [DecidableEq ν] in
theorem apart_of_getElem? (h : ∀ (i j : ℕ) o o', i < j → os[i]? = some o → os[j]? = some o' →
    ∀ b ∈ o.picks, b ∉ o'.picks) : Apart os := by
  induction os with
  | nil => trivial
  | cons o os ih =>
    refine ⟨fun b hb hmem ↦ ?_, ih fun i j o1 o2 hij h1 h2 ↦ ?_⟩
    · obtain ⟨o', ho', hb'⟩ := mem_flatMap.mp hmem
      obtain ⟨j, hj⟩ := mem_iff_getElem?.mp ho'
      exact h 0 (j + 1) o o' (Nat.succ_pos j) rfl (by simpa using hj) b hb hb'
    · exact h (i + 1) (j + 1) o1 o2 (by omega) (by simpa using h1) (by simpa using h2)

theorem enough_iff {all needed} :
    Enough all needed os queue ↔ ∀ (i : ℕ) o, os[i]? = some o → ∀ b ∈ o.picks, b ∈ queue →
      needed + ((os.take i).map fresh).sum ≤ ahead all queue b := by
  induction os generalizing needed with
  | nil => simp [Enough]
  | cons o os ih =>
    rw [Enough, ih]
    constructor
    · rintro ⟨hfirst, hrest⟩ i o' hi b hb hmem
      cases i with
      | zero =>
        obtain rfl : o = o' := by simpa using hi
        simpa using hfirst b hb hmem
      | succ i =>
        have := hrest i o' (by simpa using hi) b hb hmem
        simp only [take_succ_cons, map_cons, sum_cons]
        omega
    · intro h
      refine ⟨fun b hb hmem ↦ by simpa using h 0 o rfl b hb hmem, fun i o' hi b hb hmem ↦ ?_⟩
      have := h (i + 1) o' (by simpa using hi) b hb hmem
      simp only [take_succ_cons, map_cons, sum_cons] at this
      omega

theorem takeWhile_filter_of_mem {f} (hb : f b = true) :
    (queue.filter f).takeWhile (· ≠ b) = (queue.takeWhile (· ≠ b)).filter f := by
  induction queue with
  | nil => rfl
  | cons x queue ih =>
    by_cases hx : x = b
    · subst hx
      simp [hb]
    · simp only [ne_eq, decide_not] at ih ⊢
      cases hf : f x <;> simp [hf, hx, ih]

theorem ahead_left (hb : b ∉ o.picks) : ahead os (o.left queue) b = ahead (o :: os) queue b := by
  rw [ahead, ahead, left, takeWhile_filter_of_mem (by simpa using hb), filter_filter]
  congr 1
  refine filter_congr fun x _ ↦ ?_
  rw [picked_cons]
  simp [Bool.and_comm]

variable {l : List ν}

theorem ahead_append {r} (hl : b ∉ l) (hfree : ∀ x ∈ picked os, x ∉ l) :
    ahead os (l ++ r) b = l.length + ahead os r b := by
  rw [ahead, ahead, takeWhile_append_of_pos, filter_append, length_append]
  · congr 1
    rw [filter_eq_self.mpr]
    intro x hx
    simpa using fun hp ↦ hfree x hp hx
  · intro x hx
    simpa using fun he : x = b ↦ hl (he ▸ hx)

theorem ahead_lt_of_mem_take (os : List (Order ν)) {n} (hb : b ∈ queue.take n) :
    ahead os queue b < n := by
  obtain ⟨l, r, hlr, hl⟩ := eq_append_cons_of_mem hb
  have hqueue : queue = l ++ b :: (r ++ queue.drop n) := by
    conv_lhs => rw [← take_append_drop n queue, hlr]
    simp
  have htake : queue.takeWhile (· ≠ b) = l := by
    rw [hqueue, takeWhile_append_of_pos (fun x hx ↦ by simpa using fun he : x = b ↦ hl (he ▸ hx))]
    simp
  have hlen := congrArg length hlr
  rw [length_append, length_cons] at hlen
  have hle := length_take_le n queue
  have hfilter := length_filter_le (· ∉ picked os) (queue.takeWhile (· ≠ b))
  rw [ahead]
  rw [htake] at hfilter ⊢
  omega

theorem enough_drop {n} (hfree : ∀ x ∈ picked os, x ∉ queue.take n) :
    Enough os n os queue ↔ Enough os 0 os (queue.drop n) := by
  rw [enough_iff, enough_iff]
  refine forall₅_congr fun i o hi b hb ↦ ?_
  have hb' := hfree b (mem_flatMap.mpr ⟨o, mem_of_getElem? hi, hb⟩)
  have hmem : b ∈ queue ↔ b ∈ queue.drop n := by
    conv_lhs => rw [← take_append_drop n queue, mem_append, or_iff_right hb']
  rw [hmem]
  refine imp_congr_right fun hdrop ↦ ?_
  have hn : n ≤ queue.length := by
    by_contra hlt
    simp [drop_eq_nil_of_le (Nat.le_of_not_le hlt)] at hdrop
  have hahead := ahead_append (r := queue.drop n) hb' hfree
  rw [take_append_drop, length_take_of_le hn] at hahead
  omega

theorem enough_left {needed} (hapart : ∀ b ∈ o.picks, b ∉ picked os) :
    Enough (o :: os) needed os queue ↔ Enough os needed os (o.left queue) := by
  rw [enough_iff, enough_iff]
  refine forall₅_congr fun i o' hi b hb ↦ ?_
  have hb' : b ∉ o.picks := fun hp ↦
    hapart b hp (mem_flatMap.mpr ⟨o', mem_of_getElem? hi, hb⟩)
  rw [ahead_left hb', left, mem_filter]
  simp [hb']

theorem respected_iff (hapart : Apart os) : Respected os queue ↔ Enough os 0 os queue := by
  induction os generalizing queue with
  | nil => simp [Respected, Enough]
  | cons o os ih =>
    have htail : Enough (o :: os) 0 (o :: os) queue ↔ Enough os o.fresh os (o.left queue) := by
      rw [Enough, enough_left hapart.1, Nat.zero_add]
      simp
    rw [Respected, ih hapart.2, htail]
    constructor
    · rintro ⟨hfree, hrest⟩
      exact (enough_drop hfree).mpr hrest
    intro h
    have hfree : ∀ b ∈ picked os, b ∉ (o.left queue).take o.fresh := by
      intro b hb htake
      obtain ⟨o', ho', hb⟩ := mem_flatMap.mp hb
      obtain ⟨i, hi⟩ := mem_iff_getElem?.mp ho'
      have hle := enough_iff.mp h i o' hi b hb (mem_of_mem_take htake)
      have hlt := ahead_lt_of_mem_take os htake
      omega
    exact ⟨hfree, (enough_drop hfree).mp h⟩

theorem respected_iff_ahead (hapart : Apart os) :
    Respected os queue ↔ ∀ (i : ℕ) o, os[i]? = some o → ∀ b ∈ o.picks, b ∈ queue →
      ((os.take i).map fresh).sum ≤ ahead os queue b := by
  rw [respected_iff hapart, enough_iff]
  simp only [Nat.zero_add]

@[simp]
theorem serve_length (os : List (Order ν)) (queue) : (serve os queue).length = os.length := by
  induction os generalizing queue with
  | nil => rfl
  | cons o os ih => rw [serve, length_cons, ih, length_cons]

theorem length_le_fresh {i : ℕ} (ho : os[i]? = some o) (hl : (serve os queue)[i]? = some l) :
    l.length ≤ o.fresh := by
  induction os generalizing i queue with
  | nil => simp at ho
  | cons o' os ih =>
    cases i with
    | zero =>
      obtain rfl : o' = o := by simpa using ho
      cases hl
      exact length_take_le _ _
    | succ i => exact ih ho hl

theorem mem_of_mem_serve (hl : l ∈ serve os queue) (hb : b ∈ l) : b ∈ queue := by
  induction os generalizing queue with
  | nil => simp [serve] at hl
  | cons o os ih =>
    rcases mem_cons.mp hl with rfl | hl
    · exact mem_of_mem_filter (mem_of_mem_take hb)
    · exact mem_of_mem_filter (mem_of_mem_drop (ih hl))

theorem not_mem_left (queue) (hb : b ∈ o.picks) : b ∉ o.left queue := by simp [left, hb]

theorem Respected.not_mem_serve (h : Respected os queue) (hb : b ∈ picked os)
    (hl : l ∈ serve os queue) : b ∉ l := by
  induction os generalizing queue with
  | nil => simp [serve] at hl
  | cons o os ih =>
    by_cases hpick : b ∈ o.picks
    · intro hbl
      apply not_mem_left queue hpick
      rcases mem_cons.mp hl with rfl | hl
      · exact mem_of_mem_take hbl
      · exact mem_of_mem_drop (mem_of_mem_serve hl hbl)
    · have hb' : b ∈ picked os := (mem_append.mp hb).resolve_left hpick
      rcases mem_cons.mp hl with rfl | hl
      · exact h.1 b hb'
      · exact ih h.2 hb' hl

theorem respected_of_not_mem (h : ∀ (i j : ℕ) o l, i < j → os[j]? = some o →
    (serve os queue)[i]? = some l → ∀ b ∈ o.picks, b ∉ l) : Respected os queue := by
  induction os generalizing queue with
  | nil => trivial
  | cons o os ih =>
    refine ⟨fun b hb ↦ ?_, ih fun i j o' l hij ho' hl ↦ ?_⟩
    · obtain ⟨o', ho', hb⟩ := mem_flatMap.mp hb
      obtain ⟨j, hj⟩ := mem_iff_getElem?.mp ho'
      exact h 0 (j + 1) o' _ (Nat.succ_pos j) (by simpa using hj) rfl b hb
    · exact h (i + 1) (j + 1) o' l (by omega) (by simpa using ho') (by simpa [serve] using hl)

end Order

end VllmEngine.Lib
