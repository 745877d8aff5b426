import Mathlib.Data.List.Nodup
import Mathlib.Data.List.Perm.Subperm

namespace VllmEngine.Lib

open List

/-- Reference counting over a finite stock: the references held to each item, and the items to be
handed out, in their order. -/
structure Ledger (ν : Type) where
  held : ν → ℕ
  free : List ν

namespace Ledger

variable {ν : Type} [DecidableEq ν] {owned : ν → Prop} {L : Ledger ν} {bs : List ν}

structure Sound (owned : ν → Prop) (L : Ledger ν) : Prop where
  nodup : L.free.Nodup
  mem_free : ∀ r, r ∈ L.free ↔ owned r ∧ L.held r = 0

def take (n : ℕ) (L : Ledger ν) : Ledger ν where
  held r := L.held r + (L.free.take n).count r
  free := L.free.drop n

def touch (bs : List ν) (L : Ledger ν) : Ledger ν where
  held r := L.held r + bs.count r
  free := L.free.filter (· ∉ bs)

def release (owned : ν → Prop) [DecidablePred owned] (bs : List ν) (L : Ledger ν) : Ledger ν where
  held r := L.held r - bs.count r
  free := L.free ++ bs.filter fun r ↦ owned r ∧ L.held r = 1

def Releasable (owned : ν → Prop) (bs : List ν) (L : Ledger ν) : Prop :=
  ∀ r ∈ bs, owned r → bs.count r = 1 ∧ 0 < L.held r

theorem Sound.take (h : L.Sound owned) (n) : (L.take n).Sound owned where
  nodup := h.nodup.sublist (drop_sublist n _)
  mem_free r := by
    have hd : (L.free.take n ++ L.free.drop n).Nodup := by
      rw [take_append_drop]
      exact h.nodup
    have hsplit : r ∈ L.free ↔ r ∈ L.free.take n ∨ r ∈ L.free.drop n := by
      rw [← mem_append, take_append_drop]
    simp only [Ledger.take, Nat.add_eq_zero_iff, count_eq_zero]
    constructor
    · intro hr
      obtain ⟨ho, hz⟩ := (h.mem_free r).mp (hsplit.mpr (.inr hr))
      exact ⟨ho, hz, fun ht ↦ (nodup_append.mp hd).2.2 r ht r hr rfl⟩
    · rintro ⟨ho, hz, ht⟩
      exact (hsplit.mp ((h.mem_free r).mpr ⟨ho, hz⟩)).resolve_left ht

theorem Sound.touch (h : L.Sound owned) (bs) : (L.touch bs).Sound owned where
  nodup := h.nodup.filter _
  mem_free r := by
    simp [Ledger.touch, h.mem_free r, count_eq_zero, and_assoc]

theorem touch_cons (b : ν) (bs) (L : Ledger ν) :
    L.touch (b :: bs) = (L.touch [b]).touch bs := by
  simp only [Ledger.touch, filter_filter, mk.injEq]
  constructor
  · funext r
    simp only [count_cons, count_nil]
    omega
  · refine filter_congr fun r _ ↦ ?_
    simp [Bool.and_comm]

theorem take_zero (L : Ledger ν) : L.take 0 = L := by simp [take]

theorem touch_nil (L : Ledger ν) : L.touch [] = L := by
  simp [Ledger.touch]

theorem Sound.length_free_touch (h : L.Sound owned) (bs) :
    L.free.length ≤ (L.touch bs).free.length + (bs.filter (· ∈ L.free)).length := by
  have hsplit := length_eq_length_filter_add (l := L.free) (· ∈ bs)
  have hinside : (L.free.filter (· ∈ bs)).length ≤ (bs.filter (· ∈ L.free)).length := by
    apply List.Subperm.length_le
    apply subperm_of_subset (h.nodup.filter _)
    intro r hr
    simp only [mem_filter, decide_eq_true_eq] at hr ⊢
    exact hr.symm
  have houtside : (L.touch bs).free.length = (L.free.filter fun r ↦ !decide (r ∈ bs)).length := by
    simp only [Ledger.touch, decide_not]
  omega

theorem Sound.release [DecidablePred owned] (h : L.Sound owned) (hbs : L.Releasable owned bs) :
    (L.release owned bs).Sound owned where
  nodup := by
    refine nodup_append.mpr ⟨h.nodup, nodup_iff_count_le_one.mpr fun r ↦ ?_, ?_⟩
    · by_cases hr : r ∈ bs.filter fun r ↦ owned r ∧ L.held r = 1
      · simp only [mem_filter, decide_eq_true_eq] at hr
        exact le_of_le_of_eq (filter_sublist.count_le r) (hbs r hr.1 hr.2.1).1
      · rw [count_eq_zero_of_not_mem hr]
        omega
    · rintro a ha b hb rfl
      simp only [mem_filter, decide_eq_true_eq] at hb
      have := ((h.mem_free a).mp ha).2
      omega
  mem_free r := by
    simp only [Ledger.release, mem_append, h.mem_free, mem_filter, decide_eq_true_eq]
    constructor
    · rintro (⟨ho, hz⟩ | ⟨hr, ho, hz⟩)
      · exact ⟨ho, by omega⟩
      · have := (hbs r hr ho).1
        exact ⟨ho, by omega⟩
    · rintro ⟨ho, hz⟩
      by_cases hr : r ∈ bs
      · obtain ⟨hc, hp⟩ := hbs r hr ho
        exact .inr ⟨hr, ho, by omega⟩
      · rw [count_eq_zero_of_not_mem hr] at hz
        exact .inl ⟨ho, by omega⟩

end Ledger

end VllmEngine.Lib
