import Mathlib.Data.List.Chain
import Mathlib.Data.List.Nodup

namespace VllmEngine.Lib

open List

/-- Neighbours in the list point at each other: a doubly linked segment. -/
def Linked {ν : Type} (next prev : ν → Option ν) (l : List ν) : Prop :=
  l.IsChain fun a b ↦ next a = some b ∧ prev b = some a

namespace Linked

variable {ν : Type} {next prev next' prev' : ν → Option ν} {l l1 l2 : List ν} {a b c : ν}

theorem congr (h : Linked next prev l) (hn : ∀ a ∈ l.dropLast, next' a = next a)
    (hp : ∀ a ∈ l.tail, prev' a = prev a) : Linked next' prev' l := by
  induction l with
  | nil => exact .nil
  | cons a l ih =>
    cases l with
    | nil => exact .singleton a
    | cons b l =>
      obtain ⟨hab, hl⟩ := isChain_cons_cons.mp h
      refine isChain_cons_cons.mpr ⟨⟨?_, ?_⟩, ih hl ?_ ?_⟩
      · rw [hn a (by simp), hab.1]
      · rw [hp b (by simp), hab.2]
      · exact fun x hx ↦ hn x (by simpa using Or.inr hx)
      · exact fun x hx ↦ hp x (mem_of_mem_tail (by simpa using hx))

theorem join : Linked next prev (l1 ++ a :: b :: l2) ↔
    Linked next prev (l1 ++ [a]) ∧ (next a = some b ∧ prev b = some a) ∧
      Linked next prev (b :: l2) :=
  isChain_append_cons_cons

theorem left (l2) (h : Linked next prev (l1 ++ l2)) : Linked next prev l1 :=
  List.IsChain.left_of_append h

theorem right (l1) (h : Linked next prev (l1 ++ l2)) : Linked next prev l2 :=
  List.IsChain.right_of_append h

theorem next_eq (l1) (h : Linked next prev (l1 ++ a :: b :: l2)) : next a = some b :=
  (join.mp h).2.1.1

theorem prev_eq (l1) (h : Linked next prev (l1 ++ a :: b :: l2)) : prev b = some a :=
  (join.mp h).2.1.2

/-- Cutting `b1 … bₙ` out from between `a` and `c`: only the links at the seam and of the nodes cut
out change. -/
theorem cut {bs} (h : Linked next prev (l1 ++ a :: bs ++ c :: l2))
    (hd : (l1 ++ a :: bs ++ c :: l2).Nodup) (hac : next' a = some c) (hca : prev' c = some a)
    (hn : ∀ x, x ≠ a → x ∉ bs → next' x = next x) (hp : ∀ x, x ≠ c → x ∉ bs → prev' x = prev x) :
    Linked next' prev' (l1 ++ a :: c :: l2) := by
  have hl : Linked next prev (l1 ++ [a]) := by
    apply left (bs ++ c :: l2)
    simpa using h
  have hr : Linked next prev (c :: l2) := right (l1 ++ a :: bs) (by simpa using h)
  simp only [append_assoc, cons_append, nodup_append, nodup_cons,
    mem_append, mem_cons, not_or] at hd
  obtain ⟨-, ⟨⟨ha, hac', ha2⟩, hbs, ⟨hc, -⟩, hbc⟩, h1⟩ := hd
  refine join.mpr ⟨hl.congr ?_ ?_, ⟨hac, hca⟩, hr.congr ?_ ?_⟩
  · intro x hx
    simp only [dropLast_concat] at hx
    exact hn x (fun e ↦ h1 x hx a (.inl rfl) e) (fun e ↦ h1 x hx x (.inr (.inl e)) rfl)
  · intro x hx
    have hx : x ∈ l1 ∨ x = a := by simpa using mem_of_mem_tail hx
    rcases hx with hx | rfl
    · exact hp x (fun e ↦ h1 x hx c (.inr (.inr (.inl rfl))) e)
        (fun e ↦ h1 x hx x (.inr (.inl e)) rfl)
    · exact hp x hac' ha
  · intro x hx
    have hx := dropLast_subset _ hx
    have hxa : x ≠ a := by
      rintro rfl
      rcases mem_cons.mp hx with e | e
      · exact hac' e
      · exact ha2 e
    refine hn x hxa (fun e ↦ hbc x e x ?_ rfl)
    simpa using hx
  · intro x hx
    exact hp x (fun e ↦ hc (e ▸ hx)) (fun e ↦ hbc x e x (.inr hx) rfl)

end Linked

end VllmEngine.Lib
