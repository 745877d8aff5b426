import Mathlib.Order.Nat

namespace VllmEngine.Lib

/-- Bisection for the largest number with a property in a number of rounds: numbers up to `result`
have it, those above `right` do not. -/
def bisectLoop (fits : ℕ → Bool) : ℕ → ℕ → ℕ → ℕ → ℕ
  | 0, _, _, result => result
  | n + 1, left, right, result =>
    if left ≤ right then
      let mid := (left + right) / 2
      if fits mid then bisectLoop fits n (mid + 1) right mid
      else bisectLoop fits n left (mid - 1) result
    else result

/-- The largest number from `1` to `bound` with a property, or `0` if `1` does not have it. -/
def bisect (fits : ℕ → Bool) (bound : ℕ) : ℕ :=
  if fits 1 then bisectLoop fits bound 1 bound 1 else 0

variable {fits : ℕ → Bool} {n left right result bound : ℕ}

theorem bisectLoop_spec (hfits : ∀ a b, a ≤ b → fits b = true → fits a = true)
    (hn : right + 1 ≤ n + left) (hpos : 0 < left) (hbound : right ≤ bound)
    (hres : fits result = true ∧ result ≤ bound) (hleft : left ≤ result + 1 ∧ result ≤ left)
    (hright : ∀ a ≤ bound, fits a = true → a ≤ right ∨ a ≤ result) :
    (fits (bisectLoop fits n left right result) = true ∧
        bisectLoop fits n left right result ≤ bound) ∧
      ∀ a ≤ bound, fits a = true → a ≤ bisectLoop fits n left right result := by
  induction n generalizing left right result with
  | zero =>
    refine ⟨hres, fun a ha hfit ↦ ?_⟩
    have := hright a ha hfit
    simp only [bisectLoop]
    omega
  | succ n ih =>
    unfold bisectLoop
    split
    next hle =>
      dsimp only
      split
      next hmid =>
        refine ih (by omega) (by omega) hbound ⟨hmid, by omega⟩ ⟨le_rfl, by omega⟩ fun a ha hfit ↦ ?_
        have := hright a ha hfit
        omega
      next hmid =>
        refine ih (by omega) hpos (by omega) hres hleft fun a ha hfit ↦ ?_
        -- a larger number with the property would give it to `mid`
        by_contra hgt
        exact hmid (hfits _ a (by omega) hfit)
    next hgt =>
      refine ⟨hres, fun a ha hfit ↦ ?_⟩
      have := hright a ha hfit
      omega

theorem bisect_spec (hbound : 0 < bound) (hfits : ∀ a b, a ≤ b → fits b = true → fits a = true) :
    (0 < bisect fits bound ∧ bisect fits bound ≤ bound ∧ fits (bisect fits bound) = true ∧
        ∀ a ≤ bound, fits a = true → a ≤ bisect fits bound) ∨
      bisect fits bound = 0 ∧ ∀ a, 0 < a → fits a = false := by
  unfold bisect
  split
  next hone =>
    obtain ⟨⟨hfit, hle⟩, hmax⟩ := bisectLoop_spec (n := bound) hfits (by omega) Nat.one_pos le_rfl
      ⟨hone, hbound⟩ ⟨by omega, le_rfl⟩ fun a ha _ ↦ .inl ha
    exact .inl ⟨hmax 1 hbound hone, hle, hfit, hmax⟩
  next hone => exact .inr ⟨rfl, fun a ha ↦ by simpa using mt (hfits 1 a ha) hone⟩

theorem bisect_eq_min {threshold} (hbound : 0 < bound)
    (hfits : ∀ a, fits a = true ↔ a ≤ threshold) : bisect fits bound = min bound threshold := by
  have hdown : ∀ a b, a ≤ b → fits b = true → fits a = true := fun a b hab hb ↦
    (hfits a).mpr (hab.trans ((hfits b).mp hb))
  rcases bisect_spec hbound hdown with ⟨-, hle, hfit, hmax⟩ | ⟨hzero, hnone⟩
  · refine le_antisymm (le_min hle ((hfits _).mp hfit)) (hmax _ (min_le_left _ _) ?_)
    exact (hfits _).mpr (min_le_right _ _)
  · have : ¬ 1 ≤ threshold := fun h ↦ by simpa [hnone 1 Nat.one_pos] using (hfits 1).mpr h
    omega

end VllmEngine.Lib
