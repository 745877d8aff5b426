import Mathlib.Data.List.Basic

namespace VllmEngine.Lib

open List Option

variable {α β : Type*}

theorem range_split {k n} (h : k ≤ n) : range n = range k ++ range' k (n - k) := by
  obtain ⟨d, rfl⟩ := Nat.exists_eq_add_of_le h
  rw [range_eq_range', range_eq_range', Nat.add_sub_cancel_left, ← range'_append_1, Nat.zero_add]

/-- The links of a chain over `xs`: each is made from the link before and one input. -/
def chain (link : Option β → α → β) : Option β → List α → List β
  | _, [] => []
  | prev, x :: xs => link prev x :: chain link (some (link prev x)) xs

variable {link : Option β → α → β}

section

variable (prev : Option β)

include prev

@[simp]
theorem chain_length (xs) : (chain link prev xs).length = xs.length := by
  induction xs generalizing prev with
  | nil => rfl
  | cons x xs ih => rw [chain, length_cons, ih, length_cons]

theorem chain_append (xs ys) : chain link prev (xs ++ ys) =
      chain link prev xs ++ chain link ((chain link prev xs).getLast?.or prev) ys := by
  induction xs generalizing prev with
  | nil => rfl
  | cons x xs ih =>
    rw [cons_append, chain, ih, chain, cons_append]
    congr 3
    cases hc : (chain link (some (link prev x)) xs).getLast? with
    | none => rw [getLast?_eq_none_iff] at hc; simp [hc]
    | some b => simp [getLast?_cons, hc]

theorem chain_take (xs) (n) :
    (chain link prev xs).take n = chain link prev (xs.take n) := by
  induction xs generalizing prev n with
  | nil => simp [chain]
  | cons x xs ih =>
    cases n with
    | zero => rfl
    | succ n => rw [chain, take_succ_cons, ih, take_succ_cons, chain]

theorem chain_getElem?_zero (xs) : (chain link prev xs)[0]? = xs[0]?.map (link prev) := by
  cases xs <;> rfl

theorem chain_getElem?_succ (xs) (i) :
    (chain link prev xs)[i + 1]? = xs[i + 1]?.map (link (chain link prev xs)[i]?) := by
  induction xs generalizing prev i with
  | nil => rfl
  | cons x xs ih =>
    rw [chain, getElem?_cons_succ, getElem?_cons_succ]
    cases i with
    | zero => rw [chain_getElem?_zero, getElem?_cons_zero]
    | succ i => rw [ih, getElem?_cons_succ]

end

variable {xs ys : List α}

theorem chain_value {Q : β → Prop} (hQ : ∀ prev x, Q (link prev x)) {prev}
    {i : ℕ} {b : β} (h : (chain link prev xs)[i]? = some b) : Q b := by
  cases i with
  | zero =>
    rw [chain_getElem?_zero] at h
    obtain ⟨x, -, rfl⟩ := map_eq_some_iff.mp h
    exact hQ _ _
  | succ i =>
    rw [chain_getElem?_succ] at h
    obtain ⟨x, -, rfl⟩ := map_eq_some_iff.mp h
    exact hQ _ _

/-- When a link determines what it was made from, it determines the chain up to it. `Q` holds of the
values of links. -/
theorem chain_take_eq {Q : β → Prop} (hQ : ∀ prev x, Q (link prev x)) {prev}
    (hfirst : ∀ x y, link prev x = link prev y → x = y)
    (hlink : ∀ b b' x y, Q b → Q b' → link (some b) x = link (some b') y → b = b' ∧ x = y) {i : ℕ}
    {b : β} (hx : (chain link prev xs)[i]? = some b)
    (hy : (chain link prev ys)[i]? = some b) : xs.take (i + 1) = ys.take (i + 1) := by
  have hvalue : ∀ (zs : List α) (j : ℕ) (c : β), (chain link prev zs)[j]? = some c → Q c :=
    fun _ _ _ ↦ chain_value hQ
  induction i generalizing b with
  | zero =>
    rw [chain_getElem?_zero] at hx hy
    obtain ⟨x, hxs, rfl⟩ := map_eq_some_iff.mp hx
    obtain ⟨y, hys, heq⟩ := map_eq_some_iff.mp hy
    obtain rfl := hfirst _ _ heq
    rw [take_add_one, take_add_one, hxs, hys, take_zero, take_zero]
  | succ i ih =>
    rw [chain_getElem?_succ] at hx hy
    obtain ⟨x, hxs, rfl⟩ := map_eq_some_iff.mp hx
    obtain ⟨y, hys, heq⟩ := map_eq_some_iff.mp hy
    have hlen : ∀ zs : List α, ∀ z, zs[i + 1]? = some z → ∃ c, (chain link prev zs)[i]? = some c := by
      intro zs z hz
      have hlt := (List.getElem?_eq_some_iff.mp hz).1
      exact ⟨_, getElem?_eq_getElem (by rw [chain_length]; omega)⟩
    obtain ⟨c, hc⟩ := hlen xs x hxs
    obtain ⟨c', hc'⟩ := hlen ys y hys
    rw [hc, hc'] at heq
    obtain ⟨rfl, rfl⟩ := hlink _ _ _ _ (hvalue _ _ _ hc') (hvalue _ _ _ hc) heq
    rw [take_add_one, take_add_one (i := i + 1), hxs, hys, ih hc hc']

theorem chain_injective (hlink : ∀ prev x y, link prev x = link prev y → x = y) (prev : Option β)
    (h : chain link prev xs = chain link prev ys) : xs = ys := by
  induction xs generalizing prev ys with
  | nil =>
    cases ys with
    | nil => rfl
    | cons y ys => cases h
  | cons x xs ih =>
    cases ys with
    | nil => cases h
    | cons y ys =>
      rw [chain, chain, cons.injEq] at h
      obtain rfl := hlink _ _ _ h.1
      rw [ih _ h.2]

theorem chain_getElem?_of_take_eq (prev : Option β) {i} (h : xs.take (i + 1) = ys.take (i + 1)) :
    (chain link prev xs)[i]? = (chain link prev ys)[i]? := by
  have htake : ∀ zs : List α, (chain link prev zs)[i]? = (chain link prev (zs.take (i + 1)))[i]? := by
    intro zs
    rw [← chain_take, getElem?_take_of_lt (Nat.lt_succ_self i)]
  rw [htake xs, h, ← htake ys]

end VllmEngine.Lib
