import Mathlib.Data.List.Infix
import Mathlib.Tactic.Linarith

namespace VllmEngine.Lib

open List

variable {α : Type*}

def EndsAt (sub text : List α) (e : ℕ) : Prop := e ≤ text.length ∧ sub <:+ text.take e

variable {text sub : List α} {e : ℕ}

theorem EndsAt.length_le (h : EndsAt sub text e) : sub.length ≤ e := by
  have := h.2.length_le
  simp only [length_take] at this
  omega

theorem endsAt_append {more} (he : e ≤ text.length) :
    EndsAt sub (text ++ more) e ↔ EndsAt sub text e := by
  simp only [EndsAt, length_append, take_append_of_le_length he]
  exact and_congr_left fun _ ↦ by omega

theorem EndsAt.append (h : EndsAt sub text e) (more) : EndsAt sub (text ++ more) e :=
  (endsAt_append h.1).mpr h

theorem endsAt_length : EndsAt sub text text.length ↔ sub <:+ text := by
  simp [EndsAt]

theorem isInfix_iff_endsAt : sub <:+: text ↔ ∃ e, EndsAt sub text e := by
  constructor
  · rintro ⟨s, t, rfl⟩
    refine ⟨(s ++ sub).length, by simp, s, ?_⟩
    rw [take_left]
  · rintro ⟨e, -, h⟩
    exact h.isInfix.trans (List.take_prefix e text).isInfix

theorem EndsAt.of_isSuffix {sub'} (h : EndsAt sub text e)
    (hs : sub' <:+ sub) : EndsAt sub' text e :=
  ⟨h.1, hs.trans h.2⟩

theorem EndsAt.of_isInfix {sub'} (h : EndsAt sub text e)
    (hs : sub' <:+: sub) : ∃ e' ≤ e, EndsAt sub' text e' := by
  obtain ⟨e', he'⟩ := isInfix_iff_endsAt.mp (hs.trans h.2.isInfix)
  have hle := he'.1
  rw [length_take] at hle
  refine ⟨e', by omega, ?_⟩
  rw [← take_append_drop e text]
  exact he'.append _

theorem endsAt_add_length {i} :
    EndsAt sub text (i + sub.length) ↔ i ≤ text.length ∧ sub <+: text.drop i := by
  constructor
  · rintro ⟨hle, s, hs⟩
    have hlen := congrArg length hs
    simp only [length_append, length_take, min_eq_left hle] at hlen
    have hi : s.length = i := by omega
    refine ⟨by omega, text.drop (i + sub.length), ?_⟩
    conv_rhs => rw [← take_append_drop (i + sub.length) text, ← hs]
    rw [append_assoc, ← hi, drop_left]
  · rintro ⟨hi, t, ht⟩
    have hlen := congrArg length ht
    simp only [length_append, length_drop] at hlen
    refine ⟨by omega, text.take i, ?_⟩
    rw [take_add, ← ht, take_left]

section

variable [DecidableEq α]

instance (sub text : List α) (e : ℕ) : Decidable (EndsAt sub text e) :=
  inferInstanceAs (Decidable (_ ∧ _))

def find (sub text : List α) : Option ℕ := text.tails.findIdx? (sub.isPrefixOf ·)

def findFrom (sub text : List α) (start : ℕ) : Option ℕ :=
  if start ≤ text.length then (find sub (text.drop start)).map (start + ·) else none

variable {sub text : List α} {i start off : ℕ}

theorem find_eq_some_iff : find sub text = some i ↔
    (i ≤ text.length ∧ sub <+: text.drop i) ∧ ∀ j < i, ¬ sub <+: text.drop j := by
  simp only [find, findIdx?_eq_some_iff_getElem, getElem_tails, length_tails,
    isPrefixOf_iff_prefix, Nat.lt_succ_iff, exists_prop, and_assoc]

theorem find_eq_none_iff : find sub text = none ↔ ¬ sub <:+: text := by
  simp only [find, findIdx?_eq_none_iff, mem_tails, infix_iff_prefix_suffix,
    Bool.eq_false_iff, ne_eq, isPrefixOf_iff_prefix, not_exists, not_and]
  exact ⟨fun h t hp hs ↦ h t hs hp, fun h t hs hp ↦ h t hp hs⟩

theorem find_append_self : find sub (sub ++ text) = some 0 :=
  find_eq_some_iff.mpr ⟨⟨Nat.zero_le _, prefix_append _ _⟩, nofun⟩

theorem find_add_length_le (h : find sub text = some i) : i + sub.length ≤ text.length :=
  (endsAt_add_length.mpr (find_eq_some_iff.mp h).1).1

theorem exists_find (h : sub <:+: text) : ∃ i, find sub text = some i := by
  cases hf : find sub text with
  | none => exact absurd h (find_eq_none_iff.mp hf)
  | some i => exact ⟨i, rfl⟩

theorem find_of_append {left mid right k}
    (h : find sub (left ++ (mid ++ right)) = some (left.length + k)) (hle : k ≤ mid.length)
    (hk : sub <+: mid.drop k) : find sub mid = some k := by
  refine find_eq_some_iff.mpr ⟨⟨hle, hk⟩, fun j hj hsub ↦ ?_⟩
  refine (find_eq_some_iff.mp h).2 (left.length + j) (by omega) ?_
  rw [drop_append, drop_eq_nil_of_le (by omega), nil_append,
    Nat.add_sub_cancel_left, drop_append_of_le_length (by omega)]
  exact hsub.trans (prefix_append _ _)

theorem findFrom_eq_some_iff : findFrom sub text start = some i ↔
    start ≤ i ∧ EndsAt sub text (i + sub.length) ∧
      ∀ j, start ≤ j → EndsAt sub text (j + sub.length) → i ≤ j := by
  simp only [findFrom, Option.ite_none_right_eq_some, Option.map_eq_some_iff, find_eq_some_iff,
    drop_drop, length_drop, endsAt_add_length]
  constructor
  · rintro ⟨hstart, k, ⟨⟨hk, hsub⟩, hfirst⟩, rfl⟩
    refine ⟨by omega, ⟨by omega, hsub⟩, fun j hj hocc ↦ ?_⟩
    by_contra hlt
    exact hfirst (j - start) (by omega) (by rw [Nat.add_sub_cancel' hj]; exact hocc.2)
  · rintro ⟨hi, ⟨hlen, hsub⟩, hfirst⟩
    refine ⟨by omega, i - start, ⟨⟨by omega, ?_⟩, fun j hj hocc ↦ ?_⟩, by omega⟩
    · rwa [Nat.add_sub_cancel' hi]
    · have := hfirst (start + j) (by omega) ⟨by omega, hocc⟩
      omega

/-- With the search begun so that an occurrence ending at `off` is out of sight, the occurrence
found has the least end after `off`. -/
theorem findFrom_window : findFrom sub text (off + 1 - sub.length) = some i ↔
      IsLeast {e | off < e ∧ EndsAt sub text e} (i + sub.length) := by
  rw [findFrom_eq_some_iff]
  constructor
  · rintro ⟨hi, hocc, hfirst⟩
    refine ⟨⟨by omega, hocc⟩, fun e he ↦ ?_⟩
    have hle := he.2.length_le
    have := hfirst (e - sub.length) (by have := he.1; omega)
      (by rw [Nat.sub_add_cancel hle]; exact he.2)
    omega
  · rintro ⟨⟨hoff, hocc⟩, hleast⟩
    refine ⟨by omega, hocc, fun j hj hocc' ↦ ?_⟩
    have := hleast ⟨by omega, hocc'⟩
    omega

theorem findFrom_window_eq_none :
    findFrom sub text (off + 1 - sub.length) = none ↔ ∀ e, off < e → ¬ EndsAt sub text e := by
  constructor
  · intro h e he hocc
    have hne : ∃ e, off < e ∧ EndsAt sub text e := ⟨e, he, hocc⟩
    have hle := (Nat.find_spec hne).2.length_le
    have hsome := findFrom_window.mpr
      (by rw [Nat.sub_add_cancel hle]; exact ⟨Nat.find_spec hne, fun _ h ↦ Nat.find_min' hne h⟩)
    simp [h] at hsome
  · intro h
    by_contra hne
    obtain ⟨i, hi⟩ := Option.ne_none_iff_exists'.mp hne
    have := (findFrom_window.mp hi).1
    exact h _ this.1 this.2

theorem findFrom_window_congr {off'} (hle : off ≤ off')
    (hno : ∀ e, off < e → e ≤ off' → ¬ EndsAt sub text e) :
    findFrom sub text (off + 1 - sub.length) = findFrom sub text (off' + 1 - sub.length) := by
  have hset : {e | off < e ∧ EndsAt sub text e} = {e | off' < e ∧ EndsAt sub text e} := by
    ext e
    refine ⟨fun h ↦ ⟨?_, h.2⟩, fun h ↦ ⟨hle.trans_lt h.1, h.2⟩⟩
    by_contra hlt
    exact hno e h.1 (by omega) h.2
  ext i
  rw [findFrom_window, findFrom_window, hset]

end

end VllmEngine.Lib
