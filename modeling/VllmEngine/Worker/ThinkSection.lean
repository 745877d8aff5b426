import VllmEngine.Worker.ThinkingBudget

namespace VllmEngine.Worker

open Lib ThinkingBudgetStateHolder List

section

variable {l tokens Y : List ℕ} {s : ℕ}

theorem find_range_reverse {p n i} (h : (range n).reverse.find? p = some i) :
    p i = true ∧ ∀ j < n, p j = true → j ≤ i := by
  induction n with
  | zero => cases h
  | succ n ih =>
    rw [range_succ, reverse_append, reverse_singleton, singleton_append, find?_cons] at h
    split at h
    next hp =>
      cases h
      exact ⟨hp, fun j hj _ ↦ Nat.lt_succ_iff.mp hj⟩
    next hp =>
      obtain ⟨hi, hmax⟩ := ih h
      refine ⟨hi, fun j hj hpj ↦ hmax j ?_ hpj⟩
      have hne : j ≠ n := by
        rintro rfl
        rw [hp] at hpj
        cases hpj
      omega

def OccursAt (l tokens : List ℕ) (i : ℕ) : Prop := (l.drop i).take tokens.length = tokens

theorem OccursAt.add_length_le {i} (h : OccursAt l tokens i) (hne : tokens ≠ []) :
    i + tokens.length ≤ l.length := by
  have hlen := congrArg length h
  have hpos := length_pos_iff.mpr hne
  rw [length_take, length_drop] at hlen
  omega

theorem OccursAt.inside {i} (h : OccursAt l tokens i) : tokens <:+: l := by
  rw [← h]
  exact ((List.take_prefix _ _).isInfix).trans (drop_suffix _ _).isInfix

theorem exists_occursAt (h : tokens <:+: l) : ∃ i, OccursAt l tokens i := by
  obtain ⟨A, B, rfl⟩ := h
  refine ⟨A.length, ?_⟩
  rw [OccursAt, append_assoc, drop_left, take_left]

theorem findLast_cases (hne : tokens ≠ []) :
    (findLastSequenceIndex l tokens = -1 ∧ ¬ tokens <:+: l) ∨
      ∃ i : ℕ, findLastSequenceIndex l tokens = i ∧ OccursAt l tokens i ∧
        ∀ j, OccursAt l tokens j → j ≤ i := by
  rw [findLastSequenceIndex, if_neg hne]
  have hbound : ∀ j, OccursAt l tokens j → j < l.length + 1 - tokens.length := by
    intro j hj
    have := hj.add_length_le hne
    omega
  cases hfind : (range (l.length + 1 - tokens.length)).reverse.find? fun i ↦
      (l.drop i).take tokens.length = tokens with
  | none =>
    refine .inl ⟨rfl, fun hin ↦ ?_⟩
    obtain ⟨j, hj⟩ := exists_occursAt hin
    rw [find?_eq_none] at hfind
    exact hfind j (mem_reverse.mpr (mem_range.mpr (hbound j hj))) (decide_eq_true hj)
  | some i =>
    obtain ⟨hi, hmax⟩ := find_range_reverse hfind
    have hocc : (l.drop i).take tokens.length = tokens := of_decide_eq_true hi
    exact .inr ⟨i, rfl, hocc, fun j hj ↦ hmax j (hbound j hj) (decide_eq_true hj)⟩

theorem findLast_of_not_infix (hne : tokens ≠ []) (h : ¬ tokens <:+: l) :
    findLastSequenceIndex l tokens = -1 := by
  rcases findLast_cases hne with ⟨heq, -⟩ | ⟨i, -, hi, -⟩
  · exact heq
  · exact absurd hi.inside h

theorem findLast_of_not_mem (h : s ∉ l) : findLastSequenceIndex l [s] = -1 :=
  findLast_of_not_infix (cons_ne_nil _ _) fun hin ↦ h (hin.subset (mem_singleton_self s))

section

variable (A : List ℕ)

theorem drop_append_cons (k) : (A ++ s :: Y).drop (A.length + 1 + k) = Y.drop k := by
  rw [add_assoc, ← drop_drop, drop_left, add_comm 1 k, drop_succ_cons]

theorem findLast_start (h : s ∉ Y) : findLastSequenceIndex (A ++ s :: Y) [s] = A.length := by
  have hself : OccursAt (A ++ s :: Y) [s] A.length := by
    rw [OccursAt, drop_left]
    rfl
  rcases findLast_cases (cons_ne_nil s []) with ⟨-, hno⟩ | ⟨i, heq, hi, hmax⟩
  · exact absurd hself.inside hno
  have hle := hmax _ hself
  rcases Nat.lt_or_eq_of_le hle with hlt | hlen
  · obtain ⟨k, rfl⟩ := Nat.exists_eq_add_of_lt hlt
    rw [OccursAt, add_right_comm, drop_append_cons] at hi
    exact absurd (mem_of_mem_drop (mem_of_mem_take (hi ▸ mem_singleton_self s))) h
  · rw [heq, hlen]

theorem findLast_end_lt (hne : tokens ≠ []) (hhead : tokens.head? ≠ some s)
    (h : ¬ tokens <:+: Y) : findLastSequenceIndex (A ++ s :: Y) tokens < A.length := by
  rcases findLast_cases (l := A ++ s :: Y) hne with ⟨heq, -⟩ | ⟨i, heq, hi, -⟩
  · omega
  rw [heq]
  rcases lt_trichotomy i A.length with hlt | rfl | hlt
  · exact_mod_cast hlt
  · rw [OccursAt, drop_left] at hi
    refine absurd ?_ hhead
    rw [← hi, head?_take, if_neg (by simpa using hne), head?_cons]
  · obtain ⟨k, rfl⟩ := Nat.exists_eq_add_of_lt hlt
    rw [OccursAt, Nat.add_right_comm, drop_append_cons] at hi
    exact absurd (OccursAt.inside hi) h

theorem findLast_end_ge (hne : tokens ≠ []) (h : tokens <:+: Y) :
    (A.length : ℤ) < findLastSequenceIndex (A ++ s :: Y) tokens := by
  obtain ⟨k, hk⟩ := exists_occursAt h
  have hocc : OccursAt (A ++ s :: Y) tokens (A.length + 1 + k) := by
    rw [OccursAt, drop_append_cons]
    exact hk
  rcases findLast_cases hne with ⟨-, hno⟩ | ⟨i, heq, -, hmax⟩
  · exact absurd hocc.inside hno
  · have := hmax _ hocc
    omega

end

theorem exists_last_split (h : s ∈ l) : ∃ A Y, l = A ++ s :: Y ∧ s ∉ Y := by
  obtain ⟨A, B, hl, hA⟩ := eq_append_cons_of_mem (mem_reverse.mpr h)
  refine ⟨B.reverse, A.reverse, ?_, by simpa using hA⟩
  rw [← reverse_reverse l, hl]
  simp

theorem last_split_unique {A A' Y Y'} (h : A ++ s :: Y = A' ++ s :: Y') (hY : s ∉ Y)
    (hY' : s ∉ Y') : A = A' ∧ Y = Y' := by
  have hlen : A.length = A'.length := by
    have h1 := findLast_start A hY
    rw [h, findLast_start A' hY'] at h1
    exact_mod_cast h1.symm
  obtain ⟨hA, hcons⟩ := append_inj h hlen
  exact ⟨hA, (cons.inj hcons).2⟩

end

def Thinking (s : ℕ) (E T Y : List ℕ) : Prop := ∃ A, T = A ++ s :: Y ∧ s ∉ Y ∧ ¬ E <:+: Y

def SingleSection (s : ℕ) (E P O : List ℕ) : Prop :=
  (∀ Y, Thinking s E P Y → s ∉ O) ∧ O.count s ≤ 1

/-- The section of a request: the one at the end of its prompt, or the one that its output has
begun. -/
inductive InSection (s : ℕ) (E P : List ℕ) : List ℕ → List ℕ → Prop
  | prompt {O Y0} (h : Thinking s E P Y0) (hO : s ∉ O) : InSection s E P O (Y0 ++ O)
  | output {B Y} (h : ∀ Y0, ¬ Thinking s E P Y0) (hB : s ∉ B) (hY : s ∉ Y) :
      InSection s E P (B ++ s :: Y) Y

section

variable {s : ℕ} {E P O Y : List ℕ}

theorem Thinking.unique {T Y'} (h : Thinking s E T Y) (h' : Thinking s E T Y') : Y = Y' := by
  obtain ⟨A, hT, hY, -⟩ := h
  obtain ⟨A', hT', hY', -⟩ := h'
  exact (last_split_unique (hT.symm.trans hT') hY hY').2

theorem Thinking.inSection (h : Thinking s E (P ++ O) Y) (hsingle : SingleSection s E P O) :
    InSection s E P O Y ∧ ¬ E <:+: Y := by
  obtain ⟨A, hT, hY, hE⟩ := h
  refine ⟨?_, hE⟩
  by_cases hP : ∃ Y0, Thinking s E P Y0
  · obtain ⟨Y0, hthink⟩ := hP
    have hO := hsingle.1 Y0 hthink
    obtain ⟨A0, hP, hY0, -⟩ := id hthink
    rw [hP, append_assoc, cons_append] at hT
    obtain ⟨-, rfl⟩ := last_split_unique hT (by simp [hY0, hO]) hY
    exact .prompt hthink hO
  · rw [not_exists] at hP
    by_cases hO : s ∈ O
    · obtain ⟨B, Y', rfl, hY'⟩ := exists_last_split hO
      have hcount := hsingle.2
      rw [count_append, count_cons_self] at hcount
      have hB : s ∉ B := count_eq_zero.mp (by omega)
      rw [← append_assoc] at hT
      obtain ⟨-, rfl⟩ := last_split_unique hT hY' hY
      exact .output hP hB hY'
    · -- the section would be one of the prompt
      have hmem : s ∈ P ++ O := by
        rw [hT]
        simp
      obtain ⟨A0, Y0, rfl, hY0⟩ := exists_last_split ((mem_append.mp hmem).resolve_right hO)
      rw [append_assoc, cons_append] at hT
      obtain ⟨-, rfl⟩ := last_split_unique hT (by simp [hY0, hO]) hY
      exact absurd ⟨A0, rfl, hY0, fun hin ↦ hE (hin.trans (prefix_append Y0 O).isInfix)⟩ (hP Y0)

theorem SingleSection.of_append {t} (h : SingleSection s E P (O ++ [t])) :
    SingleSection s E P O := by
  refine ⟨fun Y hY hO ↦ h.1 Y hY (mem_append_left _ hO), ?_⟩
  have hcount := h.2
  rw [count_append] at hcount
  omega

theorem InSection.of_append {t} (h : InSection s E P (O ++ [t]) Y) :
    (∃ Y', InSection s E P O Y' ∧ Y = Y' ++ [t]) ∨
      (s ∉ O ∧ t = s ∧ Y = [] ∧ ∀ Y0, ¬ Thinking s E P Y0) := by
  generalize hO' : O ++ [t] = O' at h
  cases h with
  | @prompt O' Y0 hthink hO =>
    subst hO'
    refine .inl ⟨Y0 ++ O, .prompt hthink fun hin ↦ hO (mem_append_left _ hin), ?_⟩
    rw [append_assoc]
  | @output B Y hP hB hY =>
    rcases eq_nil_or_concat Y with rfl | ⟨Y', t', rfl⟩
    · obtain ⟨rfl, heq⟩ := append_inj' hO' rfl
      obtain rfl := (cons.inj heq).1
      exact .inr ⟨hB, rfl, rfl, hP⟩
    rw [concat_eq_append, ← cons_append, ← append_assoc] at hO'
    obtain ⟨rfl, heq⟩ := append_inj' hO' rfl
    obtain rfl := (cons.inj heq).1
    rw [concat_eq_append] at hY ⊢
    exact .inl ⟨Y', .output hP hB fun hin ↦ hY (mem_append_left _ hin), rfl⟩

end

end VllmEngine.Worker
