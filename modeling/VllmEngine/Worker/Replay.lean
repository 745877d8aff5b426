import VllmEngine.Worker.StepRule

namespace VllmEngine.Worker

open Function List BatchUpdateBuilder

variable {V : Type}

section

variable (z : V) (newState : AddedRequest → V) (shift : (ℕ → V) → ℕ × ℕ × MoveDirectionality → ℕ → V)

def addValue (s : ℕ → V) (a : AddedRequest) : ℕ → V := update s a.index (newState a)

def removeValues (removed : List ℕ) (s : ℕ → V) : ℕ → V := fun i ↦ if i ∈ removed then z else s i

/-- Values by row after a recorded update of the batch; `z` is that of an empty row. -/
def replay (u : BatchUpdateBuilder) (s : ℕ → V) : ℕ → V :=
  u.moved.foldl shift (u.added.foldl (addValue newState) (removeValues z u.removed s))

/-- A move does not depend on rows that it does not touch. -/
def Local : Prop := ∀ (s : ℕ → V) (t : ℕ) (x : V) (m : ℕ × ℕ × MoveDirectionality), m.1 ≠ t →
  m.2.1 ≠ t → shift (update s t x) m = update (shift s m) t x

end

def Untouched (u : BatchUpdateBuilder) : Prop :=
  ∀ t ∈ u.removed, (∀ a ∈ u.added, a.index ≠ t) ∧ ∀ m ∈ u.moved, m.1 ≠ t ∧ m.2.1 ≠ t

variable {z : V} {newState : AddedRequest → V} {shift : (ℕ → V) → ℕ × ℕ × MoveDirectionality → ℕ → V}
variable {s : ℕ → V} {u : BatchUpdateBuilder} {b b' : InputBatch} {rows rows' : Rows}
  {added : List AddedRequest} {r : CachedRequestState}

theorem foldl_addValue_update {t} (h : ∀ a ∈ added, a.index ≠ t)
    (s : ℕ → V) (x : V) : added.foldl (addValue newState) (update s t x) =
      update (added.foldl (addValue newState) s) t x := by
  induction added generalizing s with
  | nil => rfl
  | cons a added ih =>
    rw [foldl_cons, foldl_cons, addValue, update_comm (h a mem_cons_self).symm]
    exact ih (fun a' ha' ↦ h a' (mem_cons_of_mem a ha')) _

theorem Local.foldl_update (hlocal : Local shift) {moved : List (ℕ × ℕ × MoveDirectionality)} {t}
    (h : ∀ m ∈ moved, m.1 ≠ t ∧ m.2.1 ≠ t) (s : ℕ → V) (x : V) :
    moved.foldl shift (update s t x) = update (moved.foldl shift s) t x := by
  induction moved generalizing s with
  | nil => rfl
  | cons m moved ih =>
    obtain ⟨h1, h2⟩ := h m mem_cons_self
    rw [foldl_cons, foldl_cons, hlocal s t x m h1 h2]
    exact ih (fun m' hm' ↦ h m' (mem_cons_of_mem m hm')) _

theorem removeValues_eq_update {removed removed' t}
    (hrest : ∀ j, j ∈ removed' ↔ j ∈ removed ∧ j ≠ t) (s : ℕ → V) :
    removeValues z removed' s = update (removeValues z removed s) t (s t) := by
  funext j
  rw [update_apply, removeValues, removeValues]
  by_cases hj : j = t
  · simp [hj, hrest]
  · simp [hj, hrest]

theorem addValue_congr {s s' j} (heq : s j = s' j) :
    added.foldl (addValue newState) s j = added.foldl (addValue newState) s' j := by
  induction added generalizing s s' with
  | nil => exact heq
  | cons a added ih =>
    refine ih ?_
    rw [addValue, addValue, update_apply, update_apply, heq]

theorem replay_remove (hadded : u.added = []) (hmoved : u.moved = []) (i) :
    replay z newState shift { u with removed := u.removed ++ [i] } s =
      update (replay z newState shift u s) i z := by
  funext j
  simp only [replay, hadded, hmoved, foldl_nil, removeValues, update_apply]
  by_cases hj : j = i
  · simp [hj]
  · simp [hj]

theorem replay_add (hmoved : b.batchUpdateBuilder.moved = [])
    (hadds : Adds b rows r b') : replay z newState shift b'.batchUpdateBuilder s =
      update (replay z newState shift b.batchUpdateBuilder s) b.nextRow
        (newState ⟨b.nextRow, r.samplingParams, r.promptTokenIds, r.outputTokenIds, r⟩) := by
  funext j
  simp only [replay, hadds.added, hadds.moved, hmoved, foldl_append, foldl_cons, foldl_nil]
  rw [addValue, update_apply, update_apply]
  split
  · rfl
  next hj =>
    rw [removeValues_eq_update hadds.rest, addValue_congr (update_of_ne hj _ _)]

theorem replay_sort :
    replay z newState shift u.ensureRemovedSorted s = replay z newState shift u s := by
  have hremove : removeValues z u.ensureRemovedSorted.removed s = removeValues z u.removed s := by
    funext i
    simp only [removeValues, u.ensureRemovedSorted_perm.mem_iff]
  rw [replay, hremove, ensureRemovedSorted_added,
    ensureRemovedSorted_moved, replay]

/-- The row of the target keeps its old value until the move. -/
theorem replay_move {source target} (hlocal : Local shift) (hu : Untouched b.batchUpdateBuilder)
    (hmove : MovesDown b rows source target b' rows') :
    replay z newState shift b'.batchUpdateBuilder s =
      shift (update (replay z newState shift b.batchUpdateBuilder s) target (s target))
        (source, target, .unidirectional) := by
  obtain ⟨hadded, hmoved⟩ := hu target hmove.noted
  rw [replay, hmove.added, hmove.moved, foldl_append, removeValues_eq_update hmove.rest,
    foldl_addValue_update hadded, hlocal.foldl_update hmoved]
  rfl

theorem replay_swap (i1 i2) :
    replay z newState shift { u with moved := u.moved ++ [(i1, i2, .swap)] } s =
      shift (replay z newState shift u s) (i1, i2, .swap) := by
  rw [replay, foldl_append]
  rfl

theorem Untouched.of_nil (hadded : u.added = []) (hmoved : u.moved = []) : Untouched u := by
  intro t _
  rw [hadded, hmoved]
  simp

theorem Untouched.add (hu : Untouched b.batchUpdateBuilder)
    (hadds : Adds b rows r b') : Untouched b'.batchUpdateBuilder := by
  intro t ht
  obtain ⟨hmem, hne⟩ := (hadds.rest t).mp ht
  rw [hadds.added, hadds.moved]
  refine ⟨fun a ha ↦ ?_, (hu t hmem).2⟩
  rcases mem_append.mp ha with ha | ha
  · exact (hu t hmem).1 a ha
  · rw [mem_singleton.mp ha]
    exact hne.symm

theorem Untouched.sort (hu : Untouched u) : Untouched u.ensureRemovedSorted := by
  intro t ht
  rw [ensureRemovedSorted_added, ensureRemovedSorted_moved]
  exact hu t (u.ensureRemovedSorted_perm.mem_iff.mp ht)

theorem Untouched.move {source target} (hu : Untouched b.batchUpdateBuilder)
    (hempty : ∀ i ∈ b.batchUpdateBuilder.removed, rows i = none)
    (hmove : MovesDown b rows source target b' rows') : Untouched b'.batchUpdateBuilder := by
  intro t ht
  obtain ⟨hmem, htarget⟩ := (hmove.rest t).mp ht
  rw [hmove.added, hmove.moved]
  refine ⟨(hu t hmem).1, fun m hm ↦ ?_⟩
  rcases mem_append.mp hm with hm | hm
  · exact (hu t hmem).2 m hm
  rw [mem_singleton.mp hm]
  refine ⟨?_, htarget.symm⟩
  rintro rfl
  obtain ⟨r, hr⟩ := hmove.occupied
  rw [hempty _ hmem] at hr
  cases hr

end VllmEngine.Worker
