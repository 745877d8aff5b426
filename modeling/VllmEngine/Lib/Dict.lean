import Mathlib.Data.List.Nodup
import Mathlib.Algebra.BigOperators.Group.List.Basic
import Mathlib.Algebra.GroupWithZero.Nat

namespace VllmEngine.Lib

open List

structure Dict (α β : Type) where
  entries : List (α × β)
  nodup : (entries.map Prod.fst).Nodup

namespace Dict

variable {α β : Type} [DecidableEq α]

def lookup (k : α) : List (α × β) → Option β
  | [] => none
  | (a, b) :: l => if a = k then some b else lookup k l

def put (k : α) (v : β) : List (α × β) → List (α × β)
  | [] => [(k, v)]
  | (a, b) :: l => if a = k then (a, v) :: l else (a, b) :: put k v l

def remove (k : α) (l : List (α × β)) : List (α × β) := l.filter (fun e ↦ decide (e.1 ≠ k))

variable {l : List (α × β)} {k : α}

theorem keys_put_of_mem (v : β) (h : k ∈ l.map Prod.fst) :
    (put k v l).map Prod.fst = l.map Prod.fst := by
  induction l with
  | nil => simp at h
  | cons e l ih =>
    by_cases he : e.1 = k
    · simp [put, he]
    · have hk : k ∈ l.map Prod.fst := by
        simpa [Ne.symm he] using h
      simp [put, he, ih hk]

theorem keys_put_of_not_mem (v : β) (h : k ∉ l.map Prod.fst) :
    (put k v l).map Prod.fst = l.map Prod.fst ++ [k] := by
  induction l with
  | nil => simp [put]
  | cons e l ih =>
    simp only [map_cons, mem_cons, not_or] at h
    simp [put, Ne.symm h.1, ih h.2]

theorem nodup_put (k : α) (v : β) (h : (l.map Prod.fst).Nodup) :
    ((put k v l).map Prod.fst).Nodup := by
  by_cases hk : k ∈ l.map Prod.fst
  · rwa [keys_put_of_mem v hk]
  · rw [keys_put_of_not_mem v hk]
    simpa [nodup_append] using ⟨h, fun a b hab he ↦ hk (by simpa [← he] using ⟨b, hab⟩)⟩

theorem nodup_remove (k : α) (h : (l.map Prod.fst).Nodup) : ((remove k l).map Prod.fst).Nodup :=
  h.sublist ((filter_sublist).map Prod.fst)

def empty : Dict α β := ⟨[], nodup_nil⟩

section

variable (d : Dict α β)

def get? (k : α) : Option β := lookup k d.entries

def set (k : α) (v : β) : Dict α β := ⟨put k v d.entries, nodup_put k v d.nodup⟩

def erase (k : α) : Dict α β := ⟨remove k d.entries, nodup_remove k d.nodup⟩

def values : List β := d.entries.map Prod.snd

def size : ℕ := d.entries.length

end

theorem lookup_put_self (k : α) (v : β) (l : List (α × β)) : lookup k (put k v l) = some v := by
  induction l with
  | nil => simp [put, lookup]
  | cons e l ih => by_cases he : e.1 = k <;> simp [put, lookup, he, ih]

theorem lookup_put_ne {j : α} (h : j ≠ k) (v : β) (l : List (α × β)) :
    lookup j (put k v l) = lookup j l := by
  induction l with
  | nil => simp [put, lookup, h.symm]
  | cons e l ih =>
    by_cases he : e.1 = k
    · simp [put, lookup, he, h.symm]
    · simp [put, lookup, he, ih]

theorem lookup_remove_self (k : α) (l : List (α × β)) : lookup k (remove k l) = none := by
  induction l with
  | nil => rfl
  | cons e l ih =>
    by_cases he : e.1 = k
    · simpa [remove, he] using ih
    · simpa [remove, he, lookup] using ih

theorem lookup_remove_ne {j : α} (h : j ≠ k) (l : List (α × β)) :
    lookup j (remove k l) = lookup j l := by
  induction l with
  | nil => rfl
  | cons e l ih =>
    by_cases he : e.1 = k
    · simpa [remove, he, lookup, h.symm] using ih
    · by_cases hj : e.1 = j
      · simp [remove, lookup, hj, h]
      · simpa [remove, he, lookup, hj] using ih

theorem lookup_eq_some {v : β} (h : (l.map Prod.fst).Nodup) : lookup k l = some v ↔ (k, v) ∈ l := by
  induction l with
  | nil => simp [lookup]
  | cons e l ih =>
    rw [map_cons, nodup_cons] at h
    by_cases he : e.1 = k
    · have hk : (k, v) ∉ l := fun hm ↦ h.1 (he ▸ mem_map_of_mem hm)
      simp [lookup, he, hk, Prod.ext_iff, eq_comm]
    · simp [lookup, he, ih h.2, Prod.ext_iff, Ne.symm he]

@[simp] theorem get?_empty (k : α) : (empty : Dict α β).get? k = none := rfl

section

variable (d : Dict α β)

include d

@[simp] theorem get?_set_self (k : α) (v : β) : (d.set k v).get? k = some v :=
  lookup_put_self k v d.entries

theorem get?_set_ne {j k : α} (h : j ≠ k) (v : β) :
    (d.set k v).get? j = d.get? j := lookup_put_ne h v d.entries

theorem get?_set (j k : α) (v : β) : (d.set k v).get? j = if j = k then some v else d.get? j := by
  by_cases h : j = k
  · simp [h]
  · simp [h, get?_set_ne d h v]

@[simp] theorem get?_erase_self (k : α) : (d.erase k).get? k = none :=
  lookup_remove_self k d.entries

theorem get?_erase_ne {j k : α} (h : j ≠ k) : (d.erase k).get? j = d.get? j :=
  lookup_remove_ne h d.entries

theorem get?_erase (j k : α) : (d.erase k).get? j = if j = k then none else d.get? j := by
  by_cases h : j = k
  · simp [h]
  · simp [h, get?_erase_ne d h]

theorem get?_eq_some {k : α} {v : β} : d.get? k = some v ↔ (k, v) ∈ d.entries :=
  lookup_eq_some d.nodup

theorem mem_keys_iff (k : α) : k ∈ d.entries.map Prod.fst ↔ (d.get? k).isSome := by
  rw [Option.isSome_iff_exists]
  constructor
  · intro h
    obtain ⟨e, he, rfl⟩ := mem_map.mp h
    exact ⟨e.2, d.get?_eq_some.mpr he⟩
  · rintro ⟨v, hv⟩
    exact mem_map_of_mem (d.get?_eq_some.mp hv)

end

def mapValues {γ : Type} (d : Dict α β) (f : α → β → γ) : Dict α γ where
  entries := d.entries.map fun e ↦ (e.1, f e.1 e.2)
  nodup := by
    rw [map_map]
    exact d.nodup

theorem get?_mapValues {γ : Type} (d : Dict α β) (f : α → β → γ) (k : α) :
    (d.mapValues f).get? k = (d.get? k).map (f k) := by
  obtain ⟨l, hl⟩ := d
  change lookup k (l.map fun e ↦ (e.1, f e.1 e.2)) = (lookup k l).map (f k)
  clear hl
  induction l with
  | nil => rfl
  | cons e l ih =>
    rw [map_cons, lookup, lookup]
    split
    next h => rw [h, Option.map_some]
    next => exact ih

theorem remove_of_not_mem (h : k ∉ l.map Prod.fst) : remove k l = l := by
  refine filter_eq_self.mpr fun e he ↦ ?_
  simpa using fun hk : e.1 = k ↦ h (hk ▸ mem_map_of_mem he)

theorem remove_head {v : β} (h : k ∉ l.map Prod.fst) : remove k ((k, v) :: l) = l :=
  (filter_cons_of_neg (by simp)).trans (remove_of_not_mem h)

section

variable (f : α → β → ℕ)

def entrySum (d : Dict α β) : ℕ := (d.entries.map fun e ↦ f e.1 e.2).sum

theorem entrySum_set (d : Dict α β) (k : α) (v : β) :
    (d.set k v).entrySum f + (d.get? k).elim 0 (f k) = d.entrySum f + f k v := by
  obtain ⟨l, hl⟩ := d
  change ((put k v l).map _).sum + (lookup k l).elim 0 (f k) = (l.map _).sum + f k v
  clear hl
  induction l with
  | nil => simp [put, lookup]
  | cons e l ih =>
    by_cases he : e.1 = k
    · simp only [put, lookup, he, if_true, map_cons, sum_cons, Option.elim_some]
      omega
    · simp only [put, lookup, he, if_false, map_cons, sum_cons]
      omega

theorem entrySum_erase (d : Dict α β) (k : α) :
    (d.erase k).entrySum f + (d.get? k).elim 0 (f k) = d.entrySum f := by
  obtain ⟨l, hl⟩ := d
  change ((remove k l).map _).sum + (lookup k l).elim 0 (f k) = (l.map _).sum
  induction l with
  | nil => simp [remove, lookup]
  | cons e l ih =>
    rw [map_cons, nodup_cons] at hl
    by_cases he : e.1 = k
    · obtain ⟨j, v⟩ := e
      obtain rfl : j = k := he
      simp only [remove_head hl.1, lookup, if_true, map_cons, sum_cons, Option.elim_some]
      omega
    · have hcons : remove k (e :: l) = e :: remove k l := by simp [remove, he]
      have := ih hl.2
      simp only [hcons, lookup, he, if_false, map_cons, sum_cons]
      omega

end

section

variable (f : β → ℕ)

section

variable (d : Dict α β)

def total : ℕ := (d.values.map f).sum

omit [DecidableEq α] in
theorem total_eq : d.total f = d.entrySum fun _ ↦ f := by
  rw [total, values, map_map]
  rfl

theorem total_set (k : α) (v : β) :
    (d.set k v).total f + (d.get? k).elim 0 f = d.total f + f v := by
  rw [total_eq, total_eq, d.entrySum_set]

theorem total_erase (k : α) : (d.erase k).total f + (d.get? k).elim 0 f = d.total f := by
  rw [total_eq, total_eq, ← d.entrySum_erase _ k]

end

theorem total_eq_zero {d : Dict α β} (h : ∀ k v, d.get? k = some v → f v = 0) : d.total f = 0 := by
  refine sum_eq_zero fun n hn ↦ ?_
  obtain ⟨v, hv, rfl⟩ := mem_map.mp hn
  obtain ⟨e, he, rfl⟩ := mem_map.mp hv
  exact h e.1 e.2 (d.get?_eq_some.mpr he)

end

section

variable (f : α → ℕ) {d : Dict α β} {k : α}

def keySum (d : Dict α β) : ℕ := ((d.entries.map Prod.fst).map f).sum

omit [DecidableEq α] in
theorem keySum_eq (d : Dict α β) : d.keySum f = d.entrySum fun k _ ↦ f k := by
  rw [keySum, map_map]
  rfl

theorem keySum_set_old (h : (d.get? k).isSome) (v : β) : (d.set k v).keySum f = d.keySum f := by
  obtain ⟨w, hw⟩ := Option.isSome_iff_exists.mp h
  have hset := d.entrySum_set (fun k _ ↦ f k) k v
  rw [hw, Option.elim_some] at hset
  rw [keySum_eq, keySum_eq]
  omega

theorem keySum_set_new (h : d.get? k = none) (v : β) : (d.set k v).keySum f = d.keySum f + f k := by
  rw [keySum_eq, keySum_eq, ← d.entrySum_set _ k v, h]
  rfl

theorem keySum_erase (h : (d.get? k).isSome) : (d.erase k).keySum f + f k = d.keySum f := by
  obtain ⟨w, hw⟩ := Option.isSome_iff_exists.mp h
  rw [keySum_eq, keySum_eq, ← d.entrySum_erase _ k, hw]
  rfl

end

omit [DecidableEq α] in
theorem size_eq_keySum (d : Dict α β) : d.size = d.keySum fun _ ↦ 1 := by
  rw [keySum, map_map]
  simp [size, Function.comp_def]

variable {d : Dict α β}

theorem size_set_old (h : (d.get? k).isSome) (v : β) : (d.set k v).size = d.size := by
  rw [size_eq_keySum, size_eq_keySum, keySum_set_old _ h]

theorem size_set_new (h : d.get? k = none) (v : β) : (d.set k v).size = d.size + 1 := by
  rw [size_eq_keySum, size_eq_keySum, keySum_set_new _ h]

theorem size_erase (h : (d.get? k).isSome) : (d.erase k).size + 1 = d.size := by
  rw [size_eq_keySum, size_eq_keySum, ← keySum_erase (fun _ ↦ 1) h]

theorem entries_erase_head {v : β} (h : d.entries = (k, v) :: l) : (d.erase k).entries = l := by
  have hnodup := d.nodup
  rw [h, map_cons, nodup_cons] at hnodup
  exact (congrArg (remove k) h).trans (remove_head hnodup.1)

end Dict

end VllmEngine.Lib
