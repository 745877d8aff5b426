import VllmEngine.Lib.Dict

namespace VllmEngine.Lib.Dict

open List

variable {α β : Type}

theorem nodup_drop (n) {l : List (α × β)} (h : (l.map Prod.fst).Nodup) :
    ((l.drop n).map Prod.fst).Nodup := h.sublist ((drop_sublist n l).map Prod.fst)

variable [DecidableEq α]

def moveToEnd (d : Dict α β) (k : α) : Dict α β :=
  match d.get? k with
  | none => d
  | some v => (d.erase k).set k v

def dropOldest (d : Dict α β) (n : ℕ) : Dict α β := ⟨d.entries.drop n, nodup_drop n d.nodup⟩

variable {d : Dict α β} {k : α} {v : β}

theorem erase_entries_of_none (h : d.get? k = none) : (d.erase k).entries = d.entries := by
  refine remove_of_not_mem fun hk ↦ ?_
  rw [mem_keys_iff, h] at hk
  cases hk

theorem set_entries_of_none (h : d.get? k = none) (v : β) :
    (d.set k v).entries = d.entries ++ [(k, v)] := by
  have hk : k ∉ d.entries.map Prod.fst := by simp [mem_keys_iff, h]
  change put k v d.entries = _
  generalize d.entries = l at hk
  induction l with
  | nil => rfl
  | cons e l ih =>
    rw [map_cons, mem_cons, not_or] at hk
    rw [put, if_neg (Ne.symm hk.1), ih hk.2, cons_append]

theorem perm_cons_erase (h : d.get? k = some v) : d.entries.Perm ((k, v) :: (d.erase k).entries) := by
  have hl := d.nodup
  have hmem := d.get?_eq_some.mp h
  change List.Perm d.entries ((k, v) :: remove k d.entries)
  generalize d.entries = l at hl hmem
  induction l with
  | nil => cases hmem
  | cons e l ih =>
    rw [map_cons, nodup_cons] at hl
    rcases mem_cons.mp hmem with rfl | hmem
    · rw [remove_head hl.1]
    have hne : e.1 ≠ k := fun he ↦ hl.1 (he ▸ mem_map_of_mem hmem)
    have hcons : remove k (e :: l) = e :: remove k l := filter_cons_of_pos (by simpa using hne)
    rw [hcons]
    exact ((ih hl.2 hmem).cons e).trans (.swap _ _ _)

theorem perm_set (d : Dict α β) (k : α) (v : β) :
    (d.set k v).entries.Perm ((k, v) :: (d.erase k).entries) := by
  have h := perm_cons_erase (get?_set_self d k v)
  have hrest : ((d.set k v).erase k).entries = (d.erase k).entries := by
    change remove k (put k v d.entries) = remove k d.entries
    generalize d.entries = l
    induction l with
    | nil => simp [put, remove]
    | cons e l ih =>
      by_cases he : e.1 = k
      · simp [put, remove, he]
      · rw [put, if_neg he]
        simpa [remove, he] using ih
  rwa [hrest] at h

theorem perm_moveToEnd (d : Dict α β) (k : α) : (d.moveToEnd k).entries.Perm d.entries := by
  unfold moveToEnd
  split
  · exact .refl _
  next v h =>
    refine (perm_set _ k v).trans ?_
    rw [erase_entries_of_none (get?_erase_self d k)]
    exact (perm_cons_erase h).symm

theorem size_moveToEnd (d : Dict α β) (k : α) : (d.moveToEnd k).size = d.size :=
  (perm_moveToEnd d k).length_eq

omit [DecidableEq α] in
theorem size_dropOldest (d : Dict α β) (n) : (d.dropOldest n).size = d.size - n :=
  length_drop

end VllmEngine.Lib.Dict
