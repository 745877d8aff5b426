import VllmEngine.Lib.Triple
import Mathlib.Order.Interval.Finset.Nat
import VllmEngine.Worker.InputBatch

namespace VllmEngine.Worker

open Lib Function List InputBatch BatchUpdateBuilder Equiv Dict

abbrev Rows := ℕ → Option CachedRequestState

namespace BatchUpdateBuilder

variable {u u' : BatchUpdateBuilder} {i : ℕ}

def Sorted (u : BatchUpdateBuilder) : Prop := u.isRemovedSorted = true → u.removed.Pairwise (· ≥ ·)

theorem ensureRemovedSorted_perm (u : BatchUpdateBuilder) :
    u.ensureRemovedSorted.removed.Perm u.removed := by
  unfold ensureRemovedSorted
  split
  · exact .refl _
  · exact perm_insertionSort _ _

theorem ensureRemovedSorted_pairwise (h : u.Sorted) :
    u.ensureRemovedSorted.removed.Pairwise (· ≥ ·) := by
  unfold ensureRemovedSorted
  split
  next hs => exact h hs
  · exact pairwise_insertionSort _ _

@[simp] theorem ensureRemovedSorted_added (u : BatchUpdateBuilder) :
    u.ensureRemovedSorted.added = u.added := by
  unfold ensureRemovedSorted
  split <;> rfl

@[simp] theorem ensureRemovedSorted_moved (u : BatchUpdateBuilder) :
    u.ensureRemovedSorted.moved = u.moved := by
  unfold ensureRemovedSorted
  split <;> rfl

theorem popRemoved_eq_none : u.popRemoved = none ↔ u.removed = [] := by
  have hperm := u.ensureRemovedSorted_perm
  unfold popRemoved
  rw [Option.map_eq_none_iff, getLast?_eq_none_iff]
  constructor
  · intro h
    rw [h] at hperm
    exact hperm.nil_eq.symm
  · intro h
    rw [h] at hperm
    exact hperm.eq_nil

structure Popped (u : BatchUpdateBuilder) (i : ℕ) (u' : BatchUpdateBuilder) : Prop where
  perm : (i :: u'.removed).Perm u.removed
  lowest : ∀ j ∈ u.removed, i ≤ j
  sorted : u'.Sorted
  added : u'.added = u.added
  moved : u'.moved = u.moved

theorem popRemoved_spec (h : u.Sorted) (hpop : u.popRemoved = some (i, u')) : Popped u i u' := by
  obtain ⟨j, hlast, heq⟩ := Option.map_eq_some_iff.mp hpop
  obtain ⟨rfl, rfl⟩ := Prod.mk.inj heq
  have hpair := ensureRemovedSorted_pairwise h
  have hperm := u.ensureRemovedSorted_perm
  obtain ⟨front, hfront⟩ : ∃ front, u.ensureRemovedSorted.removed = front ++ [j] :=
    getLast?_eq_some_iff.mp hlast
  rw [hfront] at hpair hperm
  rw [pairwise_append] at hpair
  refine ⟨?_, fun k hk ↦ ?_, fun _ ↦ ?_, by simp, by simp⟩
  · rw [hfront, dropLast_concat]
    exact (perm_append_singleton j front).symm.trans hperm
  · rcases mem_append.mp (hperm.mem_iff.mpr hk) with hk | hk
    · exact hpair.2.2 k hk j (mem_singleton_self j)
    · rw [mem_singleton.mp hk]
  · rw [hfront, dropLast_concat]
    exact hpair.1

end BatchUpdateBuilder

/-- The lists and the index of a batch agree with its rows, of which the first `n` are occupied
unless noted as removed, and the others empty. -/
structure Seated (b : InputBatch) (rows : Rows) (n : ℕ) : Prop where
  ids : ∀ i, b.reqIds[i]?.join = (rows i).map (·.reqId)
  outputs : ∀ i, b.reqOutputTokenIds[i]?.join = (rows i).map (·.outputTokenIds)
  index : ∀ id i, b.reqIdToIndex.get? id = some i ↔ ∃ r, rows i = some r ∧ r.reqId = id
  removed : ∀ i < n, i ∈ b.batchUpdateBuilder.removed ↔ rows i = none
  beyond : ∀ i, n ≤ i → rows i = none
  nodup : b.batchUpdateBuilder.removed.Nodup
  size : b.numReqs + (b.batchUpdateBuilder.removed.filter (· < n)).length = n
  length : n ≤ b.reqIds.length ∧ b.reqOutputTokenIds.length = b.reqIds.length
  sorted : b.batchUpdateBuilder.Sorted

structure Open (b : InputBatch) (rows : Rows) : Prop extends Seated b rows b.reqIds.length where
  bound : ∀ i ∈ b.batchUpdateBuilder.removed, i < b.reqIds.length

namespace Seated

variable {b : InputBatch} {rows : Rows} {n : ℕ} {r : CachedRequestState} {i j : ℕ}

theorem row_unique (h : Seated b rows n) {r r'} (hi : rows i = some r)
    (hj : rows j = some r') (hid : r.reqId = r'.reqId) : i = j := by
  have hri := (h.index r.reqId i).mpr ⟨r, hi, rfl⟩
  have hrj := (h.index r.reqId j).mpr ⟨r', hj, hid.symm⟩
  exact Option.some.inj (hri.symm.trans hrj)

theorem lt_of_some (h : Seated b rows n) (hi : rows i = some r) : i < n := by
  by_contra hle
  rw [h.beyond i (by omega)] at hi
  cases hi

theorem rows_of_empty (h : Seated b rows n) (hzero : b.numReqs = 0) (i) : rows i = none := by
  cases hr : rows i with
  | none => rfl
  | some r =>
    have hget := (h.index r.reqId i).mpr ⟨r, hr, rfl⟩
    rw [get?_eq_some, length_eq_zero_iff.mp hzero] at hget
    cases hget

end Seated

variable {α : Type} {l : List (Option α)}

theorem join_set {i} (h : i < l.length) (a : Option α) (j) :
    (l.set i a)[j]?.join = update (fun k ↦ l[k]?.join) i a j := by
  rw [getElem?_set]
  by_cases hij : i = j
  · subst hij
    simp [h]
  · simp [hij, Ne.symm hij]

theorem join_set_set {i k} (hi : i < l.length) (hk : k < l.length) (a c : Option α) (j) :
    ((l.set i a).set k c)[j]?.join = update (update (fun k ↦ l[k]?.join) i a) k c j := by
  rw [join_set (by rwa [length_set]), funext (join_set hi a)]

theorem update_map {β : Type} (f : α → β) (rows : ℕ → Option α) (i) (a : Option α) :
    update (fun k ↦ (rows k).map f) i (a.map f) = fun j ↦ (update rows i a j).map f := by
  funext j
  by_cases hij : j = i
  · subst hij
    simp
  · simp [hij]

section

variable {b b' : InputBatch} {rows : Rows} {n : ℕ} {r : CachedRequestState} {i : ℕ}

section

variable (h : Seated b rows n) (hi : i < b.reqIds.length) (a : Option CachedRequestState) (j : ℕ)

include h hi a j

theorem Seated.ids_set :
    (b.reqIds.set i (a.map (·.reqId)))[j]?.join = (update rows i a j).map (·.reqId) := by
  rw [join_set hi, funext h.ids, update_map]

theorem Seated.outputs_set : (b.reqOutputTokenIds.set i (a.map (·.outputTokenIds)))[j]?.join =
      (update rows i a j).map (·.outputTokenIds) := by
  rw [join_set (h.length.2 ▸ hi), funext h.outputs, update_map]

end

variable {l : List ℕ} {u : BatchUpdateBuilder} {target : ℕ}

theorem filter_bound (hl : ∀ i ∈ l, i < n) : l.filter (· < n) = l :=
  filter_eq_self.mpr fun i hi ↦ decide_eq_true (hl i hi)

theorem Open.size_eq (h : Open b rows) :
    b.numReqs + b.batchUpdateBuilder.removed.length = b.reqIds.length := by
  have hsize := h.size
  rwa [filter_bound h.bound] at hsize

theorem Open.intro (ids : ∀ i, b.reqIds[i]?.join = (rows i).map (·.reqId))
    (outputs : ∀ i, b.reqOutputTokenIds[i]?.join = (rows i).map (·.outputTokenIds))
    (index : ∀ id i, b.reqIdToIndex.get? id = some i ↔ ∃ r, rows i = some r ∧ r.reqId = id)
    (removed : ∀ i < b.reqIds.length, i ∈ b.batchUpdateBuilder.removed ↔ rows i = none)
    (nodup : b.batchUpdateBuilder.removed.Nodup)
    (size : b.numReqs + b.batchUpdateBuilder.removed.length = b.reqIds.length)
    (length : b.reqOutputTokenIds.length = b.reqIds.length) (sorted : b.batchUpdateBuilder.Sorted)
    (bound : ∀ i ∈ b.batchUpdateBuilder.removed, i < b.reqIds.length) : Open b rows := by
  refine ⟨⟨ids, outputs, index, removed, fun i hi ↦ ?_, nodup, ?_, ⟨le_rfl, length⟩, sorted⟩, bound⟩
  · have hnone := ids i
    rw [getElem?_eq_none hi] at hnone
    exact Option.map_eq_none_iff.mp hnone.symm
  · rw [filter_bound bound, size]

theorem Open.new (hids : b.reqIds = []) (houtputs : b.reqOutputTokenIds = [])
    (hindex : b.reqIdToIndex = .empty) (hbuilder : b.batchUpdateBuilder = {}) :
    Open b fun _ ↦ none := by
  refine .intro (fun i ↦ by simp [hids]) (fun i ↦ by simp [houtputs]) (fun id i ↦ by simp [hindex])
    (fun i hi ↦ ?_) ?_ ?_ ?_ ?_ (fun i hi ↦ ?_)
  · rw [hids] at hi
    cases hi
  · rw [hbuilder]
    exact nodup_nil
  · rw [hids, hbuilder, numReqs, hindex]
    rfl
  · rw [hids, houtputs]
    rfl
  · rw [hbuilder]
    exact fun _ ↦ List.Pairwise.nil
  · rw [hbuilder] at hi
    cases hi

structure Removes (b : InputBatch) (rows : Rows) (i : ℕ) (b' : InputBatch) : Prop where
  occupied : ∃ r, rows i = some r
  columns : b'.toColumns = b.toColumns.clear i
  vocab : b'.vocabSize = b.vocabSize
  builder : b'.batchUpdateBuilder = { b.batchUpdateBuilder with
    removed := b.batchUpdateBuilder.removed ++ [i] }

theorem removeRequest_spec {reqId} (h : Open b rows) (hrun : b.removeRequest reqId = .ok b') :
    b' = b ∨ ∃ i, Removes b rows i b' ∧ Open b' (update rows i none) := by
  unfold removeRequest at hrun
  split at hrun
  · exact .inl (Except.ok.inj hrun).symm
  next i hget =>
    split at hrun
    · cases hrun
    next hsorted =>
      cases hrun
      obtain ⟨r, hr, hid⟩ := (h.index reqId i).mp hget
      have hlt := h.lt_of_some hr
      have hfree : i ∉ b.batchUpdateBuilder.removed := by
        rw [h.removed i hlt, hr]
        simp
      have hsize := size_erase (by rw [hget]; rfl)
      have hcount := h.size_eq
      refine .inr ⟨i, ⟨⟨r, hr⟩, rfl, rfl, rfl⟩, .intro (h.ids_set hlt none) (h.outputs_set hlt none)
        (fun id j ↦ ?_) (fun j hj ↦ ?_) ?_ ?_ ?_ (fun hs ↦ absurd hs hsorted) (fun j hj ↦ ?_)⟩
      · rw [get?_erase, update_apply]
        split
        next heq =>
          refine iff_of_false (by simp) ?_
          rintro ⟨r', hr', hid'⟩
          split at hr'
          · cases hr'
          next hne => exact hne (h.row_unique hr' hr (hid'.trans (heq.trans hid.symm)))
        next hne =>
          rw [h.index]
          split
          next heq =>
            subst heq
            refine iff_of_false ?_ (by simp)
            rintro ⟨r', hr', hid'⟩
            rw [hr] at hr'
            cases hr'
            exact hne (hid'.symm.trans hid)
          next => exact Iff.rfl
      · rw [length_set] at hj
        rw [mem_append, mem_singleton, h.removed j hj, update_apply]
        by_cases heq : j = i
        · simp [heq]
        · simp [heq]
      · exact nodup_append.mpr ⟨h.nodup, nodup_singleton i, fun a ha c hc heq ↦
          hfree (by rw [mem_singleton.mp hc] at heq; exact heq ▸ ha)⟩
      · dsimp only [numReqs] at hcount ⊢
        rw [length_append, length_set, length_singleton]
        omega
      · rw [length_set, length_set, h.length.2]
      · rw [length_set]
        rcases mem_append.mp hj with hj | hj
        · exact h.bound j hj
        · rw [mem_singleton.mp hj]
          exact hlt

theorem BatchUpdateBuilder.Popped.mem_iff {u'} (h : u.Popped i u')
    (hnodup : u.removed.Nodup) (j) : j ∈ u'.removed ↔ j ∈ u.removed ∧ j ≠ i := by
  have hcons : (i :: u'.removed).Nodup := h.perm.nodup_iff.mpr hnodup
  rw [← h.perm.mem_iff, mem_cons]
  constructor
  · intro hj
    refine ⟨.inr hj, ?_⟩
    rintro rfl
    exact (nodup_cons.mp hcons).1 hj
  · rintro ⟨hj | hj, hne⟩
    · exact absurd hj hne
    · exact hj

def InputBatch.nextRow (b : InputBatch) : ℕ :=
  (b.batchUpdateBuilder.popRemoved.getD (b.numReqs, b.batchUpdateBuilder)).1

structure Adds (b : InputBatch) (rows : Rows) (r : CachedRequestState) (b' : InputBatch) : Prop where
  empty : rows b.nextRow = none
  columns : b'.toColumns = b.toColumns.write b.vocabSize r b.nextRow
  vocab : b'.vocabSize = b.vocabSize
  rest : ∀ j, j ∈ b'.batchUpdateBuilder.removed ↔ j ∈ b.batchUpdateBuilder.removed ∧ j ≠ b.nextRow
  added : b'.batchUpdateBuilder.added = b.batchUpdateBuilder.added ++
    [⟨b.nextRow, r.samplingParams, r.promptTokenIds, r.outputTokenIds, r⟩]
  moved : b'.batchUpdateBuilder.moved = b.batchUpdateBuilder.moved

theorem addRequest_spec (h : Open b rows) (hnew : ∀ i r', rows i = some r' → r'.reqId ≠ r.reqId)
    (hrun : b.addRequest r = .ok b') :
    Adds b rows r b' ∧ Open b' (update rows b.nextRow (some r)) := by
  have hget : b.reqIdToIndex.get? r.reqId = none := by
    cases hg : b.reqIdToIndex.get? r.reqId with
    | none => rfl
    | some i =>
      obtain ⟨r', hr', hid⟩ := (h.index _ _).mp hg
      exact absurd hid (hnew i r' hr')
  have hindex : ∀ i, rows i = none → ∀ id j, (b.reqIdToIndex.set r.reqId i).get? id = some j ↔
      ∃ r', update rows i (some r) j = some r' ∧ r'.reqId = id := by
    intro i hi id j
    rw [get?_set, update_apply]
    split
    next heq =>
      subst heq
      split
      next hj => simp [hj]
      next hj =>
        refine iff_of_false (by simpa using Ne.symm hj) ?_
        rintro ⟨r', hr', hid⟩
        exact hnew j r' hr' hid
    next hne =>
      rw [h.index]
      split
      next hj =>
        subst hj
        rw [hi]
        simp [Ne.symm hne]
      next => exact Iff.rfl
  have hsize := size_set_new hget b.nextRow
  have hcount := h.size_eq
  unfold addRequest registerAddRequest at hrun
  cases hpop : b.batchUpdateBuilder.popRemoved with
  | some popped =>
    obtain ⟨i, u'⟩ := popped
    have hp := popRemoved_spec h.sorted hpop
    have hmem : i ∈ b.batchUpdateBuilder.removed := hp.perm.mem_iff.mp mem_cons_self
    have hlt := h.bound i hmem
    have hrow : b.nextRow = i := by
      rw [nextRow, hpop]
      rfl
    rw [hrow] at hsize ⊢
    have hnone := (h.removed i hlt).mp hmem
    simp only [hpop, Option.getD_some] at hrun
    split at hrun
    · have hb := Except.ok.inj hrun
      rw [if_neg hlt.ne, if_neg hlt.ne] at hb
      subst hb
      refine ⟨⟨hrow ▸ hnone, hrow ▸ rfl, rfl, hrow ▸ hp.mem_iff h.nodup, by rw [← hp.added, hrow],
        hp.moved⟩, .intro (h.ids_set hlt (some r)) (h.outputs_set hlt (some r)) (hindex i hnone)
        (fun j hj ↦ ?_) ?_ ?_ ?_ hp.sorted (fun j hj ↦ ?_)⟩
      · rw [length_set] at hj
        rw [hp.mem_iff h.nodup, h.removed j hj, update_apply]
        by_cases heq : j = i
        · simp [heq]
        · simp [heq]
      · exact (nodup_cons.mp (hp.perm.nodup_iff.mpr h.nodup)).2
      · have hlen := hp.perm.length_eq
        rw [length_cons] at hlen
        dsimp only [numReqs] at hcount ⊢
        rw [length_set]
        omega
      · rw [length_set, length_set, h.length.2]
      · rw [length_set]
        exact h.bound j ((hp.mem_iff h.nodup j).mp hj).1
    · cases hrun
  | none =>
    have hnil := popRemoved_eq_none.mp hpop
    have hrow : b.nextRow = b.reqIds.length := by
      rw [nextRow, hpop, ← hcount, hnil]
      rfl
    have hnum : b.numReqs = b.reqIds.length := by
      rw [← hcount, hnil]
      rfl
    have hnone := h.beyond b.reqIds.length le_rfl
    rw [hrow] at hsize ⊢
    simp only [hpop, Option.getD_none] at hrun
    split at hrun
    · have hb := Except.ok.inj hrun
      rw [if_pos hnum, if_pos hnum, hnum] at hb
      subst hb
      have hjoin {α : Type} (f : CachedRequestState → α) {l : List (Option α)}
          (hlen : l.length = b.reqIds.length) (hl : ∀ j, l[j]?.join = (rows j).map f) (j : ℕ) :
          (l ++ [some (f r)])[j]?.join = (update rows b.reqIds.length (some r) j).map f := by
        rw [update_apply]
        split
        next heq =>
          rw [heq, ← hlen, getElem?_concat_length]
          rfl
        next hne =>
          rcases lt_or_gt_of_ne hne with hj | hj
          · rw [getElem?_append_left (hlen ▸ hj), hl]
          · rw [h.beyond j hj.le, getElem?_eq_none (by simp; omega)]
            rfl
      refine ⟨⟨hrow ▸ hnone, hrow ▸ rfl, rfl, fun j ↦ by simp [hnil], by rw [hrow], rfl⟩,
        .intro (hjoin _ rfl h.ids) (hjoin _ h.length.2 h.outputs) (hindex _ hnone) (fun j hj ↦ ?_)
          h.nodup ?_ ?_ h.sorted (fun j hj ↦ ?_)⟩
      · dsimp only at hj ⊢
        rw [length_append, length_singleton] at hj
        rw [hnil, update_apply]
        refine iff_of_false not_mem_nil ?_
        split
        · simp
        next hne =>
          rw [← h.removed j (by omega), hnil]
          exact not_mem_nil
      · dsimp only [numReqs] at hcount ⊢
        rw [length_append, length_singleton]
        omega
      · rw [length_append, length_append, h.length.2]
        rfl
      · rw [hnil] at hj
        cases hj
    · cases hrun

def Rows.move (rows : Rows) (source target : ℕ) : Rows :=
  update (update rows target (rows source)) source none

theorem filter_lt_succ (hl : l.Nodup) (n) :
    (l.filter (· < n + 1)).length = (l.filter (· < n)).length + if n ∈ l then 1 else 0 := by
  induction l with
  | nil => rfl
  | cons a l ih =>
    rw [nodup_cons] at hl
    have ih := ih hl.2
    by_cases ha : a = n
    · subst ha
      have hself : a < a + 1 := Nat.lt_succ_self a
      simp only [filter_cons, mem_cons, true_or, if_true, if_neg hl.1, hself,
        lt_irrefl, decide_true, decide_false, Bool.false_eq_true, if_false,
        length_cons] at ih ⊢
      omega
    · have hmem : n ∈ a :: l ↔ n ∈ l := by simp [Ne.symm ha]
      have hlt : a < n + 1 ↔ a < n := by omega
      simp only [filter_cons, hmem, hlt, decide_eq_true_eq]
      split
      · rw [length_cons, length_cons, ih]
        omega
      · exact ih

theorem Seated.skip (h : Seated b rows (n + 1)) (hmem : n ∈ b.batchUpdateBuilder.removed) :
    Seated b rows n := by
  have hnone := (h.removed n (by omega)).mp hmem
  have hsize := h.size
  rw [filter_lt_succ h.nodup, if_pos hmem] at hsize
  refine ⟨h.ids, h.outputs, h.index, fun i hi ↦ h.removed i (by omega), fun i hi ↦ ?_, h.nodup,
    by omega, ⟨by have := h.length.1; omega, h.length.2⟩, h.sorted⟩
  rcases Nat.lt_or_eq_of_le hi with hlt | rfl
  · exact h.beyond i hlt
  · exact hnone

structure MovesDown (b : InputBatch) (rows : Rows) (source target : ℕ) (b' : InputBatch)
    (rows' : Rows) : Prop where
  occupied : ∃ r, rows source = some r
  empty : rows target = none
  beyond : b.numReqs ≤ source
  within : target < b.numReqs
  size : b'.numReqs = b.numReqs
  noted : target ∈ b.batchUpdateBuilder.removed
  rest : ∀ j, j ∈ b'.batchUpdateBuilder.removed ↔ j ∈ b.batchUpdateBuilder.removed ∧ j ≠ target
  rows_eq : rows' = rows.move source target
  columns : b'.toColumns = b.toColumns.move source target
  vocab : b'.vocabSize = b.vocabSize
  added : b'.batchUpdateBuilder.added = b.batchUpdateBuilder.added
  moved : b'.batchUpdateBuilder.moved = b.batchUpdateBuilder.moved ++ [(source, target, .unidirectional)]

theorem MovesDown.lt {b b' rows rows' source}
    (h : MovesDown b rows source target b' rows') : target < source := h.within.trans_le h.beyond

theorem filter_lt_length_le {i n} (hl : l.Nodup) (hlow : ∀ j ∈ l, i ≤ j) :
    (l.filter (· < n)).length ≤ n - i := by
  rw [← toFinset_card_of_nodup (hl.filter _), ← Nat.card_Ico i n]
  refine Finset.card_le_card fun j hj ↦ ?_
  rw [mem_toFinset, mem_filter, decide_eq_true_eq] at hj
  exact Finset.mem_Ico.mpr ⟨hlow j hj.1, hj.2⟩

theorem Seated.moveDown {reqId}
    (h : Seated b rows (n + 1)) (hpop : b.batchUpdateBuilder.popRemoved = some (target, u))
    (hfree : n ∉ b.batchUpdateBuilder.removed) (hlt : target < n)
    (hid : b.reqIds[n]?.join = some reqId) :
    let b' := { b with batchUpdateBuilder := u }.moveDown reqId n target
    Seated b' (rows.move n target) n ∧ MovesDown b rows n target b' (rows.move n target) := by
  have hp := popRemoved_spec h.sorted hpop
  have hmem : target ∈ b.batchUpdateBuilder.removed := hp.perm.mem_iff.mp mem_cons_self
  have hnone := (h.removed target (by omega)).mp hmem
  obtain ⟨r, hr, rfl⟩ : ∃ r, rows n = some r ∧ r.reqId = reqId := by
    have hids := h.ids n
    rw [hid] at hids
    exact Option.map_eq_some_iff.mp hids.symm
  have hlen := h.length
  have hsize := h.size
  rw [filter_lt_succ h.nodup, if_neg hfree] at hsize
  have hperm := (hp.perm.filter (· < n)).length_eq
  rw [filter_cons, if_pos (by simpa using hlt), length_cons] at hperm
  have hholes := filter_lt_length_le (n := n) h.nodup hp.lowest
  have hnum : (b.reqIdToIndex.set r.reqId target).size = b.reqIdToIndex.size :=
    size_set_old (by rw [(h.index r.reqId n).mpr ⟨r, hr, rfl⟩]; rfl) target
  refine ⟨⟨fun j ↦ ?_, fun j ↦ ?_, fun id j ↦ ?_, fun j hj ↦ ?_, fun j hj ↦ ?_, ?_, ?_, ?_, hp.sorted⟩,
    ⟨⟨r, hr⟩, hnone, by omega, by omega, hnum, hmem, hp.mem_iff h.nodup, rfl, rfl, rfl, hp.added, ?_⟩⟩
  · change ((b.reqIds.set target (some r.reqId)).set n none)[j]?.join = _
    rw [join_set_set (by omega) (by omega), funext h.ids]
    have hsome : some r.reqId = (rows n).map (·.reqId) := by rw [hr]; rfl
    rw [hsome, update_map]
    exact congrFun (update_map _ _ n none) j
  · change ((b.reqOutputTokenIds.set target b.reqOutputTokenIds[n]?.join).set n none)[j]?.join = _
    rw [join_set_set (by omega) (by omega), h.outputs n, funext h.outputs, update_map]
    exact congrFun (update_map _ _ n none) j
  · change (b.reqIdToIndex.set r.reqId target).get? id = some j ↔ _
    rw [get?_set, Rows.move, update_apply, update_apply, hr]
    split
    next heq =>
      subst heq
      split
      next hj =>
        subst hj
        simp [hlt.ne]
      next hj =>
        split
        next hj' => simp [hj']
        next hj' =>
          refine iff_of_false (by simpa using Ne.symm hj') ?_
          rintro ⟨r', hr', hid'⟩
          exact hj (h.row_unique hr' hr hid')
    next hne =>
      rw [h.index]
      split
      next hj =>
        subst hj
        rw [hr]
        simp [Ne.symm hne]
      next hj =>
        split
        next hj' =>
          subst hj'
          rw [hnone]
          simp [Ne.symm hne]
        next => exact Iff.rfl
  · rw [Rows.move, update_apply, if_neg (by omega), update_apply]
    change j ∈ u.removed ↔ _
    rw [hp.mem_iff h.nodup, h.removed j (by omega)]
    split
    next hj => simp [hj, hr]
    next hj => simp [hj]
  · rw [Rows.move, update_apply, update_apply]
    split
    · rfl
    next hne =>
      rw [if_neg (by omega)]
      exact h.beyond j (by omega)
  · exact (nodup_cons.mp (hp.perm.nodup_iff.mpr h.nodup)).2
  · change (b.reqIdToIndex.set r.reqId target).size + (u.removed.filter (· < n)).length = n
    dsimp only [numReqs] at hsize
    omega
  · simp only [InputBatch.moveDown, length_set]
    exact ⟨by omega, hlen.2⟩
  · change u.moved ++ _ = _
    rw [hp.moved]

inductive Moves (b : InputBatch) (rows : Rows) : InputBatch → Rows → Prop
  | refl : Moves b rows b rows
  | move {b1 b2 rows1 rows2 source target} (h : Moves b rows b1 rows1)
      (hmove : MovesDown b1 rows1 source target b2 rows2) : Moves b rows b2 rows2

theorem Moves.head {b1 b2 rows1 rows2 source}
    (hmove : MovesDown b rows source target b1 rows1) (h : Moves b1 rows1 b2 rows2) :
    Moves b rows b2 rows2 := by
  induction h with
  | refl => exact .move .refl hmove
  | move _ hlast ih => exact .move ih hlast

/-- The first rows are filled, and only rows behind them are noted as removed. -/
structure Packed (b : InputBatch) (rows : Rows) : Prop where
  ids : ∀ i, b.reqIds[i]?.join = (rows i).map (·.reqId)
  outputs : ∀ i, b.reqOutputTokenIds[i]?.join = (rows i).map (·.outputTokenIds)
  index : ∀ id i, b.reqIdToIndex.get? id = some i ↔ ∃ r, rows i = some r ∧ r.reqId = id
  full : ∀ i, (∃ r, rows i = some r) ↔ i < b.numReqs
  removed : ∀ i ∈ b.batchUpdateBuilder.removed, b.numReqs ≤ i
  length : b.reqIds.length = b.numReqs ∧ b.reqOutputTokenIds.length = b.numReqs

theorem Seated.packed (h : Seated b rows n) (hdone : ∀ i ∈ b.batchUpdateBuilder.removed, n ≤ i) :
    b.numReqs = n ∧ Packed { b with
      reqIds := b.reqIds.take b.numReqs, reqOutputTokenIds := b.reqOutputTokenIds.take b.numReqs }
      rows := by
  have hnum : b.numReqs = n := by
    have hsize := h.size
    rw [filter_eq_nil_iff.mpr fun i hi ↦ by have := hdone i hi; simpa using this] at hsize
    exact hsize
  have hfull : ∀ i, (∃ r, rows i = some r) ↔ i < n := by
    intro i
    constructor
    · rintro ⟨r, hr⟩
      exact h.lt_of_some hr
    · intro hi
      have hsome : rows i ≠ none := mt (h.removed i hi).mpr fun hmem ↦ absurd (hdone i hmem) (by omega)
      exact Option.ne_none_iff_exists'.mp hsome
  have htake {α : Type} (f : CachedRequestState → α) {l : List (Option α)}
      (hl : ∀ j, l[j]?.join = (rows j).map f) (j : ℕ) :
      (l.take b.numReqs)[j]?.join = (rows j).map f := by
    rw [getElem?_take, hnum]
    split
    · exact hl j
    next hge =>
      rw [h.beyond j (by omega)]
      rfl
  have hlen := h.length
  refine ⟨hnum, ⟨htake _ h.ids, htake _ h.outputs, h.index, fun i ↦ ?_, fun i hi ↦ ?_, ?_⟩⟩
  · exact (hfull i).trans (by rw [← hnum]; rfl)
  · exact (hnum.le.trans (hdone i hi) : b.numReqs ≤ i)
  have hsame : numReqs { b with
      reqIds := b.reqIds.take b.numReqs
      reqOutputTokenIds := b.reqOutputTokenIds.take b.numReqs } = b.numReqs := rfl
  rw [hsame]
  exact ⟨by simp; omega, by simp; omega⟩

theorem condenseLoop_spec (h : Seated b rows n) (hrun : condenseLoop n b = .ok b') :
    ∃ rows', Moves b rows b' rows' ∧ ∃ m, Seated b' rows' m ∧
      ∀ i ∈ b'.batchUpdateBuilder.removed, m ≤ i := by
  induction n generalizing b rows with
  | zero =>
    cases hrun
    exact ⟨rows, .refl, 0, h, fun i _ ↦ Nat.zero_le i⟩
  | succ n ih =>
    unfold condenseLoop at hrun
    split at hrun
    next hpop =>
      cases hrun
      refine ⟨rows, .refl, n + 1, h, fun i hi ↦ ?_⟩
      rw [popRemoved_eq_none.mp hpop] at hi
      cases hi
    next target u hpop =>
      split at hrun
      next hmem => exact ih (h.skip hmem) hrun
      next hfree =>
        split at hrun
        next hle =>
          cases hrun
          refine ⟨rows, .refl, n + 1, h, fun i hi ↦ ?_⟩
          have hlow := (popRemoved_spec h.sorted hpop).lowest i hi
          have hne : i ≠ n := fun heq ↦ hfree (heq ▸ hi)
          omega
        next hlt =>
          split at hrun
          · cases hrun
          next reqId hid =>
            obtain ⟨hseated, hmove⟩ := h.moveDown hpop hfree (Nat.not_le.mp hlt) hid
            obtain ⟨rows', hmoves, hdone⟩ := ih hseated hrun
            exact ⟨rows', hmoves.head hmove, hdone⟩

theorem Open.sort (h : Open b rows) : Open { b with
    batchUpdateBuilder := b.batchUpdateBuilder.ensureRemovedSorted } rows := by
  have hperm := b.batchUpdateBuilder.ensureRemovedSorted_perm
  refine .intro h.ids h.outputs h.index (fun i hi ↦ ?_) (hperm.nodup_iff.mpr h.nodup) ?_ h.length.2
    (fun _ ↦ ensureRemovedSorted_pairwise h.sorted)
    (fun i hi ↦ h.bound i (hperm.mem_iff.mp hi))
  · exact hperm.mem_iff.trans (h.removed i hi)
  · have hsize := h.size_eq
    rw [← hperm.length_eq] at hsize
    exact hsize

theorem condense_spec (h : Open b rows) (hrun : b.condense = .ok b') :
    ∃ b1 rows', Moves { b with batchUpdateBuilder := b.batchUpdateBuilder.ensureRemovedSorted } rows
        b1 rows' ∧
      b'.toColumns = b1.toColumns ∧ b'.vocabSize = b1.vocabSize ∧
      b'.batchUpdateBuilder = b1.batchUpdateBuilder ∧ Packed b' rows' := by
  have hsort := h.sort
  unfold condense at hrun
  dsimp only at hrun
  split at hrun
  next hnil =>
    cases hrun
    have hdone : ∀ i ∈ b.batchUpdateBuilder.ensureRemovedSorted.removed, b.reqIds.length ≤ i := by
      rw [hnil]
      simp
    obtain ⟨hnum, hpacked⟩ := hsort.toSeated.packed hdone
    have hids : b.reqIds.take b.numReqs = b.reqIds := take_of_length_le hnum.ge
    have houts : b.reqOutputTokenIds.take b.numReqs = b.reqOutputTokenIds :=
      take_of_length_le (h.length.2.trans hnum.symm).le
    refine ⟨_, rows, .refl, rfl, rfl, rfl, ?_⟩
    rw [show numReqs { b with
      batchUpdateBuilder := b.batchUpdateBuilder.ensureRemovedSorted } = b.numReqs from rfl] at hpacked
    rwa [hids, houts] at hpacked
  next hne =>
    split at hrun
    next hzero =>
      cases hrun
      have hnone : ∀ i, rows i = none := h.toSeated.rows_of_empty hzero
      refine ⟨_, rows, .refl, rfl, rfl, rfl, ⟨fun i ↦ ?_, fun i ↦ ?_, h.index, fun i ↦ ?_,
        fun i _ ↦ ?_, ?_⟩⟩
      · rw [hnone]
        rfl
      · rw [hnone]
        rfl
      · rw [hnone]
        exact iff_of_false (by simp) (hzero ▸ Nat.not_lt_zero i)
      · exact hzero.le.trans (Nat.zero_le i)
      · exact ⟨hzero.symm, hzero.symm⟩
    next hpos =>
      obtain ⟨b1, hloop, hend⟩ := of_bind_eq_ok hrun
      cases hend
      have hseated := hsort.toSeated
      have hsize := hsort.size_eq
      rw [← hsize] at hseated
      obtain ⟨rows', hmoves, m, hm, hdone⟩ := condenseLoop_spec hseated hloop
      exact ⟨b1, rows', hmoves, rfl, rfl, rfl, (hm.packed hdone).2⟩

theorem update_update_swap {α : Type} (f : ℕ → α) (i1 i2) :
    update (update f i1 (f i2)) i2 (f i1) = swapAt i1 i2 f := by
  funext j
  rw [swapAt, comp_apply, swap_apply_def, update_apply, update_apply]
  by_cases h2 : j = i2
  · subst h2
    by_cases h1 : j = i1
    · simp [h1]
    · simp [h1]
  · simp only [h2, if_false]
    split <;> rfl

structure Swaps (b : InputBatch) (rows : Rows) (i1 i2 : ℕ) (b' : InputBatch) : Prop where
  first : ∃ r, rows i1 = some r
  second : ∃ r, rows i2 = some r
  columns : b'.toColumns = b.toColumns.swap i1 i2
  vocab : b'.vocabSize = b.vocabSize
  builder : b'.batchUpdateBuilder = { b.batchUpdateBuilder with
    moved := b.batchUpdateBuilder.moved ++ [(i1, i2, .swap)] }

theorem swapStates_spec {i1 i2} (h : Packed b rows) (hrun : b.swapStates i1 i2 = .ok b') :
    Swaps b rows i1 i2 b' ∧ Packed b' (swapAt i1 i2 rows) := by
  unfold swapStates at hrun
  split at hrun
  next id1 id2 hid1 hid2 =>
    have hb := Except.ok.inj hrun
    obtain ⟨r1, hr1, rfl⟩ : ∃ r, rows i1 = some r ∧ r.reqId = id1 :=
      Option.map_eq_some_iff.mp ((h.ids i1).symm.trans hid1)
    obtain ⟨r2, hr2, rfl⟩ : ∃ r, rows i2 = some r ∧ r.reqId = id2 :=
      Option.map_eq_some_iff.mp ((h.ids i2).symm.trans hid2)
    have hlt1 := (h.full i1).mp ⟨r1, hr1⟩
    have hlt2 := (h.full i2).mp ⟨r2, hr2⟩
    have hlen := h.length
    have hget1 := (h.index r1.reqId i1).mpr ⟨r1, hr1, rfl⟩
    have hget2 := (h.index r2.reqId i2).mpr ⟨r2, hr2, rfl⟩
    have hsize : b'.numReqs = b.numReqs := by
      rw [← hb]
      exact (size_set_old (by rw [get?_set, hget2]; split <;> rfl) _).trans
        (size_set_old (by rw [hget1]; rfl) _)
    subst hb
    refine ⟨⟨⟨r1, hr1⟩, ⟨r2, hr2⟩, rfl, rfl, rfl⟩,
      ⟨fun j ↦ ?_, fun j ↦ ?_, fun id j ↦ ?_, fun j ↦ ?_, fun j hj ↦ ?_, ?_⟩⟩
    · rw [join_set_set (by omega) (by omega), ← hid1, ← hid2, update_update_swap, funext h.ids]
      rfl
    · rw [join_set_set (by omega) (by omega), update_update_swap, funext h.outputs]
      rfl
    · have hrow : (∃ r, swapAt i1 i2 rows j = some r ∧ r.reqId = id) ↔
          b.reqIdToIndex.get? id = some (swap i1 i2 j) := (h.index id (swap i1 i2 j)).symm
      rw [hrow, hget1, hget2, Option.getD_some, Option.getD_some, get?_set, get?_set]
      split
      next heq =>
        rw [heq, hget2, Option.some_inj, Option.some_inj, eq_comm (a := i2), swap_apply_eq_iff,
          swap_apply_right, eq_comm]
      next hne2 =>
        split
        next heq =>
          rw [heq, hget1, Option.some_inj, Option.some_inj, eq_comm (a := i1), swap_apply_eq_iff,
            swap_apply_left, eq_comm]
        next hne1 =>
          -- another request is in neither of the two rows
          have hother : ∀ k, b.reqIdToIndex.get? id = some k → k ≠ i1 ∧ k ≠ i2 := by
            intro k hk
            obtain ⟨r, hr, rfl⟩ := (h.index id k).mp hk
            refine ⟨?_, ?_⟩
            · rintro rfl
              exact hne1 (by rw [Option.some.inj (hr.symm.trans hr1)])
            · rintro rfl
              exact hne2 (by rw [Option.some.inj (hr.symm.trans hr2)])
          constructor
          · intro hj
            rw [swap_apply_of_ne_of_ne (hother j hj).1 (hother j hj).2]
            exact hj
          intro hj
          have hback := swap_apply_of_ne_of_ne (hother _ hj).1 (hother _ hj).2
          rw [swap_apply_self] at hback
          rwa [← hback] at hj
    · change (∃ r, rows (swap i1 i2 j) = some r) ↔ _
      rw [h.full, hsize, swap_apply_def]
      split
      next heq => subst heq; exact iff_of_true hlt2 hlt1
      next =>
        split
        next heq => subst heq; exact iff_of_true hlt1 hlt2
        next => exact Iff.rfl
    · exact hsize.le.trans (h.removed j hj)
    · rw [hsize]
      simpa only [length_set] using hlen
  next => cases hrun

theorem Packed.refresh (h : Packed b rows) : Open b.refresh.1 rows := by
  refine .intro h.ids h.outputs h.index (fun i hi ↦ ?_) nodup_nil ?_
    (h.length.2.trans h.length.1.symm) (fun _ ↦ List.Pairwise.nil) (fun i hi ↦ ?_)
  · obtain ⟨r, hr⟩ := (h.full i).mpr (h.length.1 ▸ hi)
    rw [hr]
    simp [InputBatch.refresh]
  · exact h.length.1.symm
  · cases hi

end

end VllmEngine.Worker
