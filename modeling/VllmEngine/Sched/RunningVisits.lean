import VllmEngine.Core.KVCacheManager
import VllmEngine.Core.PoolRun
import VllmEngine.Sched.RunningTurns

namespace VllmEngine.Sched

open Lib VllmEngine.Core BlockPool List

namespace RunningLoop

variable {σ : Type} {be : Backend σ} {cfg : SchedulerLimits} {l : RunningLoop σ} {r : QueuedRequest}
  {ids0 : List ReqId}

theorem drop_filter_subset {p : ReqId → Bool} {ids : List ReqId} {i k}
    (hk : ((ids.take i).filter p).length ≤ k) : (ids.filter p).drop k ⊆ ids.drop i := by
  have hsplit : ids.filter p = (ids.take i).filter p ++ (ids.drop i).filter p := by
    rw [← filter_append, take_append_drop]
  rw [hsplit, drop_append, drop_of_length_le hk, nil_append]
  exact Subset.trans (drop_subset _ _) (filter_subset_self _)

theorem filter_ne {ids : List ReqId} (hids : ids.Nodup) (id : ReqId) :
    ids.filter (· ≠ id) = ids.erase id := by
  rw [hids.erase_eq_filter]
  exact filter_congr fun _ _ ↦ by rw [Bool.eq_iff_iff]; simp

theorem last_behind {ids init : List ReqId} {last id i} (hids : ids = init ++ [last])
    (hnodup : ids.Nodup) (hi : ids[i]? = some id) (hne : last ≠ id) :
    last ∈ ids.drop i ∧ (ids.filter (· ≠ last))[i]? = some id := by
  subst hids
  have hlt : i < init.length := by
    by_contra hge
    rw [getElem?_append_right (by omega), getElem?_singleton] at hi
    split at hi
    · exact hne (Option.some.inj hi)
    · cases hi
  have hnot : last ∉ init := fun hmem ↦ disjoint_of_nodup_append hnodup hmem (mem_singleton_self _)
  rw [filter_ne hnodup, erase_append_right _ hnot, erase_cons_head, append_nil, drop_append,
    Nat.sub_eq_zero_of_le hlt.le]
  rw [getElem?_append_left hlt] at hi
  exact ⟨mem_append_right _ (mem_singleton_self _), hi⟩

def scheduledIds (l : RunningLoop σ) : List ReqId := l.scheduledRunningReqs.map (·.requestId)

def preemptedIds (l : RunningLoop σ) : List ReqId := l.preemptedReqs.map (·.requestId)

def skippedIds (l : RunningLoop σ) : List ReqId := l.skipped.map (·.requestId)

def examinedIds (l : RunningLoop σ) : List ReqId := l.scheduledIds ++ l.skippedIds

/-- The index counts the requests examined so far. They are running, but for those that were skipped
and then preempted, and none of them stands behind the index. -/
structure Counted (policy : SchedulingPolicy) (ids0 : List ReqId) (l : RunningLoop σ) : Prop where
  nodup : (l.ids ++ l.preemptedIds).Nodup
  all : (l.ids ++ l.preemptedIds).Perm ids0
  once : l.examinedIds.Nodup
  index : l.reqIndex = l.examinedIds.length
  fresh : ∀ id ∈ l.ids.drop l.reqIndex, id ∉ l.examinedIds
  kept : ∀ id ∈ l.examinedIds,
    id ∈ l.ids ∨ policy = .priority ∧ id ∈ l.preemptedIds ∧ id ∈ l.skippedIds

/-- A preempted request that was scheduled takes the index back; one that was skipped does not. -/
theorem Counted.preempt {l' : RunningLoop σ} (h : Counted cfg.policy ids0 l)
    (hr : victim cfg.policy l.running = some r)
    (hlast : cfg.policy = .fcfs → r.requestId ∈ l.ids.drop l.reqIndex)
    (hl' : l' = l.preempt be cfg r) :
    Counted cfg.policy ids0 l' ∧ l'.ids.length + l.reqIndex ≤ l.ids.length + l'.reqIndex ∧
      l'.examinedIds ⊆ l.examinedIds ∧
      ∀ k, l'.ids.drop (l'.reqIndex + k) ⊆ l.ids.drop (l.reqIndex + k) := by
  have hids : l'.ids = l.ids.filter (· ≠ r.requestId) := by rw [hl', ids_preempt]
  have hmem : r.requestId ∈ l.ids := mem_map_of_mem (mem_of_victim hr)
  have hperm : l.ids.Perm (r.requestId :: l'.ids) := by
    rw [hids, filter_ne (nodup_append.mp h.nodup).1]
    exact perm_cons_erase hmem
  have hpre : l'.preemptedIds = l.preemptedIds ++ [r.requestId] := by
    rw [hl']
    exact map_append
  have hall : (l'.ids ++ l'.preemptedIds).Perm (l.ids ++ l.preemptedIds) := by
    rw [hpre, ← append_assoc]
    exact (perm_append_singleton _ _).trans (hperm.append_right _).symm
  have hskip : l'.skippedIds = l.skippedIds := by
    rw [hl']
    simp only [skippedIds, RunningLoop.preempt]
    split <;> rfl
  have hsched : l'.scheduledIds = l.scheduledIds.erase r.requestId ∧
      l'.reqIndex = l.reqIndex - if r.requestId ∈ l.scheduledIds then 1 else 0 := by
    have hiff : r.requestId ∈ l.scheduledIds ↔ l.isScheduled r = true := by
      simp [scheduledIds, isScheduled]
    rw [hl', ← filter_ne (nodup_append.mp h.once).1]
    by_cases hs : r.requestId ∈ l.scheduledIds
    · have hp : cfg.policy = .priority := by
        cases hp : cfg.policy with
        | fcfs => exact absurd (mem_append_left _ hs) (h.fresh _ (hlast hp))
        | priority => rfl
      rw [if_pos hs]
      simp only [RunningLoop.preempt, scheduledIds, if_pos (And.intro hp (hiff.mp hs))]
      refine ⟨?_, rfl⟩
      change (l.scheduledRunningReqs.filter _).map _ = _
      rw [filter_map]
      rfl
    · have hno : ¬ (cfg.policy = .priority ∧ l.isScheduled r = true) := fun hc ↦ hs (hiff.mpr hc.2)
      rw [if_neg hs]
      simp only [RunningLoop.preempt, if_neg hno]
      refine ⟨(filter_eq_self.mpr fun id hid ↦ ?_).symm, rfl⟩
      exact decide_eq_true fun heq ↦ hs (heq ▸ hid)
  obtain ⟨hsched, hidx⟩ := hsched
  have hsub : l'.examinedIds <+ l.examinedIds := by
    rw [examinedIds, hsched, hskip]
    exact erase_sublist.append_right _
  have hindex : l'.reqIndex = l'.examinedIds.length := by
    rw [hidx, h.index, examinedIds, examinedIds, hsched, hskip, length_append, length_append,
      length_erase]
    split
    next hs =>
      have := length_pos_of_mem hs
      omega
    · rfl
  have hdrop (k) : l'.ids.drop (l'.reqIndex + k) ⊆ l.ids.drop (l.reqIndex + k) := by
    rw [hids, hidx]
    apply drop_filter_subset
    have hle := length_take_le (l.reqIndex + k) l.ids
    split
    next hs =>
      have hpos : 0 < l.reqIndex := h.index ▸ length_pos_of_mem (mem_append_left _ hs)
      have hfront : r.requestId ∈ l.ids.take (l.reqIndex + k) := by
        rw [← take_append_drop l.reqIndex l.ids] at hmem
        rcases mem_append.mp hmem with hmem | hmem
        · exact take_subset_take_left _ (Nat.le_add_right _ _) hmem
        · exact absurd (mem_append_left _ hs) (h.fresh _ hmem)
      have hlt : ((l.ids.take (l.reqIndex + k)).filter (· ≠ r.requestId)).length < _ :=
        length_filter_lt_length_iff_exists.mpr ⟨_, hfront, by simp⟩
      omega
    · exact (length_filter_le _ _).trans hle
  refine ⟨⟨hall.nodup_iff.mpr h.nodup, hall.trans h.all, h.once.sublist hsub, hindex, ?_, ?_⟩, ?_,
    hsub.subset, hdrop⟩
  · intro id hid hex
    exact h.fresh id (hdrop 0 hid) (hsub.subset hex)
  · intro id hid
    rw [hpre, hskip]
    rcases h.kept id (hsub.subset hid) with hin | ⟨hp, hin, hk⟩
    · by_cases heq : id = r.requestId
      · subst heq
        right
        refine ⟨?_, mem_append_right _ (mem_singleton_self _), ?_⟩
        · cases hp : cfg.policy with
          | fcfs => exact absurd (hsub.subset hid) (h.fresh _ (hlast hp))
          | priority => rfl
        · rw [examinedIds, hsched, hskip] at hid
          exact (mem_append.mp hid).resolve_left fun hs ↦ (nodup_append.mp h.once).1.not_mem_erase hs
      · rw [hids]
        exact .inl (mem_filter.mpr ⟨hin, decide_eq_true heq⟩)
    · exact .inr ⟨hp, mem_append_left _ hin, hk⟩
  · have hlen := hperm.length_eq
    rw [length_cons] at hlen
    rw [hidx]
    split <;> omega

theorem Counted.advance {policy} {l' : RunningLoop σ} {id} (h : Counted policy ids0 l)
    (hid : id ∈ l.ids) (hbehind : id ∉ l.ids.drop (l.reqIndex + 1)) (hnew : id ∉ l.examinedIds)
    (hids : l'.ids = l.ids) (hidx : l'.reqIndex = l.reqIndex + 1)
    (hpre : l'.preemptedIds = l.preemptedIds)
    (hperm : l'.examinedIds.Perm (id :: l.examinedIds)) (hskip : l.skippedIds ⊆ l'.skippedIds) :
    Counted policy ids0 l' := by
  refine ⟨by rw [hids, hpre]; exact h.nodup, by rw [hids, hpre]; exact h.all,
    hperm.nodup_iff.mpr (nodup_cons.mpr ⟨hnew, h.once⟩), ?_, ?_, ?_⟩
  · rw [hidx, h.index, hperm.length_eq, length_cons]
  · intro id' hid' hex
    rw [hids, hidx] at hid'
    rcases mem_cons.mp (hperm.subset hex) with rfl | hex
    · exact hbehind hid'
    · exact h.fresh id' (drop_subset_drop_left _ (Nat.le_succ _) hid') hex
  · intro id' hex
    rw [hids, hpre]
    rcases mem_cons.mp (hperm.subset hex) with rfl | hex
    · exact .inl hid
    · exact (h.kept id' hex).imp_right (And.imp_right (And.imp_right fun hk ↦ hskip hk))

/-- A turn that does not end the loop brings the index closer to the end of the list. -/
theorem Counted.visit (h : Counted cfg.policy ids0 l) (hr : l.running[l.reqIndex]? = some r)
    (hgo : (l.visit be cfg r).broken = false) :
    Counted cfg.policy ids0 (l.visit be cfg r) ∧
      (l.visit be cfg r).ids.length + l.reqIndex + 1 ≤ l.ids.length + (l.visit be cfg r).reqIndex := by
  have hid : l.ids[l.reqIndex]? = some r.requestId := by
    rw [ids, getElem?_map, hr]
    rfl
  have hdrop : l.ids.drop l.reqIndex = r.requestId :: l.ids.drop (l.reqIndex + 1) := by
    obtain ⟨hlt, heq⟩ := List.getElem?_eq_some_iff.mp hid
    rw [drop_eq_getElem_cons hlt, heq]
  have hmem : r.requestId ∈ l.ids := mem_of_getElem? hid
  have hbehind : r.requestId ∉ l.ids.drop (l.reqIndex + 1) := by
    have hnodup := (nodup_append.mp h.nodup).1.sublist (drop_sublist l.reqIndex _)
    rw [hdrop] at hnodup
    exact (nodup_cons.mp hnodup).1
  have hnew := h.fresh r.requestId (hdrop ▸ mem_cons_self)
  rcases visit_cases be cfg r l with ⟨s, heq⟩ | ⟨found, l1, hloop, heq⟩
  · rw [heq]
    refine ⟨h.advance hmem hbehind hnew rfl rfl rfl ?_ ?_, le_rfl⟩
    · simp only [examinedIds, skippedIds, skip, map_append, ← append_assoc]
      exact perm_append_singleton _ _
    · exact map_subset _ (subset_append_left _ _)
  cases found with
  | false =>
    rw [heq] at hgo
    cases hgo
  | true =>
    rw [heq, if_pos rfl]
    have hrule := allocateLoop_rule be cfg r (l.plan be cfg r).1
      (fun l' ↦ Counted cfg.policy ids0 l' ∧ r.requestId ∈ l'.ids ∧
        r.requestId ∉ l'.ids.drop (l'.reqIndex + 1) ∧ r.requestId ∉ l'.examinedIds ∧
        (cfg.policy = .fcfs → l'.ids[l'.reqIndex]? = some r.requestId) ∧
        l'.ids.length + l.reqIndex ≤ l.ids.length + l'.reqIndex)
      (fun _ ⟨hc, hrest⟩ ↦ ⟨⟨hc.1, hc.2, hc.3, hc.4, hc.5, hc.6⟩, hrest⟩)
      (fun l' r' ⟨hc, hin, hbehind, hnew, hfcfs, hle⟩ hvict hne ↦ ?_) l.running.length
      (l := { l with engine := (l.plan be cfg r).2 })
      ⟨⟨h.1, h.2, h.3, h.4, h.5, h.6⟩, hmem, hbehind, hnew, fun _ ↦ hid, le_rfl⟩ (by rw [hloop])
    · rw [hloop] at hrule
      obtain ⟨hc, hin, hbehind, hnew, -, hle⟩ := hrule
      refine ⟨hc.advance hin hbehind hnew ids_schedule rfl rfl ?_ fun _ ↦ id, ?_⟩
      · simp only [examinedIds, scheduledIds, schedule, map_append, append_assoc]
        exact perm_middle
      · rw [ids_schedule]
        exact Nat.succ_le_succ hle
    · have hlast (hp : cfg.policy = .fcfs) := by
        rw [hp] at hvict
        have hsplit : l'.ids = l'.running.dropLast.map (·.requestId) ++ [r'.requestId] := by
          conv_lhs => rw [ids, ← dropLast_append_getLast? r' hvict, map_append]
          rfl
        exact last_behind hsplit (nodup_append.mp hc.nodup).1 (hfcfs hp) hne
      obtain ⟨hc', hlen, hsub, hdrop⟩ := hc.preempt hvict (fun hp ↦ (hlast hp).1) rfl
      refine ⟨hc', ?_, fun hmem ↦ hbehind (hdrop 1 hmem), fun hmem ↦ hnew (hsub hmem), fun hp ↦ ?_,
        by omega⟩
      · rw [ids_preempt]
        exact mem_filter.mpr ⟨hin, decide_eq_true hne.symm⟩
      · rw [ids_preempt, show (l'.preempt be cfg r').reqIndex = l'.reqIndex by
          simp [RunningLoop.preempt, hp]]
        exact (hlast hp).2

theorem loop_of_broken (hb : l.broken = true) (fuel) : loop be cfg fuel l = l := by
  cases fuel with
  | zero => rfl
  | succ fuel => rw [loop, if_neg (by simp [hb])]

theorem Counted.loop {fuel} (h : Counted cfg.policy ids0 l)
    (hfuel : l.ids.length ≤ l.reqIndex + fuel) (hend : (loop be cfg fuel l).broken = false)
    (hbudget : 0 < (loop be cfg fuel l).tokenBudget) :
    Counted cfg.policy ids0 (loop be cfg fuel l) ∧
      (loop be cfg fuel l).ids.length ≤ (loop be cfg fuel l).reqIndex := by
  induction fuel generalizing l with
  | zero => exact ⟨h, hfuel⟩
  | succ fuel ih =>
    unfold RunningLoop.loop at hend hbudget ⊢
    split at hend
    next hc =>
      rw [if_pos hc] at hbudget ⊢
      cases hr : l.running[l.reqIndex]? with
      | none =>
        have hle := getElem?_eq_none_iff.mp hr
        exact ⟨h, by rwa [ids, length_map]⟩
      | some r =>
        rw [hr] at hend hbudget
        dsimp only at hend hbudget ⊢
        cases hb : (l.visit be cfg r).broken with
        | true =>
          rw [loop_of_broken hb] at hend
          exact absurd (hend.symm.trans hb) Bool.false_ne_true
        | false =>
          obtain ⟨hv, hlen⟩ := h.visit hr hb
          exact ih hv (by omega) hend hbudget
    next hc =>
      rw [if_neg hc] at hbudget
      exact absurd ⟨hend, hbudget⟩ hc

end RunningLoop

def unlimited : Backend Unit where
  planEncoder s _ _ _ := (none, s)
  allocateSlots s _ _ _ _ := (true, s)
  commitEncoder s _ := s
  free s _ _ := s
  receive s _ := (none, s)
  grammarReady _ _ := true
  lookup _ _ := some (0, false)

/-- A request of which `computed` tokens are computed, with one more unless its last one is in
flight. -/
def decoding (requestId : ReqId) (priority : ℤ) (computed : ℕ) (last : Bool) : QueuedRequest where
  requestId
  allTokenIds := replicate (if last then computed else computed + 1) 7
  numComputedTokens := computed
  promptTokenIds := replicate computed 7
  numPromptTokens := computed
  numOutputPlaceholders := if last then 1 else 0
  maxTokens := if last then 1 else 8
  status := .running
  priority

def pairLimits (policy : SchedulingPolicy) : SchedulerLimits where
  blockSize := 4
  maxModelLen := 100
  policy
  maxNumScheduledTokens := 16
  maxNumRunningReqs := 8

end VllmEngine.Sched
