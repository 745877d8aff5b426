import VllmEngine.Sched.RunningVisits

namespace VllmEngine.Sched

open Lib VllmEngine.Core List Option RequestQueue List.Sublist WaitingLoop SchedulerState

/-- The request that a turn leaves in the queues or schedules. -/
def WaitingTurn.request? {σ : Type} : WaitingTurn σ → Option QueuedRequest
  | .setAside r _ => some r
  | .stop r _ => some r
  | .fail => none
  | .schedule r _ _ _ => some r

namespace WaitingLoop

section

variable {σ Q : Type} {be : Backend σ} {cfg : SchedulerLimits} {w : WaitingLoop σ Q}
  {r r' : QueuedRequest} {engine : σ}

theorem promote_id (h : (promote be engine r).1 = some r') : r'.requestId = r.requestId := by
  unfold promote at h
  split at h
  · obtain ⟨_, -, rfl⟩ := map_eq_some_iff.mp h
    rfl
  · split at h
    · rw [← some.inj h]
    · cases h
  · cases h
  · rw [← some.inj h]

theorem admitRequest_id {computed}
    (h : (w.admitRequest be cfg engine r computed).request? = some r') : r' = r := by
  unfold admitRequest at h
  dsimp only at h
  split at h
  · exact (some.inj h).symm
  split at h
  · cases h
  split at h
  · exact (some.inj h).symm
  split at h
  · exact (some.inj h).symm
  split at h
  · exact (some.inj h).symm
  · cases h

theorem turn_id (h : (w.turn be cfg r).request? = some r') : r'.requestId = r.requestId := by
  unfold turn at h
  split at h
  · rw [← some.inj h]
  next r1 engine hp =>
    have hid : r1.requestId = r.requestId := promote_id (congrArg Prod.fst hp)
    rw [← hid]
    split at h
    · rw [← some.inj h]
    split at h
    · rw [← some.inj h]
    · rw [admitRequest_id h]
    · dsimp only at h
      split at h <;> rw [← some.inj h]

end

variable {σ : Type} {be : Backend σ} {cfg : SchedulerLimits} {w w' : WaitingLoop σ FCFSRequestQueue}

def queues (w : WaitingLoop σ FCFSRequestQueue) : List QueuedRequest :=
  w.skippedWaiting.deque ++ w.waiting.deque

/-- The ids in the queues of a step, with those of the requests set aside first. -/
def line (w : WaitingLoop σ FCFSRequestQueue) : List ReqId :=
  (w.stepSkippedWaiting.deque.reverse ++ w.queues).map (·.requestId)

@[simp]
theorem onSelected_step (f : FCFSRequestQueue → FCFSRequestQueue) :
    (w.onSelected cfg f).stepSkippedWaiting = w.stepSkippedWaiting := by
  unfold onSelected
  split <;> rfl

/-- The selected request is the first one of the two queues. -/
theorem queues_onSelected (hpolicy : cfg.policy = .fcfs) {r} (hhead : peekRequest
      (if w.selectsSkipped cfg then w.skippedWaiting else w.waiting) = some r) :
    w.queues = r :: (w.onSelected cfg popRequest).queues ∧
      ∀ r', (w.onSelected cfg (setHead r')).queues =
        r' :: (w.onSelected cfg popRequest).queues := by
  have hsel : w.selectsSkipped cfg = w.skippedWaiting.deque.head?.isSome := by
    simp only [selectsSkipped, peekRequest, hpolicy]
    split <;> simp [*]
  unfold queues onSelected
  simp only [hsel] at hhead ⊢
  cases hskip : w.skippedWaiting.deque with
  | nil =>
    simp only [hskip, head?_nil, isSome_none, Bool.false_eq_true, if_false] at hhead
    obtain ⟨rest, hrest⟩ := head?_eq_some_iff.mp hhead
    simp [popRequest, setHead, hskip, hrest]
  | cons r1 rest =>
    rw [hskip] at hhead
    obtain rfl : r1 = r := by simpa [peekRequest, hskip] using hhead
    simp [popRequest, setHead, hskip]

/-- A turn takes the first request of the line or leaves it there. -/
theorem apply_line (hpolicy : cfg.policy = .fcfs) {r t go}
    (hhead : peekRequest (if w.selectsSkipped cfg then w.skippedWaiting else w.waiting) = some r)
    (hid : ∀ r', t.request? = some r' → r'.requestId = r.requestId)
    (h : w.apply cfg t = some (w', go)) : w'.line.Sublist w.line := by
  obtain ⟨hline, hset⟩ := queues_onSelected hpolicy hhead
  unfold line
  rw [hline]
  cases t with
  | setAside r' engine =>
    cases h
    change (((r' :: w.stepSkippedWaiting.deque).reverse ++
      (w.onSelected cfg popRequest).queues).map (·.requestId)).Sublist _
    simp [hid r' rfl]
  | stop r' engine =>
    cases h
    change (((w.onSelected cfg (setHead r')).stepSkippedWaiting.deque.reverse ++
      (w.onSelected cfg (setHead r')).queues).map (·.requestId)).Sublist _
    rw [hset, onSelected_step]
    simp [hid r' rfl]
  | fail => cases h
  | schedule r' numComputedTokens n engine =>
    cases h
    change (((w.onSelected cfg popRequest).stepSkippedWaiting.deque.reverse ++
      (w.onSelected cfg popRequest).queues).map (·.requestId)).Sublist _
    rw [onSelected_step]
    exact ((sublist_cons_self _ _).append_left _).map _

theorem loop_line (hpolicy : cfg.policy = .fcfs) {fuel} (h : w.loop be cfg fuel = some w') :
    w'.line.Sublist w.line := by
  induction fuel generalizing w with
  | zero => exact some.inj h ▸ refl _
  | succ fuel ih =>
    unfold loop at h
    split at h
    · exact some.inj h ▸ refl _
    split at h
    · exact some.inj h ▸ refl _
    next r hhead =>
      split at h
      · cases h
      next w1 hturn => exact some.inj h ▸ apply_line hpolicy hhead (fun _ ↦ turn_id) hturn
      next w1 hturn => exact (ih h).trans (apply_line hpolicy hhead (fun _ ↦ turn_id) hturn)

end WaitingLoop

/-- The ids of the skipped requests, followed by those of the waiting ones. -/
def SchedulerState.queued {σ : Type} (s : SchedulerState σ FCFSRequestQueue) : List ReqId :=
  (s.skippedWaiting.deque ++ s.waiting.deque).map (·.requestId)

theorem pair_sublist {α : Type} [DecidableEq α] {l l'} {a b : α} (hl : l.Sublist l')
    (hnodup : l'.Nodup) (ha : a ∈ l) (hb : b ∈ l) (h : [a, b].Sublist l') : [a, b].Sublist l := by
  have hfilter : l = l'.filter (· ∈ l) := by
    refine eq_of_length_le ?_
      (subperm_of_subset (hnodup.filter _) fun x hx ↦ ?_).length_le
    · have h := hl.filter (· ∈ l)
      rwa [filter_eq_self.mpr fun _ hx ↦ decide_eq_true hx] at h
    · simpa using (mem_filter.mp hx).2
  have h' := h.filter (· ∈ l)
  rw [← hfilter] at h'
  simpa [ha, hb] using h'

theorem deque_prepend (preempted : List QueuedRequest) (q : FCFSRequestQueue) :
    (preempted.foldl (fun q r ↦ prependRequest r q) q).deque = preempted.reverse ++ q.deque := by
  induction preempted generalizing q with
  | nil => rfl
  | cons r preempted ih =>
    rw [foldl_cons, ih, reverse_cons, append_assoc]
    rfl

/-- Two requests that are queued before and after a step keep their order. -/
theorem waiting_order_kept {σ : Type} {be : Backend σ} {cfg : SchedulerLimits}
    {s : SchedulerState σ FCFSRequestQueue} {pauseState : PauseState} {l : RunningLoop σ}
    {w : WaitingLoop σ FCFSRequestQueue} (hpolicy : cfg.policy = .fcfs) (hids : s.queued.Nodup)
    (h : s.schedule be cfg pauseState = some (l, w)) {a b : ReqId} (hab : [a, b].Sublist s.queued)
    (ha : a ∈ w.queues.map (·.requestId)) (hb : b ∈ w.queues.map (·.requestId)) :
    [a, b].Sublist (w.queues.map (·.requestId)) := by
  unfold schedule at h
  dsimp only at h
  split at h
  · cases h
  split at h
  next hloop =>
    obtain ⟨w1, hw1, heq⟩ := map_eq_some_iff.mp h
    have hqueues : w.queues.map (·.requestId) = w1.line := by
      rw [← (Prod.mk.inj heq).2]
      simp [line, queues, prependRequests]
    rw [hqueues] at ha hb ⊢
    refine pair_sublist ?_ hids ha hb hab
    have hline := loop_line hpolicy hw1
    simpa [queued, line, queues, enterWaiting,
      empty, hloop.1] using hline
  next hloop =>
    cases h
    refine hab.trans (List.Sublist.map _ ?_)
    change (s.skippedWaiting.deque ++ s.waiting.deque).Sublist (s.skippedWaiting.deque ++ _)
    rw [enterWaiting, deque_prepend]
    exact (sublist_append_right _ _).append_left _

def fiveWaiting : SchedulerState Unit FCFSRequestQueue where
  engine := ()
  running := []
  waiting := ⟨[{ decoding "a" 0 1 false with status := .waitingForStreamingReq },
    { decoding "b" 0 1 false with status := .waiting },
    { decoding "c" 0 1 false with status := .waitingForStreamingReq },
    { decoding "d" 0 1 false with status := .waiting },
    { decoding "e" 0 1 false with status := .waiting }]⟩
  skippedWaiting := ⟨[]⟩

def twoRunning : SchedulerLimits := { pairLimits .fcfs with maxNumRunningReqs := 2 }

theorem waiting_order_kept_of_two_skipped :
    ∃ l w, fiveWaiting.schedule unlimited twoRunning .unpaused = some (l, w) ∧
      w.skippedWaiting.deque.map (·.requestId) = ["a", "c"] ∧
      w.running.map (·.requestId) = ["b", "d"] ∧
      ["a", "c"].Sublist (w.queues.map (·.requestId)) :=
  ⟨_, _, rfl, by decide, by decide, @waiting_order_kept _ unlimited twoRunning fiveWaiting .unpaused
    _ _ rfl (by decide) rfl "a" "c" (by decide) (by decide) (by decide)⟩

end VllmEngine.Sched
