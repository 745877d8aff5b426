import VllmEngine.Sched.Scheduler

namespace VllmEngine.Sched

open VllmEngine.Core List

namespace RunningLoop

variable {σ : Type} {be : Backend σ} {cfg : SchedulerLimits} {l : RunningLoop σ} {r : QueuedRequest}
  {n : ℤ}

def ids (l : RunningLoop σ) : List ReqId := l.running.map (·.requestId)

/-- A rule for the loop around `allocate_slots`: what preemptions keep holds when blocks are found. -/
theorem allocateLoop_rule (be : Backend σ) (cfg) (request : QueuedRequest) (n)
    (I : RunningLoop σ → Prop) (halloc : ∀ l, I l →
      I { l with engine := (be.allocateSlots l.engine request request.numComputedTokens false n).2 })
    (hstep : ∀ l r, I l → victim cfg.policy l.running = some r → r.requestId ≠ request.requestId →
      I (l.preempt be cfg r)) (fuel) (h : I l)
    (hfound : (l.allocateLoop be cfg request n fuel).1 = true) :
    I (l.allocateLoop be cfg request n fuel).2 := by
  induction fuel generalizing l with
  | zero => cases hfound
  | succ fuel ih =>
    have h' := halloc l h
    unfold allocateLoop at hfound ⊢
    dsimp only at hfound ⊢
    split at hfound
    next hout =>
      rw [if_pos hout]
      exact h'
    next hout =>
      rw [if_neg hout]
      split at hfound
      · cases hfound
      next r hr =>
        split at hfound
        · cases hfound
        next hid =>
          rw [if_neg hid]
          exact ih (hstep _ r h' hr hid) hfound

/-- What a turn does: the request is skipped, it is scheduled, or the loop ends. -/
theorem visit_cases (be : Backend σ) (cfg) (r : QueuedRequest) (l : RunningLoop σ) :
    (∃ s, l.visit be cfg r = { l with engine := s }.skip r) ∨
      ∃ found l', allocateLoop be cfg r (l.plan be cfg r).1 l.running.length
          { l with engine := (l.plan be cfg r).2 } = (found, l') ∧
        l.visit be cfg r =
          if found then l'.schedule be r (l.plan be cfg r).1 else { l' with broken := true } := by
  unfold visit
  split
  · exact .inl ⟨l.engine, rfl⟩
  dsimp only
  split
  · exact .inl ⟨_, rfl⟩
  · exact .inr ⟨_, _, rfl, rfl⟩

theorem ids_preempt : (l.preempt be cfg r).ids = l.ids.filter (· ≠ r.requestId) := by
  change (l.running.filter _).map _ = (l.running.map _).filter _
  rw [filter_map]
  rfl

theorem ids_schedule : (l.schedule be r n).ids = l.ids := by
  change (l.running.map _).map _ = l.running.map _
  rw [map_map]
  refine map_congr_left fun r' _ ↦ ?_
  dsimp only [Function.comp]
  split <;> rfl

theorem mem_of_foldl_later {running : List QueuedRequest} {last}
    (hr : running.foldl later last = some r) : last = some r ∨ r ∈ running := by
  induction running generalizing last with
  | nil => exact .inl hr
  | cons r' running ih =>
    rcases ih hr with hlast | hmem
    · have hcase : last = some r ∨ r' = r := by
        unfold later at hlast
        split at hlast
        · exact .inr (Option.some.inj hlast)
        · split at hlast
          · exact .inr (Option.some.inj hlast)
          · exact .inl hlast
      exact hcase.imp_right fun heq ↦ mem_cons.mpr (.inl heq.symm)
    · exact .inr (mem_cons_of_mem _ hmem)

theorem mem_of_victim {policy running} (hr : victim policy running = some r) : r ∈ running := by
  cases policy with
  | fcfs => exact mem_of_getLast? hr
  | priority => exact (mem_of_foldl_later hr).resolve_left nofun

end RunningLoop

end VllmEngine.Sched
