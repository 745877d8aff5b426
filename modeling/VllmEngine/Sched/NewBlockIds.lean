import VllmEngine.Sched.WindowRun

namespace VllmEngine.Sched

open Lib VllmEngine.Core

/-- `new_block_ids` of a manager, filled only if the type of its spec is `FullAttentionSpec` or
`TQFullAttentionSpec`, and no other subclass. -/
structure NewBlockLog where
  recorded : Bool
  newBlockIds : List Ref := []

/-- The blocks that `allocate_slots` gets for group `i`: those behind the blocks that the table had
before, and the hits. -/
def SlotCall.newBlocks (c : SlotCall) (e e' : Engine) (i : ℕ) : List Ref :=
  match e.kv.singleTypeManagers[i]?, e'.kv.singleTypeManagers[i]? with
  | some m, some m' => (m'.table c.request.requestId).drop
      ((m.table c.request.requestId).length + ((c.args.hits e.kv).getD i []).length)
  | _, _ => []

namespace NewBlockLog

def extend (log : NewBlockLog) (blocks : List Ref) : NewBlockLog :=
  if log.recorded then { log with newBlockIds := log.newBlockIds ++ blocks } else log

def takeNewBlockIds (log : NewBlockLog) : NewBlockLog := { log with newBlockIds := [] }

variable (isRecorded : KVCacheSpec → Bool) (kvCacheConfig : KVCacheManagerConfig)

def hasMambaLayers : Bool :=
  kvCacheConfig.kvCacheConfig.kvCacheGroups.any fun g ↦ g.kvCacheSpec.kind matches .mamba ..

/-- The lists of the managers, in the order of their groups. -/
def record : Record (List NewBlockLog) where
  start := kvCacheConfig.kvCacheConfig.kvCacheGroups.map fun g ↦
    { recorded := isRecorded g.kvCacheSpec }
  next e _ e' change logs :=
    match change with
    | .granted c => logs.mapIdx fun i log ↦ log.extend (c.newBlocks e e' i)
    | .none | .freed _ => logs

/-- The end of `schedule`: `take_new_block_ids` is called if `needs_kv_cache_zeroing`. -/
def endSchedule (logs : List NewBlockLog) : List NewBlockLog :=
  if hasMambaLayers kvCacheConfig then logs.map takeNewBlockIds else logs

/-- The states of a server: those within and between its calls of `schedule`. -/
inductive ServerRun (H : Hashing) (cfg : EngineConfig) : Engine → List NewBlockLog → Prop
  | init {e : Engine} (h : Engine.init cfg kvCacheConfig = .ok e) :
      ServerRun H cfg e (record isRecorded kvCacheConfig).start
  | event {e e' : Engine} {logs : List NewBlockLog} {change : Change} (ev : Event)
      (h : ServerRun H cfg e logs) (hrun : ev.run H cfg e = .ok (e', change)) :
      ServerRun H cfg e' ((record isRecorded kvCacheConfig).next e ev e' change logs)
  | scheduled {e : Engine} {logs : List NewBlockLog} (h : ServerRun H cfg e logs) :
      ServerRun H cfg e (endSchedule kvCacheConfig logs)

variable {isRecorded kvCacheConfig} {H : Hashing} {cfg : EngineConfig} {e : Engine}
  {logs : List NewBlockLog}

theorem ServerRun.unrecorded
    (hnone : ∀ g ∈ kvCacheConfig.kvCacheConfig.kvCacheGroups, isRecorded g.kvCacheSpec = false)
    (h : ServerRun isRecorded kvCacheConfig H cfg e logs) :
    ∀ log ∈ logs, log.recorded = false ∧ log.newBlockIds = [] := by
  induction h with
  | init =>
    intro log hlog
    obtain ⟨g, hg, rfl⟩ := List.mem_map.mp hlog
    exact ⟨hnone g hg, rfl⟩
  | @event e e' logs change ev _ _ ih =>
    cases change with
    | none => exact ih
    | freed id => exact ih
    | granted c =>
      intro log hlog
      obtain ⟨i, hi, rfl⟩ := List.mem_mapIdx.mp hlog
      have hold := ih logs[i] (List.getElem_mem hi)
      rw [extend, hold.1]
      exact hold
  | @scheduled e logs _ ih =>
    unfold endSchedule
    split
    · intro log hlog
      obtain ⟨log, hold, rfl⟩ := List.mem_map.mp hlog
      exact ⟨(ih log hold).1, rfl⟩
    · exact ih

/-- With a Mamba group, or no group whose new blocks are recorded, every list is empty after
`schedule`. -/
theorem new_block_ids_empty_after_schedule (hcfg : hasMambaLayers kvCacheConfig = true ∨
      ∀ g ∈ kvCacheConfig.kvCacheConfig.kvCacheGroups, isRecorded g.kvCacheSpec = false)
    (h : ServerRun isRecorded kvCacheConfig H cfg e logs) :
    ∀ log ∈ endSchedule kvCacheConfig logs, log.newBlockIds = [] := by
  intro log hlog
  rcases hcfg with hmamba | hnone
  · rw [endSchedule, if_pos hmamba] at hlog
    obtain ⟨log, -, rfl⟩ := List.mem_map.mp hlog
    rfl
  · exact (h.scheduled.unrecorded hnone log hlog).2

def isFullAttentionSpec (spec : KVCacheSpec) : Bool := spec.kind = .fullAttention

def groupsOf (kinds : List SpecKind) : KVCacheManagerConfig :=
  { windowGroups with kvCacheConfig := {
      numBlocks := 20
      kvCacheGroups := kinds.map fun kind ↦ { kvCacheSpec := { kind, blockSize := 4 } } } }

def firstStep : List Event :=
  [.addRequest (promptOf 4), .newStepStarts, .schedule (.waiting "a" ⟨100, none⟩ {})]

theorem ServerRun.of_runFrom {evs}
    (h : Engine.runFrom H cfg kvCacheConfig (record isRecorded kvCacheConfig) (fun _ _ _ ↦ true) evs =
      some (e, logs)) : ServerRun isRecorded kvCacheConfig H cfg e logs := by
  have hrun := Engine.RunOf.of_runFrom (C := fun _ _ _ ↦ True) (fun _ _ _ _ ↦ trivial) h
  clear h
  induction hrun with
  | init h => exact .init h
  | step ev _ _ hrun ih => exact .event ev ih hrun

theorem new_block_ids_left_after_schedule :
    ∃ e logs, ServerRun isFullAttentionSpec (groupsOf [.fullAttention]) tokenHashing windowConfig e logs ∧
      (endSchedule (groupsOf [.fullAttention]) logs).map (·.newBlockIds) = [[.blk 1]] := by
  have hrun : ∃ out ∈ Engine.runFrom tokenHashing windowConfig (groupsOf [.fullAttention])
      (record isFullAttentionSpec (groupsOf [.fullAttention])) (fun _ _ _ ↦ true) firstStep,
      (endSchedule (groupsOf [.fullAttention]) out.2).map (·.newBlockIds) = [[.blk 1]] := by
    decide +kernel
  obtain ⟨⟨e, logs⟩, hrun, hlogs⟩ := hrun
  exact ⟨e, logs, .of_runFrom hrun, hlogs⟩

theorem new_block_ids_taken_with_mamba :
    ∃ e logs, ServerRun isFullAttentionSpec (groupsOf [.fullAttention, .mamba .none 0]) tokenHashing
        windowConfig e logs ∧ logs.map (·.newBlockIds) = [[.blk 1], []] ∧
      ∀ log ∈ endSchedule (groupsOf [.fullAttention, .mamba .none 0]) logs, log.newBlockIds = [] := by
  have hrun : ∃ out ∈ Engine.runFrom tokenHashing windowConfig
      (groupsOf [.fullAttention, .mamba .none 0])
      (record isFullAttentionSpec (groupsOf [.fullAttention, .mamba .none 0])) (fun _ _ _ ↦ true)
      firstStep, out.2.map (·.newBlockIds) = [[.blk 1], []] := by
    decide +kernel
  obtain ⟨⟨e, logs⟩, hrun, hlogs⟩ := hrun
  have hserver := ServerRun.of_runFrom hrun
  exact ⟨e, logs, hserver, hlogs, new_block_ids_empty_after_schedule (.inl rfl) hserver⟩

end NewBlockLog

end VllmEngine.Sched
