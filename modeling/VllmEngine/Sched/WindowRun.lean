import VllmEngine.Core.KVCacheCounts
import VllmEngine.Core.WindowTables
import VllmEngine.Sched.EngineRun
import VllmEngine.Sched.SessionHashes

namespace VllmEngine.Sched

open Lib Lib.EState VllmEngine.Core BlockHash BlockPool KVCacheManager SingleTypeKVCacheManager
  Function List SlotArgs

variable {H : Hashing} {cfg : EngineConfig} {kvCacheConfig : KVCacheManagerConfig} {e e' : Engine}
  {c : SlotCall} {seen : ReqId → ℕ}

def SlotCall.computedTokens (c : SlotCall) : ℕ :=
  c.args.numLocalComputedTokens c.request + c.args.numExternalComputedTokens

def RequestState.draftsInFlight (st : RequestState) : ℕ :=
  ((st.inFlight.filter fun s ↦ ¬ s.outdated).map fun s ↦ s.specTokenIds.length).sum

def Engine.draftsInFlight (e : Engine) (id : ReqId) : ℕ :=
  ((e.requests.get? id).map (·.draftsInFlight)).getD 0

def Engine.HoldsNothing (e : Engine) (id : ReqId) : Prop :=
  ∀ m ∈ e.kv.singleTypeManagers, m.table id = []

instance (id : ReqId) : Decidable (e.HoldsNothing id) := by
  unfold Engine.HoldsNothing
  infer_instance

/-- The largest number of computed tokens with which `remove_skipped_blocks` was called for the
blocks of each request, even if the call then returned `None`. -/
def windowRecord (H : Hashing) (cfg : EngineConfig) : Record (ReqId → ℕ) where
  start := fun _ ↦ 0
  next e ev _ change seen :=
    let raise c := update seen c.request.requestId
      (max (seen c.request.requestId) (SlotCall.computedTokens c))
    match change, ev with
    | .granted c, _ => raise c
    | .freed id, _ => update seen id 0
    | .none, .schedule turn =>
      match turn.slotCall H cfg e with
      | .error _ => seen
      | .ok c => if e.HoldsNothing c.request.requestId then seen else raise c
    | .none, _ => seen

/-- No block ends between the first token in the window of the first position of the step, and the
first one in the window of the last position that blocks were removed for. -/
structure KeepsWindow (e : Engine) (seen : ReqId → ℕ) (id : ReqId) (c : SlotCall) : Prop where
  hits : HitsCover e.pool.nullBlock e.kv c.args c.computedTokens
  fits : c.computedTokens + c.args.numNewTokens ≤ e.kv.maxModelLen
  window : ∀ m ∈ e.kv.singleTypeManagers, ∀ W, m.kind = .slidingWindow W →
    m.windowStart W (max (seen c.request.requestId) c.computedTokens) ≤
      m.windowStart W (c.computedTokens - e.draftsInFlight id)

def KeepsWindows (H : Hashing) (cfg : EngineConfig) (e : Engine) (seen : ReqId → ℕ) : Event → Prop
  | .schedule turn => ∀ c, turn.slotCall H cfg e = .ok c → KeepsWindow e seen turn.id c
  | _ => True

structure WindowsKept (e : Engine) (seen : ReqId → ℕ) : Prop where
  pool : NullApart (.blk 0) e.pool
  sizes : ∀ m ∈ e.kv.singleTypeManagers, 0 < m.blockSize
  tables : ∀ id, Windowed (.blk 0) id (seen id) e.kv

variable {id : ReqId} {kv : KVCacheManager}

theorem sizes_of_each {k k'} (ho : Each (OnlyFor id) k k')
    (h : ∀ m ∈ k.singleTypeManagers, 0 < m.blockSize) :
    ∀ m ∈ k'.singleTypeManagers, 0 < m.blockSize := by
  intro m' hm'
  obtain ⟨m, hm, hQ⟩ := ho.mem hm'
  exact hQ.blockSize_eq ▸ h m hm

section

variable (h : WindowsKept e seen) (hp : NullApart (.blk 0) e'.pool)
  (ho : Each (OnlyFor id) e.kv e'.kv)

include h hp ho

theorem WindowsKept.same
    (hr : ∀ id, Each (fun m m' ↦ Retables id (m.table id) m m') e.kv e'.kv) : WindowsKept e' seen :=
  ⟨hp, sizes_of_each ho h.sizes, fun id ↦ (h.tables id).same (hr id)⟩

theorem WindowsKept.update {n}
    (hself : Windowed (.blk 0) id n e'.kv) : WindowsKept e' (update seen id n) := by
  refine ⟨hp, sizes_of_each ho h.sizes, fun id' ↦ ?_⟩
  by_cases hid : id' = id
  · obtain rfl := hid
    rw [update_self]
    exact hself
  · rw [update_of_ne hid]
    exact (h.tables id').other ho hid

end

theorem WindowsKept.free {pool} (h : WindowsKept e seen) (hfree : e.kv.free id e.pool = .ok kv pool)
    (hkv : e'.kv = kv) (hpool : e'.pool = pool) : WindowsKept e' (Function.update seen id 0) := by
  obtain ⟨hp, ho, hwin⟩ := (free_windowed h.pool id).ok hfree
  exact h.update (hpool ▸ hp) (hkv ▸ ho) (hkv ▸ hwin)

theorem WindowsKept.slots {turn : Turn} (h : WindowsKept e seen) (hC : KeepsWindow e seen turn.id c) :
    Ensures (e.kv.allocateSlots H c.request c.args) e.pool
      (fun out p' ↦ NullApart (.blk 0) p' ∧ Each (OnlyFor c.request.requestId) e.kv out.1 ∧
        Windowed (.blk 0) c.request.requestId
          (max (seen c.request.requestId) c.computedTokens) out.1 ∧
        if out.2.isSome then
          Reaches c.request.requestId (c.args.numTokensNeedSlot e.kv c.request) out.1
        else Each (Trimmed c.request.requestId) e.kv out.1) := by
  have hhits := hC.hits
  rw [h.pool.nullBlock] at hhits
  exact allocateSlots_windowed h.pool ((h.tables _).mono (le_max_left _ _)) (le_max_right _ _)
    (hhits.mono (le_max_right _ _)) H

theorem Turn.grant_eq (turn : Turn) (next : RequestState) (e : Engine) :
    (turn.grant next e).kv = e.kv ∧ (turn.grant next e).pool = e.pool := by
  cases turn <;> exact ⟨rfl, rfl⟩

theorem WindowsKept.refused {turn : Turn} {pool} (h : WindowsKept e seen)
    (hC : KeepsWindow e seen turn.id c) (hcall : turn.slotCall H cfg e = .ok c)
    (halloc : e.kv.allocateSlots H c.request c.args e.pool = .ok (kv, none) pool) :
    WindowsKept { e with kv, pool } ((windowRecord H cfg).next e (.schedule turn)
      { e with kv, pool } .none seen) := by
  obtain ⟨hp, ho, hwin, htrim⟩ := (h.slots hC).ok halloc
  simp only [windowRecord, hcall]
  split
  next hempty =>
    have hself : Windowed (.blk 0) c.request.requestId (seen c.request.requestId) kv := by
      refine .of_empty fun m' hm' ↦ ?_
      obtain ⟨m, hm, ht⟩ := Each.mem htrim hm'
      exact eq_nil_of_length_eq_zero (by rw [ht.length, hempty m hm, length_nil])
    have : WindowsKept { e with kv, pool } _ := h.update hp ho hself
    rwa [update_eq_self] at this
  · exact h.update hp ho hwin

theorem WindowsKept.effect (h : WindowsKept e seen) {ev : Event} {change}
    (hC : KeepsWindows H cfg e seen ev) (heff : Effect H cfg e ev e' change) :
    WindowsKept e' ((windowRecord H cfg).next e ev e' change seen) := by
  cases heff with
  | addRequest hnew => exact ⟨h.pool, h.sizes, h.tables⟩
  | @granted turn c kv pool blocks hcall halloc =>
    obtain ⟨hp, ho, hwin, -⟩ := (h.slots (hC c hcall)).ok halloc
    obtain ⟨hkv, hpool⟩ := turn.grant_eq c.next { e with kv, pool }
    exact h.update (hpool ▸ hp) (hkv ▸ ho) (hkv ▸ hwin)
  | @refused turn c kv pool hcall halloc => exact h.refused (hC c hcall) hcall halloc
  | act => exact ⟨h.pool, h.sizes, h.tables⟩
  | preempt hst hrun hpre hfree | finish hfree | remoteFreed hst hrun hfree | sent hfree =>
    exact h.free hfree rfl rfl
  | @remoteCached id failed st st' kv pool hst hrun hcache =>
    have hr : ∀ id, Each (fun m m' ↦ Retables id (m.table id) m m') e.kv kv := fun id ↦
      (KVCacheManager.cacheBlocks_retables H _ _ id).ok hcache
    exact h.same ((KVCacheManager.cacheBlocks_nullApart h.pool H _ _).ok hcache)
      ((hr id).mono fun _ _ h ↦ h.toOnlyFor) hr
  | remote => exact ⟨h.pool, h.sizes, h.tables⟩
  | reset hreset => exact ⟨(resetPrefixCache_nullApart h.pool).ok hreset, h.sizes, h.tables⟩
  | newStep =>
    exact h.same h.pool ((KVCacheManager.newStepStarts_retables "").mono fun _ _ h ↦ h.toOnlyFor)
      fun id ↦ KVCacheManager.newStepStarts_retables id

section

variable (hsize : ∀ g ∈ kvCacheConfig.kvCacheConfig.kvCacheGroups, 0 < g.kvCacheSpec.blockSize)

include hsize

theorem windowsKept_init
    (h : Engine.init cfg kvCacheConfig = .ok e) : WindowsKept e (windowRecord H cfg).start := by
  unfold Engine.init at h
  split at h
  · cases h
  next kv pool hinit =>
    cases h
    refine ⟨KVCacheManager.init_nullApart hinit, fun m hm ↦ ?_, fun id ↦ .of_empty fun m hm ↦ ?_⟩
    all_goals obtain ⟨g, hg, i, hnew⟩ := init_managers hinit m hm
    · rw [SingleTypeKVCacheManager.blockSize, hnew.spec]
      exact hsize g hg
    · exact hnew.table_eq id

theorem Engine.RunOf.windowsKept
    (h : Engine.RunOf H cfg kvCacheConfig (windowRecord H cfg) (KeepsWindows H cfg) e seen) :
    WindowsKept e seen := by
  induction h with
  | init h => exact windowsKept_init hsize h
  | step ev h hC hrun ih => exact ih.effect hC (Event.effect hrun)

end

/-- Whichever drafts in flight are rejected, a request with the table of `k` holds the blocks of all
tokens in the windows of the positions that the call computes. -/
def HoldsWindows (null : Ref) (drafts : ℕ) (c : SlotCall) (k : KVCacheManager) : Prop :=
  ∀ m ∈ k.singleTypeManagers, ∀ W, m.kind = .slidingWindow W → ∀ rejected ≤ drafts, ∀ pos,
    c.computedTokens - rejected ≤ pos → pos < c.computedTokens + c.args.numNewTokens →
    ∀ t < pos, pos < t + W →
      ∃ b, (m.table c.request.requestId)[t / m.blockSize]? = some b ∧ b ≠ null

theorem holdsWindows_of_windowed {null : Ref} {drafts N n} {k : KVCacheManager}
    (hsize : ∀ m ∈ k.singleTypeManagers, 0 < m.blockSize)
    (hwin : Windowed null c.request.requestId N k)
    (hstart : ∀ m ∈ k.singleTypeManagers, ∀ W, m.kind = .slidingWindow W →
      m.windowStart W N ≤ m.windowStart W (c.computedTokens - drafts))
    (hreach : Reaches c.request.requestId n k) (hn : c.computedTokens + c.args.numNewTokens ≤ n) :
    HoldsWindows null drafts c k := by
  intro m hm W hW rejected hrej pos hlo hhi t ht hpos
  have hlt : t / m.blockSize < (m.table c.request.requestId).length :=
    (div_lt_cdiv (by omega) (hsize m hm)).trans_le (hreach m hm W hW)
  refine ⟨_, getElem?_eq_getElem hlt, ?_⟩
  refine hwin m hm W hW (t / m.blockSize) _ ((hstart m hm W hW).trans ?_)
    (getElem?_eq_getElem hlt)
  exact Nat.div_le_div_right (by omega)

/-- As long as no block ends within the drafts that may be rejected, no block is removed that a
position looks back to. -/
theorem windows_outlive_rejected_drafts
    (hsize : ∀ g ∈ kvCacheConfig.kvCacheConfig.kvCacheGroups, 0 < g.kvCacheSpec.blockSize)
    (hrun : Engine.RunOf H cfg kvCacheConfig (windowRecord H cfg) (KeepsWindows H cfg) e seen)
    {turn : Turn} (hC : KeepsWindows H cfg e seen (.schedule turn))
    (hstep : turn.run H cfg e = .ok (e', .granted c)) :
    HoldsWindows e'.pool.nullBlock (e.draftsInFlight turn.id) c e'.kv := by
  have hkept := hrun.windowsKept hsize
  cases turn.effect hstep with
  | @granted _ c kv pool blocks hcall halloc =>
    have hcond := hC c hcall
    obtain ⟨hp, ho, hwin, hreach⟩ := (hkept.slots hcond).ok halloc
    obtain ⟨hkv, hpool⟩ := turn.grant_eq c.next { e with kv, pool }
    rw [hkv, hpool, hp.nullBlock]
    refine holdsWindows_of_windowed (sizes_of_each ho hkept.sizes) hwin (fun m' hm' W hW ↦ ?_)
      hreach ?_
    · obtain ⟨m, hm, hQ⟩ := ho.mem hm'
      have := hcond.window m hm W (hQ.kind_eq ▸ hW)
      rwa [windowStart, windowStart, hQ.blockSize_eq]
    have hfits := hcond.fits
    simp only [SlotCall.computedTokens] at hfits ⊢
    simp only [numTokensNeedSlot, numTokensMainModel,
      totalComputedTokens]
    omega

def windowConfig : EngineConfig where
  blockSize := 4
  maxModelLen := 100
  numSpecTokens := 2
  asyncScheduling := true

def windowGroups : KVCacheManagerConfig where
  kvCacheConfig := {
    numBlocks := 20
    kvCacheGroups := [{ kvCacheSpec := { kind := .slidingWindow 4, blockSize := 4 } }] }
  maxModelLen := 100
  hashBlockSize := 4
  enableCaching := false

def promptOf (n : ℕ) : EngineRequest where
  requestId := "a"
  allTokenIds := range n
  promptTokenIds := range n
  numPromptTokens := n
  maxTokens := 10

def nextStep : Turn := .running "a" ⟨100, none⟩ 2

def draftsOnTheWay (n : ℕ) : List Event :=
  [.addRequest (promptOf n), .schedule (.waiting "a" ⟨100, none⟩ {}), .schedule nextStep,
    .act "a" (.output [7] true) false]

/-- The tokens computed once the output of the step with two drafts rejects both, besides those of
the steps in flight. -/
def tokensAfterRejection (e : Engine) : Option (ℕ × List ℕ) := do
  let out ← ((Event.act "a" (.output [8] true) false).run tokenHashing windowConfig e).toOption
  let st ← out.1.requests.get? "a"
  let inFlight := st.inFlight.map (·.numScheduledTokens)
  pure (st.request.numComputedTokens - inFlight.sum, inFlight)

def LacksFirstBlock (e : Engine) : Prop :=
  ∃ m ∈ e.kv.singleTypeManagers, m.kind = .slidingWindow 4 ∧ m.blockSize = 4 ∧
    (m.table "a")[0]? = some e.pool.nullBlock

instance : Decidable (LacksFirstBlock e) := by
  unfold LacksFirstBlock
  infer_instance

def Change.call : Change → Option SlotCall
  | .granted c => some c
  | .none | .freed _ => Option.none

theorem Change.of_call {change : Change} (h : change.call = some c) : change = .granted c := by
  cases change with
  | granted c' => exact congrArg Change.granted (Option.some.inj h)
  | none | freed => cases h

/-- After a prompt of four tokens and a step with two drafts, the block of the first four is
removed. Once both drafts are rejected, the next step computes the fifth position first, which looks
back to the second token. -/
theorem window_lost_to_rejected_drafts :
    ∃ e seen e' c, Engine.RunOf tokenHashing windowConfig windowGroups
        (windowRecord tokenHashing windowConfig) (fun _ _ _ ↦ True) e seen ∧
      nextStep.run tokenHashing windowConfig e = .ok (e', .granted c) ∧
      ¬ HoldsWindows e'.pool.nullBlock (e.draftsInFlight nextStep.id) c e'.kv ∧
      tokensAfterRejection e' = some (5, [3]) := by
  have hrun : ∃ out ∈ Engine.runFrom tokenHashing windowConfig windowGroups
      (windowRecord tokenHashing windowConfig) (fun _ _ _ ↦ true) (draftsOnTheWay 4),
      out.1.draftsInFlight nextStep.id = 2 ∧
      ∃ next ∈ (nextStep.run tokenHashing windowConfig out.1).toOption, ∃ c ∈ next.2.call,
        (c.request.requestId, c.computedTokens, c.args.numNewTokens) = ("a", 7, 3) ∧
        LacksFirstBlock next.1 ∧ tokensAfterRejection next.1 = some (5, [3]) := by
    decide +kernel
  obtain ⟨⟨e, seen⟩, hout, hdrafts, ⟨e', change⟩, hnext, c, hc, hcall, ⟨m, hm, hkind, hsize, hfirst⟩,
    hlast⟩ := hrun
  obtain rfl := Change.of_call hc
  obtain ⟨hid, hcomputed, hnew⟩ : c.request.requestId = "a" ∧ c.computedTokens = 7 ∧
    c.args.numNewTokens = 3 := by simpa using hcall
  refine ⟨e, seen, e', c, .of_runFrom (fun _ _ _ _ ↦ trivial) hout, of_toOption_eq_some hnext, ?_,
    hlast⟩
  intro hholds
  obtain ⟨b, hb, hne⟩ := hholds m hm 4 hkind 2 (by rw [hdrafts]) 5 (by omega) (by omega) 2
    (by omega) (by omega)
  rw [hsize, hid] at hb
  exact hne (Option.some.inj (hfirst.symm.trans hb)).symm

def keepsWindows (H : Hashing) (cfg : EngineConfig) (e : Engine) (seen : ReqId → ℕ) : Event → Bool
  | .schedule turn =>
    match turn.slotCall H cfg e with
    | .error _ => true
    | .ok c =>
      c.args.newComputedBlocks = none ∧ c.computedTokens + c.args.numNewTokens ≤ e.kv.maxModelLen ∧
        ∀ m ∈ e.kv.singleTypeManagers, m.kind = .slidingWindow 4 ∧
          m.windowStart 4 (max (seen c.request.requestId) c.computedTokens) ≤
            m.windowStart 4 (c.computedTokens - e.draftsInFlight turn.id)
  | _ => true

theorem keepsWindows_of_check {ev} (h : keepsWindows H cfg e seen ev = true) :
    KeepsWindows H cfg e seen ev := by
  cases ev with
  | schedule turn =>
    intro c hcall
    simp only [keepsWindows, hcall, decide_eq_true_eq] at h
    obtain ⟨hblocks, hfits, hwindow⟩ := h
    refine ⟨fun i m l W _ hl _ ↦ ?_, hfits, fun m hm W hW ↦ ?_⟩
    · rw [hits, hblocks] at hl
      obtain rfl := eq_of_mem_replicate (mem_of_getElem? hl)
      exact retains_nil _ _
    · obtain ⟨hkind, hle⟩ := hwindow m hm
      obtain rfl : W = 4 := by simpa [hW] using hkind
      exact hle
  | addRequest | act | remoteLoaded | finishedSending | resetPrefixCache | newStepStarts => trivial

theorem windows_held_after_six_tokens :
    ∃ e seen e' c, Engine.RunOf tokenHashing windowConfig windowGroups
        (windowRecord tokenHashing windowConfig) (KeepsWindows tokenHashing windowConfig) e seen ∧
      e.draftsInFlight nextStep.id = 2 ∧
      nextStep.run tokenHashing windowConfig e = .ok (e', .granted c) ∧ c.computedTokens = 9 ∧
      HoldsWindows e'.pool.nullBlock (e.draftsInFlight nextStep.id) c e'.kv := by
  have hrun : ∃ out ∈ Engine.runFrom tokenHashing windowConfig windowGroups
      (windowRecord tokenHashing windowConfig) (keepsWindows tokenHashing windowConfig)
      (draftsOnTheWay 6), out.1.draftsInFlight nextStep.id = 2 ∧
      keepsWindows tokenHashing windowConfig out.1 out.2 (.schedule nextStep) = true ∧
      ∃ next ∈ (nextStep.run tokenHashing windowConfig out.1).toOption, ∃ c ∈ next.2.call,
        c.computedTokens = 9 := by
    decide +kernel
  obtain ⟨⟨e, seen⟩, hout, hdrafts, hcheck, ⟨e', change⟩, hnext, c, hc, hcomputed⟩ := hrun
  obtain rfl := Change.of_call hc
  have hreach := Engine.RunOf.of_runFrom (fun _ _ _ ↦ keepsWindows_of_check) hout
  have hstep := of_toOption_eq_some hnext
  exact ⟨e, seen, e', c, hreach, hdrafts, hstep, hcomputed,
    windows_outlive_rejected_drafts (by decide) hreach (keepsWindows_of_check hcheck) hstep⟩

end VllmEngine.Sched
