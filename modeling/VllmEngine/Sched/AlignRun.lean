import VllmEngine.Core.AlignTables
import VllmEngine.Core.KVCacheCounts
import VllmEngine.Sched.EngineRun
import VllmEngine.Sched.SessionHashes
import VllmEngine.Sched.StepSpecs

namespace VllmEngine.Sched

open Lib Lib.EState VllmEngine.Core BlockHash KVCacheManager SingleTypeKVCacheManager Function
  Engine Turn

variable {H : Hashing} {cfg : EngineConfig} {kvCacheConfig : KVCacheManagerConfig} {e e' : Engine}
  {c : SlotCall} {slots : ReqId → Option ℕ}

theorem scheduleWaiting_le {r r' : EngineRequest} {s b hits}
    (h : r.scheduleWaiting cfg b hits = some (r', s)) :
    r.startTokens hits + s.numScheduledTokens ≤ r.numTokens := by
  unfold EngineRequest.scheduleWaiting at h
  dsimp only at h
  split at h
  · cases h
  next n hn =>
    split at h
    next hc =>
      cases h
      have := SchedRequest.numNewTokensWaiting_le hn hc.2.2
      dsimp only
      omega
    · cases h

variable {id : ReqId}

theorem waitingCall_le {b : Budget} {o}
    (hsplit : cfg.needMambaBlockAlignedSplit = true) (h : e.waitingCall H cfg id b o = .ok c) :
    c.args.numExternalComputedTokens = 0 ∧
      c.args.numLocalComputedTokens c.request + c.args.numNewTokens ≤ c.request.numTokens := by
  obtain ⟨st, found, -, hfound, hext, hcase⟩ := of_waitingCall h
  have hext := hext hsplit
  rcases hcase with ⟨r, s, hs, rfl⟩ | ⟨next, hpos, -⟩
  · refine ⟨hext, ?_⟩
    have hstart : st.request.numComputedTokens + found.numNewLocalComputedTokens =
        st.request.startTokens (found.numNewLocalComputedTokens + found.numExternalComputedTokens) := by
      unfold Engine.getComputedBlocks at hfound
      unfold EngineRequest.startTokens
      split at hfound
      next hzero => rw [if_pos hzero, hzero, Nat.zero_add, hext, Nat.add_zero]
      next hzero =>
        cases hfound
        rw [if_neg hzero, Nat.add_zero]
    exact (congrArg (· + s.numScheduledTokens) hstart).le.trans (scheduleWaiting_le hs)
  · omega

theorem Turn.noExternal {turn : Turn} (hsplit : cfg.needMambaBlockAlignedSplit = true)
    (h : turn.slotCall H cfg e = .ok c) : c.args.numExternalComputedTokens = 0 := by
  cases turn with
  | running id b n | cancelled id b n =>
    obtain ⟨st, r, s, -, -, rfl⟩ := of_runningCall h
    rfl
  | waiting id b o => exact (waitingCall_le hsplit h).1

/-- The number of tokens for which each request was last given slots, until they were freed. -/
def slotRecord : Record (ReqId → Option ℕ) where
  start := fun _ ↦ none
  next e _ _ change slots :=
    match change with
    | .none => slots
    | .granted c =>
      update slots c.request.requestId (some (c.args.numTokensMainModel e.kv c.request))
    | .freed id => update slots id none

/-- A request with blocks is given no fewer than before, and one without no more hits than blocks.
-/
def KeepsRoom (H : Hashing) (cfg : EngineConfig) (e : Engine) (slots : ReqId → Option ℕ) :
    Event → Prop
  | .schedule turn => ∀ c, turn.slotCall H cfg e = .ok c →
      (c.args.fullSequenceMustFit = true → c.request.numTokens ≤ e.kv.maxModelLen) ∧
      e.kv.Room c.request c.args (slots c.request.requestId)
  | _ => True

def Recorded (e : Engine) (slots : ReqId → Option ℕ) : Prop := ∀ id, e.kv.Sized id (slots id)

theorem Recorded.of_same (h : Recorded e slots)
    (hr : ∀ id, Each (fun m m' ↦ Retables id (m.table id) m m') e.kv e'.kv) : Recorded e' slots :=
  fun id ↦ (h id).same (hr id)

theorem Recorded.update {t} (h : Recorded e slots)
    (ho : Each (OnlyFor id) e.kv e'.kv) (hself : e'.kv.Sized id t) :
    Recorded e' (update slots id t) := by
  intro id'
  by_cases hid : id' = id
  · obtain rfl := hid
    rw [update_self]
    exact hself
  · rw [update_of_ne hid]
    exact (h id').other ho hid

theorem Recorded.free {kv pool} (h : Recorded e slots)
    (hfree : e.kv.free id e.pool = .ok kv pool) (hkv : e'.kv = kv) :
    Recorded e' (Function.update slots id none) := by
  obtain ⟨ho, hsized⟩ := (free_sized id).ok hfree
  exact h.update (hkv ▸ ho) (hkv ▸ hsized)

theorem grant_kv (next : RequestState) (turn : Turn) : (turn.grant next e).kv = e.kv := by
  cases turn <;> rfl

theorem Recorded.effect (h : Recorded e slots) (hsplit : cfg.needMambaBlockAlignedSplit = true)
    {ev : Event} {change} (hC : KeepsRoom H cfg e slots ev)
    (heff : Effect H cfg e ev e' change) : Recorded e' (slotRecord.next e ev e' change slots) := by
  cases heff with
  | addRequest hnew => exact h
  | @granted turn c kv pool blocks hcall halloc =>
    obtain ⟨ho, hsized⟩ := (allocateSlots_sized (h c.request.requestId) (turn.noExternal hsplit hcall)
      (hC c hcall).2 H).ok halloc
    exact h.update (by rw [grant_kv]; exact ho) (by rw [grant_kv]; exact hsized)
  | @refused turn c kv pool hcall halloc =>
    obtain ⟨ho, hsized⟩ := (allocateSlots_sized (h c.request.requestId) (turn.noExternal hsplit hcall)
      (hC c hcall).2 H).ok halloc
    have : Recorded { e with kv, pool } _ := h.update ho hsized
    rwa [Option.isSome_none, if_neg Bool.false_ne_true, update_eq_self] at this
  | act => exact h
  | preempt hst hrun hpre hfree | finish hfree | remoteFreed hst hrun hfree | sent hfree =>
    exact h.free hfree rfl
  | remoteCached hst hrun hcache =>
    exact h.of_same fun id ↦ (KVCacheManager.cacheBlocks_retables H _ _ id).ok hcache
  | remote => exact h
  | reset => exact h
  | newStep => exact h.of_same fun id ↦ KVCacheManager.newStepStarts_retables id

theorem recorded_init (h : init cfg kvCacheConfig = .ok e) : Recorded e slotRecord.start := by
  unfold Engine.init at h
  split at h
  · cases h
  next kv pool hinit =>
    cases h
    intro id m hm s _
    obtain ⟨g, -, i, hnew⟩ := init_managers hinit m hm
    exact ⟨hnew.table_eq id, by simp [hnew.allocated]⟩

theorem Engine.RunOf.recorded (hsplit : cfg.needMambaBlockAlignedSplit = true)
    (h : Engine.RunOf H cfg kvCacheConfig slotRecord (KeepsRoom H cfg) e slots) : Recorded e slots := by
  induction h with
  | init h => exact recorded_init h
  | step ev h hC hrun ih => exact ih.effect hsplit hC (Event.effect hrun)

abbrev Spared {α : Type} (x : Except EngineError α) : Prop :=
  ErrorsIn (· ≠ .manager .fewerBlocksRequired) x

theorem spared_fault {α : Type} (err : Fault) : Spared (.error (.fault err) : Except EngineError α) :=
  .error EngineError.noConfusion

theorem Engine.lookup_spared (id) : Spared (e.lookup id) := by
  unfold lookup
  split
  · exact spared_fault _
  · exact .ok _

theorem Engine.onKv_spared {m Q} (hm : Spares m e.pool Q) : Spared (e.onKv m) := by
  unfold onKv
  split
  next err p' herr => exact .error fun heq ↦ hm.error herr (EngineError.manager.inj heq)
  · exact .ok _

theorem Engine.freeBlocks_spared (id) : Spared (e.freeBlocks id) :=
  .bind (onKv_spared (free_sized id)) fun _ _ ↦ .ok _

theorem Engine.getComputedBlocks_spared (r) (o : WaitingOptions) :
    Spared (e.getComputedBlocks r o) := by
  unfold Engine.getComputedBlocks
  split
  · split
    next err herr =>
      unfold KVCacheManager.getComputedBlocks at herr
      split at herr
      · cases herr
      split at herr
      · rw [← Except.error.inj herr]
        exact .error (by simp)
      · cases herr
    · exact .ok _
  · exact .ok _

theorem Turn.slotCall_spared (turn : Turn) : Spared (turn.slotCall H cfg e) := by
  cases turn with
  | running id b n | cancelled id b n =>
    refine .bind (lookup_spared id) fun st _ ↦ ?_
    split
    · exact spared_fault _
    · exact .ok _
  | waiting id b o =>
    refine .bind (lookup_spared id) fun st _ ↦
      .bind (getComputedBlocks_spared _ o) fun found _ ↦ ?_
    dsimp only
    split
    · exact spared_fault _
    split
    · split
      · split
        · exact spared_fault _
        · exact .ok _
      · exact spared_fault _
    · split
      · exact spared_fault _
      · exact .ok _

theorem Engine.settle_spared (id) (op) (delay) (st st') :
    Spared (e.settle id op delay st st') := by
  unfold settle
  split
  · exact .bind (onKv_spared (free_sized id)) fun _ _ ↦ .ok _
  · split
    · exact freeBlocks_spared id
    · exact .ok _

theorem Engine.updateWaitingForRemoteKv_spared (failed) (r) :
    Spared (e.updateWaitingForRemoteKv H failed r) := by
  unfold updateWaitingForRemoteKv
  split
  · exact .bind (onKv_spared (free_sized _)) fun _ _ ↦ .ok _
  split
  · exact .bind (onKv_spared (KVCacheManager.cacheBlocks_retables H _ _ r.requestId))
      fun _ _ ↦ .ok _
  · exact .ok _

section

variable (h : Recorded e slots) (hsplit : cfg.needMambaBlockAlignedSplit = true)

include h hsplit

theorem Turn.run_spared
    {turn : Turn} (hC : KeepsRoom H cfg e slots (.schedule turn)) : Spared (turn.run H cfg e) := by
  refine .bind turn.slotCall_spared fun c hcall ↦ ?_
  split
  next err p' herr =>
    have hsized := allocateSlots_sized (p := e.pool) (h c.request.requestId)
      (turn.noExternal hsplit hcall) (hC c hcall).2 H
    exact .error fun heq ↦ hsized.error herr (EngineError.manager.inj heq)
  · exact .ok _

theorem Event.run_spared {ev} (hC : KeepsRoom H cfg e slots ev) : Spared (ev.run H cfg e) := by
  cases ev with
  | addRequest r =>
    simp only [Event.run]
    split
    · exact .ok _
    · exact spared_fault _
  | schedule turn => exact Turn.run_spared h hsplit hC
  | act id op delay =>
    refine .bind (lookup_spared id) fun st _ ↦ ?_
    split
    · split
      · exact spared_fault _
      · exact settle_spared id op delay st _
    · exact spared_fault _
  | remoteLoaded id failed =>
    refine .bind (lookup_spared id) fun st _ ↦ ?_
    split
    · exact spared_fault _
    · exact updateWaitingForRemoteKv_spared failed st.request
  | finishedSending id =>
    refine .bind (lookup_spared id) fun st _ ↦ ?_
    split
    · exact freeBlocks_spared id
    · exact spared_fault _
  | resetPrefixCache =>
    refine .bind (onKv_spared (Q := fun _ _ ↦ True) ?_) fun _ _ ↦ .ok _
    exact .seq (onPool_any (.any _ _)) fun _ _ _ ↦ .pure trivial
  | newStepStarts => exact .ok _

end

theorem Turn.main_le {turn : Turn} (hsplit : cfg.needMambaBlockAlignedSplit = true)
    (hcall : turn.slotCall H cfg e = .ok c) (hfull : c.args.fullSequenceMustFit = true)
    (hlen : c.request.numTokens ≤ e.kv.maxModelLen) :
    c.args.numTokensMainModel e.kv c.request ≤ min c.request.numTokens e.kv.maxModelLen := by
  cases turn with
  | running id b n | cancelled id b n =>
    obtain ⟨st, r, s, -, -, rfl⟩ := of_runningCall hcall
    cases hfull
  | waiting id b o =>
    obtain ⟨hext, hle⟩ := waitingCall_le hsplit hcall
    rw [SlotArgs.numTokensMainModel, SlotArgs.totalComputedTokens, hext]
    omega

/-- As long as no scheduling falls back behind the block reached before, no table of `align` mode is
longer than required, and no manager asks for a negative number of blocks. -/
theorem align_tables_never_too_long (hsplit : cfg.needMambaBlockAlignedSplit = true)
    (hrun : Engine.RunOf H cfg kvCacheConfig slotRecord (KeepsRoom H cfg) e slots) {ev : Event}
    (hC : KeepsRoom H cfg e slots ev) :
    ev.run H cfg e ≠ .error (.manager .fewerBlocksRequired) ∧
      ∀ turn c n, ev = .schedule turn → turn.slotCall H cfg e = .ok c →
        KVCacheManager.Asked e.kv e.pool c.request c.args n → 0 ≤ n := by
  have hrec := hrun.recorded hsplit
  refine ⟨fun herr ↦ Event.run_spared hrec hsplit hC _ herr rfl, ?_⟩
  intro turn c n hev hcall hn
  subst hev
  obtain ⟨hlen, hroom⟩ := hC c hcall
  exact hn.nonneg (hrec _) hroom fun hfull ↦ turn.main_le hsplit hcall hfull (hlen hfull)

def mtpConfig : EngineConfig where
  blockSize := 4
  maxModelLen := 100
  needMambaBlockAlignedSplit := true
  numSpecTokens := 3

def mtpGroups : KVCacheManagerConfig where
  kvCacheConfig := {
    numBlocks := 20
    kvCacheGroups := [{ kvCacheSpec := { kind := .fullAttention, blockSize := 4 } },
      { kvCacheSpec := { kind := .mamba .align 3, blockSize := 4 } }] }
  maxModelLen := 100
  hashBlockSize := 4

def shortPrompt : EngineRequest where
  requestId := "a"
  allTokenIds := [0, 1]
  promptTokenIds := [0, 1]
  numPromptTokens := 2
  maxTokens := 10

def firstStep : List Event :=
  [.addRequest shortPrompt, .schedule (.waiting "a" ⟨100, none⟩ { numLookaheadTokens := 3 }),
    .act "a" (.output [7] true) false]

def draftsRejected : List Event :=
  [.act "a" (.drafts [1, 2, 3]) false, .schedule (.running "a" ⟨100, none⟩ 3),
    .act "a" (.output [8] true) false, .act "a" (.drafts []) false]

def slotAnswer (k : KVCacheManager) (p : BlockPool) (request : Request) (a : SlotArgs) (i : ℕ) :
    Option ℤ :=
  match k.removeSkippedBlocks request.requestId (a.totalComputedTokens k request) p with
  | .error .. => none
  | .ok k' p' => do
    let m ← k'.singleTypeManagers[i]?
    (groupBlocksToAllocate p' request.requestId (a.numTokensNeedSlot k request) (a.hits k)
      a.numEncoderTokens (a.numLocalComputedTokens request + a.numExternalComputedTokens)
      (a.numTokensMainModel k request) false i m).toOption

theorem asked_of_slotAnswer {k p request a i n} (h : slotAnswer k p request a i = some n) :
    KVCacheManager.Asked k p request a n := by
  unfold slotAnswer at h
  split at h
  · cases h
  next k' p' hrem =>
    obtain ⟨m, hm, h⟩ := Option.bind_eq_some_iff.mp h
    exact .slots hrem hm (of_toOption_eq_some h)

/-- After six tokens with five blocks, the next step has four tokens, which require four. -/
theorem align_table_too_long_after_rejection :
    ∃ e slots c, Engine.RunOf tokenHashing mtpConfig mtpGroups slotRecord (fun _ _ _ ↦ True) e slots ∧
      slotCall tokenHashing mtpConfig e (.running "a" ⟨100, none⟩ 3) = .ok c ∧
      run tokenHashing mtpConfig e (.running "a" ⟨100, none⟩ 3) =
        .error (.manager .fewerBlocksRequired) ∧
      KVCacheManager.Asked e.kv e.pool c.request c.args (-1) := by
  have hrun : ∃ out ∈ runFrom tokenHashing mtpConfig mtpGroups slotRecord (fun _ _ _ ↦ true)
      (firstStep ++ draftsRejected),
      (∃ c ∈ (slotCall tokenHashing mtpConfig out.1 (.running "a" ⟨100, none⟩ 3)).toOption,
        slotAnswer out.1.kv out.1.pool c.request c.args 1 = some (-1)) ∧
      (run tokenHashing mtpConfig out.1 (.running "a" ⟨100, none⟩ 3)).map (fun _ ↦ ()) =
        .error (.manager .fewerBlocksRequired) := by
    decide +kernel
  obtain ⟨⟨e, slots⟩, hout, ⟨c, hcall, hans⟩, herr⟩ := hrun
  exact ⟨e, slots, c, .of_runFrom (fun _ _ _ _ ↦ trivial) hout, of_toOption_eq_some hcall,
    of_map_eq_error herr, asked_of_slotAnswer hans⟩

def keepsRoom (H : Hashing) (cfg : EngineConfig) (e : Engine) (slots : ReqId → Option ℕ) :
    Event → Bool
  | .schedule turn =>
    match turn.slotCall H cfg e with
    | .error _ => true
    | .ok c =>
      c.args.fullSequenceMustFit = false ∧ c.args.newComputedBlocks = none ∧
        c.args.numLocalComputedTokens c.request ≤ e.kv.maxModelLen ∧
        ∀ t ∈ slots c.request.requestId, ∀ m ∈ e.kv.singleTypeManagers,
          cdiv t m.blockSize ≤ cdiv (c.args.numTokensMainModel e.kv c.request) m.blockSize
  | _ => true

theorem keepsRoom_of_check {ev} (h : keepsRoom H cfg e slots ev = true) :
    KeepsRoom H cfg e slots ev := by
  cases ev with
  | schedule turn =>
    intro c hcall
    simp only [keepsRoom, hcall, decide_eq_true_eq] at h
    obtain ⟨hfull, hblocks, hlen, hblock⟩ := h
    refine ⟨fun hf ↦ absurd hf (by simp [hfull]), ?_⟩
    cases hslots : slots c.request.requestId with
    | none =>
      refine ⟨hlen, fun i m l s _ hl _ ↦ ?_⟩
      rw [SlotArgs.hits, hblocks] at hl
      obtain rfl := List.eq_of_mem_replicate (List.mem_of_getElem? hl)
      exact Nat.zero_le _
    | some t => exact ⟨hblocks, fun m hm s _ ↦ hblock t hslots m hm⟩
  | addRequest | act | remoteLoaded | finishedSending | resetPrefixCache | newStepStarts => trivial

theorem align_tables_fit_first_drafts :
    ∃ e slots c, Engine.RunOf tokenHashing mtpConfig mtpGroups slotRecord
        (KeepsRoom tokenHashing mtpConfig) e slots ∧ slots "a" = some 2 ∧
      slotCall tokenHashing mtpConfig e (.running "a" ⟨100, none⟩ 3) = .ok c ∧
      (Event.schedule (.running "a" ⟨100, none⟩ 3)).run tokenHashing mtpConfig e ≠
        .error (.manager .fewerBlocksRequired) ∧
      ∀ n, KVCacheManager.Asked e.kv e.pool c.request c.args n → 0 ≤ n := by
  have hrun : ∃ out ∈ runFrom tokenHashing mtpConfig mtpGroups slotRecord
      (keepsRoom tokenHashing mtpConfig) (firstStep ++ [.act "a" (.drafts [1, 2, 3]) false]),
      out.2 "a" = some 2 ∧
      (∃ c ∈ (slotCall tokenHashing mtpConfig out.1 (.running "a" ⟨100, none⟩ 3)).toOption,
        c.request.requestId = "a") ∧
      keepsRoom tokenHashing mtpConfig out.1 out.2 (.schedule (.running "a" ⟨100, none⟩ 3)) = true := by
    decide +kernel
  obtain ⟨⟨e, slots⟩, hout, hslots, ⟨c, hcall, -⟩, hcheck⟩ := hrun
  have hreach := Engine.RunOf.of_runFrom (fun _ _ _ ↦ keepsRoom_of_check) hout
  have hcall := of_toOption_eq_some hcall
  obtain ⟨hok, hasked⟩ := align_tables_never_too_long rfl hreach (keepsRoom_of_check hcheck)
  exact ⟨e, slots, c, hreach, hslots, hcall, hok, fun n hn ↦ hasked _ c n rfl hcall hn⟩

end VllmEngine.Sched
