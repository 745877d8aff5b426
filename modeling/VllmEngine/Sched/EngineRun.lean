import VllmEngine.Sched.Engine

namespace VllmEngine.Sched

open Lib Lib.EState VllmEngine.Core BlockHash Engine Except

variable {H : Hashing} {cfg : EngineConfig} {e e' : Engine} {id : ReqId}

theorem Engine.of_lookup {st} (h : e.lookup id = .ok st) : e.requests.get? id = some st := by
  unfold lookup at h
  split at h
  · cases h
  · rw [← ok.inj h]
    assumption

theorem Engine.of_onKv {m} (h : e.onKv m = .ok e') :
    ∃ kv pool, m e.pool = .ok kv pool ∧ e' = { e with kv, pool } := by
  unfold onKv at h
  split at h
  · cases h
  next kv pool hm => exact ⟨kv, pool, hm, (ok.inj h).symm⟩

variable {change : Change}

theorem Engine.of_freeBlocks (h : e.freeBlocks id = .ok (e', change)) :
    ∃ kv pool, e.kv.free id e.pool = .ok kv pool ∧
      e' = { kv, pool, requests := e.requests.erase id } ∧ change = .freed id := by
  obtain ⟨e1, h1, h⟩ := of_bind_eq_ok h
  obtain ⟨kv, pool, hm, rfl⟩ := of_onKv h1
  cases h
  exact ⟨kv, pool, hm, rfl, rfl⟩

inductive Effect (H : Hashing) (cfg : EngineConfig) (e : Engine) : Event → Engine → Change → Prop
  | addRequest {r} (hnew : e.requests.get? r.requestId = none) :
      Effect H cfg e (.addRequest r) (e.setRequest r.requestId ⟨r, []⟩) .none
  | granted {turn c kv pool blocks} (hcall : turn.slotCall H cfg e = .ok c)
      (halloc : e.kv.allocateSlots H c.request c.args e.pool = .ok (kv, some blocks) pool) :
      Effect H cfg e (.schedule turn) (turn.grant c.next { e with kv, pool }) (.granted c)
  | refused {turn c kv pool}
      (hcall : turn.slotCall H cfg e = .ok c)
      (halloc : e.kv.allocateSlots H c.request c.args e.pool = .ok (kv, none) pool) :
      Effect H cfg e (.schedule turn) { e with kv, pool } .none
  | act {id : ReqId} {op delay st st'}
      (hst : e.requests.get? id = some st) (hno : op.TakesNoSlots)
      (hrun : op.run H cfg st = .ok st') (hpre : op.preempts = false) :
      Effect H cfg e (.act id op delay) (e.setRequest id st') .none
  | preempt {id : ReqId} {op delay st st' kv pool} (hst : e.requests.get? id = some st)
      (hrun : op.run H cfg st = .ok st') (hpre : op.preempts = true)
      (hfree : e.kv.free id e.pool = .ok kv pool) :
      Effect H cfg e (.act id op delay) { e.setRequest id st' with kv, pool } (.freed id)
  | finish {id : ReqId} {op delay kv pool}
      (hfree : e.kv.free id e.pool = .ok kv pool) :
      Effect H cfg e (.act id op delay) { kv, pool, requests := e.requests.erase id } (.freed id)
  | remoteFreed {id : ReqId} {st st' kv pool}
      (hst : e.requests.get? id = some st) (hrun : ReqOp.run H cfg st (.remoteLoaded true) = .ok st')
      (hfree : e.kv.free st.request.requestId e.pool = .ok kv pool)
      (hzero : st.request.numComputedTokens = 0) :
      Effect H cfg e (.remoteLoaded id true) { e.setRequest id st' with kv, pool }
        (.freed st.request.requestId)
  | remoteCached {id : ReqId} {failed st st' kv pool} (hst : e.requests.get? id = some st)
      (hrun : ReqOp.run H cfg st (.remoteLoaded failed) = .ok st')
      (hcache : e.kv.cacheBlocks H st.request.toRequest st.request.numComputedTokens e.pool =
        .ok kv pool) :
      Effect H cfg e (.remoteLoaded id failed) { e.setRequest id st' with kv, pool } .none
  | remote {id : ReqId} {failed st st'} (hst : e.requests.get? id = some st)
      (hrun : ReqOp.run H cfg st (.remoteLoaded failed) = .ok st') :
      Effect H cfg e (.remoteLoaded id failed) (e.setRequest id st') .none
  | sent {id : ReqId} {kv pool}
      (hfree : e.kv.free id e.pool = .ok kv pool) :
      Effect H cfg e (.finishedSending id) { kv, pool, requests := e.requests.erase id } (.freed id)
  | reset {done pool} (hreset : BlockPool.resetPrefixCache e.pool = .ok done pool) :
      Effect H cfg e .resetPrefixCache { e with pool } .none
  | newStep : Effect H cfg e .newStepStarts { e with kv := e.kv.newStepStarts } .none

theorem Turn.effect {turn} (h : turn.run H cfg e = .ok (e', change)) :
    Effect H cfg e (.schedule turn) e' change := by
  obtain ⟨c, hcall, h⟩ := of_bind_eq_ok h
  split at h
  · cases h
  next kv blocks pool halloc =>
    cases blocks with
    | none =>
      cases h
      exact .refused hcall halloc
    | some blocks =>
      cases h
      exact .granted hcall halloc

theorem Engine.effect_settle {op delay st st'} (hst : e.requests.get? id = some st)
    (hno : op.TakesNoSlots)
    (hrun : op.run H cfg st = .ok st') (h : e.settle id op delay st st' = .ok (e', change)) :
    Effect H cfg e (.act id op delay) e' change := by
  unfold settle at h
  split at h
  next hpre =>
    obtain ⟨e1, h1, h⟩ := of_bind_eq_ok h
    cases h
    obtain ⟨kv, pool, hfree, rfl⟩ := of_onKv h1
    exact .preempt hst hrun hpre hfree
  next hpre =>
    split at h
    · obtain ⟨kv, pool, hfree, rfl, rfl⟩ := of_freeBlocks h
      exact .finish hfree
    · cases h
      exact .act hst hno hrun (by simpa using hpre)

theorem Engine.effect_updateWaitingForRemoteKv {failed st st'} (hst : e.requests.get? id = some st)
    (hrun : ReqOp.run H cfg st (.remoteLoaded failed) = .ok st')
    (h : (e.setRequest id st').updateWaitingForRemoteKv H failed st.request = .ok (e', change)) :
    Effect H cfg e (.remoteLoaded id failed) e' change := by
  unfold updateWaitingForRemoteKv at h
  split at h
  next hfail =>
    obtain ⟨rfl, hzero⟩ := hfail
    obtain ⟨e1, h1, h⟩ := of_bind_eq_ok h
    cases h
    obtain ⟨kv, pool, hfree, rfl⟩ := of_onKv h1
    exact .remoteFreed hst hrun hfree hzero
  · split at h
    · obtain ⟨e1, h1, h⟩ := of_bind_eq_ok h
      cases h
      obtain ⟨kv, pool, hcache, rfl⟩ := of_onKv h1
      exact .remoteCached hst hrun hcache
    · cases h
      exact .remote hst hrun

theorem Event.effect {ev} (h : ev.run H cfg e = .ok (e', change)) :
    Effect H cfg e ev e' change := by
  cases ev with
  | addRequest r =>
    simp only [Event.run] at h
    split at h
    next hnew =>
      cases h
      exact .addRequest (Option.isNone_iff_eq_none.mp hnew)
    · cases h
  | schedule turn => exact turn.effect h
  | act id op delay =>
    obtain ⟨st, hst, h⟩ := of_bind_eq_ok h
    split at h
    next hno =>
      split at h
      · cases h
      next st' hrun => exact effect_settle (of_lookup hst) hno hrun h
    · cases h
  | remoteLoaded id failed =>
    obtain ⟨st, hst, h⟩ := of_bind_eq_ok h
    split at h
    · cases h
    next st' hrun => exact effect_updateWaitingForRemoteKv (of_lookup hst) hrun h
  | finishedSending id =>
    obtain ⟨st, hst, h⟩ := of_bind_eq_ok h
    split at h
    · obtain ⟨kv, pool, hfree, rfl, rfl⟩ := of_freeBlocks h
      exact .sent hfree
    · cases h
  | resetPrefixCache =>
    obtain ⟨e1, h1, h⟩ := of_bind_eq_ok h
    cases h
    obtain ⟨kv, pool, hreset, rfl⟩ := of_onKv h1
    cases hpool : BlockPool.resetPrefixCache e.pool with
    | error err p => simp [onPool, hpool] at hreset
    | ok done p =>
      simp only [bind_apply, onPool, hpool, pure_apply, EStateM.Result.ok.injEq] at hreset
      obtain ⟨rfl, rfl⟩ := hreset
      exact .reset hpool
  | newStepStarts =>
    cases h
    exact .newStep

structure Record (γ : Type) where
  start : γ
  next : Engine → Event → Engine → Change → γ → γ

inductive Engine.RunOf {γ : Type} (H : Hashing) (cfg : EngineConfig)
    (kvCacheConfig : KVCacheManagerConfig) (record : Record γ) (C : Engine → γ → Event → Prop) :
    Engine → γ → Prop
  | init {e : Engine} (h : init cfg kvCacheConfig = .ok e) :
      RunOf H cfg kvCacheConfig record C e record.start
  | step {e e' : Engine} {g change} (ev : Event) (h : RunOf H cfg kvCacheConfig record C e g) (hC : C e g ev)
      (hrun : ev.run H cfg e = .ok (e', change)) :
      RunOf H cfg kvCacheConfig record C e' (record.next e ev e' change g)

def Engine.runChecked {γ : Type} (H : Hashing) (cfg : EngineConfig) (record : Record γ)
    (check : Engine → γ → Event → Bool) : List Event → Engine → γ → Option (Engine × γ)
  | [], e, g => some (e, g)
  | ev :: evs, e, g =>
    if check e g ev then
      match ev.run H cfg e with
      | .error _ => none
      | .ok (e', change) => runChecked H cfg record check evs e' (record.next e ev e' change g)
    else none

def Engine.runFrom {γ : Type} (H : Hashing) (cfg : EngineConfig) (kvCacheConfig : KVCacheManagerConfig)
    (record : Record γ) (check : Engine → γ → Event → Bool) (evs : List Event) : Option (Engine × γ) :=
  match init cfg kvCacheConfig with
  | .error _ => none
  | .ok e => runChecked H cfg record check evs e record.start

variable {kvCacheConfig : KVCacheManagerConfig}

theorem Engine.RunOf.runChecked {γ : Type} {record C check}
    (hcheck : ∀ e g ev, check e g ev = true → C e g ev) {evs} {g g' : γ}
    (h : Engine.RunOf H cfg kvCacheConfig record C e g)
    (hrun : runChecked H cfg record check evs e g = some (e', g')) :
    Engine.RunOf H cfg kvCacheConfig record C e' g' := by
  induction evs generalizing e g with
  | nil =>
    cases hrun
    exact h
  | cons ev evs ih =>
    unfold runChecked at hrun
    split at hrun
    next hok =>
      split at hrun
      · cases hrun
      next hev => exact ih (.step ev h (hcheck e g ev hok) hev) hrun
    · cases hrun

theorem Engine.RunOf.of_runFrom {γ : Type} {record C check}
    (hcheck : ∀ e g ev, check e g ev = true → C e g ev) {evs} {g : γ}
    (hrun : runFrom H cfg kvCacheConfig record check evs = some (e, g)) :
    Engine.RunOf H cfg kvCacheConfig record C e g := by
  unfold runFrom at hrun
  split at hrun
  · cases hrun
  next hinit => exact (Engine.RunOf.init hinit).runChecked hcheck hrun

theorem Engine.of_runningCall {b n c} (h : e.runningCall cfg id b n = .ok c) :
    ∃ st r s, e.requests.get? id = some st ∧ st.request.scheduleRunning cfg b = some (r, s) ∧
      c = { request := st.request.toRequest
            args := { numNewTokens := s.numScheduledTokens, numLookaheadTokens := n }
            next := ⟨r, st.inFlight ++ [s]⟩ } := by
  obtain ⟨st, hst, h⟩ := of_bind_eq_ok h
  split at h
  · cases h
  next r s hs => exact ⟨st, r, s, of_lookup hst, hs, (ok.inj h).symm⟩

theorem Engine.of_waitingCall {b o c} (h : e.waitingCall H cfg id b o = .ok c) :
    ∃ st found, e.requests.get? id = some st ∧ e.getComputedBlocks st.request o = .ok found ∧
      (cfg.needMambaBlockAlignedSplit = true → found.numExternalComputedTokens = 0) ∧
      ((∃ r s, st.request.scheduleWaiting cfg b
          (found.numNewLocalComputedTokens + found.numExternalComputedTokens) = some (r, s) ∧
        c = { request := st.request.toRequest
              args := waitingArgs st.request o found false s.numScheduledTokens
              next := ⟨r, st.inFlight ++ [s]⟩ }) ∨
      ∃ next, 0 < found.numExternalComputedTokens ∧ ReqOp.run H cfg st (.loadRemote
          (found.numNewLocalComputedTokens + found.numExternalComputedTokens)) = .ok next ∧
        c = { request := st.request.toRequest
              args := waitingArgs st.request o found true 0
              next }) := by
  obtain ⟨st, hst, h⟩ := of_bind_eq_ok h
  obtain ⟨found, hfound, h⟩ := of_bind_eq_ok h
  refine ⟨st, found, of_lookup hst, hfound, ?_⟩
  dsimp only at h
  split at h
  · cases h
  next hext =>
    refine ⟨fun hsplit ↦ ?_, ?_⟩
    · by_contra hne
      exact hext ⟨hsplit, Nat.pos_of_ne_zero hne⟩
    split at h
    · split at h
      next hpos =>
        split at h
        · cases h
        next next hnext => exact .inr ⟨next, hpos, hnext, (ok.inj h).symm⟩
      · cases h
    · split at h
      · cases h
      next r s hs => exact .inl ⟨r, s, hs, (ok.inj h).symm⟩

end VllmEngine.Sched
