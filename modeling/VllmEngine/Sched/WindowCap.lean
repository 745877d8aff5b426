import VllmEngine.Core.WindowSize
import VllmEngine.Sched.EngineFrames

namespace VllmEngine.Sched

open Lib Lib.EState VllmEngine.Core BlockHash BlockPool KVCacheManager SingleTypeKVCacheManager
  Engine SlotArgs Dict ReqOp SlotCall EngineRequest

variable {H : Hashing} {cfg : EngineConfig} {kvCacheConfig : KVCacheManagerConfig} {e e' : Engine}
  {c : SlotCall} {L M : ℕ}

/-- A window of `W` tokens that ends with the next `M + 1` tokens touches no more blocks than the
cap, wherever in a block it starts. -/
theorem window_blocks_le {size} (hsize : 0 < size) (N M L W) :
    cdiv (min (N + M + 1) L) size - (N + 1 - W) / size ≤ cdiv (min (W - 1 + M) L) size + 1 := by
  have hshort : cdiv (min (N + M + 1) L) size ≤ cdiv L size := cdiv_mono (min_le_right _ _) size
  have hlong : cdiv (min (N + M + 1) L) size ≤ cdiv (N + M + 1) size := cdiv_mono (min_le_left _ _) size
  rcases le_total L (W - 1 + M) with hL | hL
  · rw [min_eq_right hL]
    exact (Nat.sub_le _ _).trans (hshort.trans (Nat.le_succ _))
  rw [min_eq_left hL]
  have hbound : cdiv (N + M + 1) size ≤ cdiv (W - 1 + M) size + 1 + (N + 1 - W) / size := by
    rw [cdiv_le_iff hsize]
    have hcap : W - 1 + M ≤ cdiv (W - 1 + M) size * size := (cdiv_le_iff hsize).mp le_rfl
    have hdiv := Nat.div_add_mod (N + 1 - W) size
    have hmod := Nat.mod_lt (N + 1 - W) hsize
    rw [Nat.mul_comm size] at hdiv
    rw [Nat.add_mul, Nat.add_mul]
    omega
  exact Nat.sub_le_iff_le_add.mpr (hlong.trans hbound)

/-- The blocks of a request in the groups with a sliding window are no more than their
`max_admission_blocks_per_request`. -/
def WithinCap (maxNumBatchedTokens maxModelLen : ℕ) (id : ReqId) (e : Engine) : Prop :=
  ∀ m ∈ e.kv.singleTypeManagers, ∀ W, m.kind = .slidingWindow W →
    ∀ cap ∈ maxAdmissionBlocks m.kvCacheSpec maxNumBatchedTokens maxModelLen,
      numHeldBlocks e.pool.nullBlock (m.table id) ≤ cap

structure Confined (M : ℕ) (e : Engine) (c : SlotCall) : Prop where
  tokens : c.args.numNewTokens + c.args.numLookaheadTokens ≤ M + 1
  fits : c.computedTokens + c.args.numNewTokens ≤ e.kv.maxModelLen
  held : ∀ m ∈ e.kv.singleTypeManagers, ∀ W, m.kind = .slidingWindow W →
    (m.table c.request.requestId).length ≤ cdiv (c.computedTokens + M + 1) m.blockSize
  hits : ∀ (i : ℕ) m l W, e.kv.singleTypeManagers[i]? = some m → (c.args.hits e.kv)[i]? = some l →
    m.kind = .slidingWindow W →
      NullsFirst e.pool.nullBlock 0 l ∧ l.length ≤ cdiv c.computedTokens m.blockSize
  entered : c.request.numComputedTokens < c.computedTokens → c.args.Enters ∧
    ∀ m ∈ e.kv.singleTypeManagers, ∀ W, m.kind = .slidingWindow W →
      m.numCachedBlock.get? c.request.requestId = none

def Confines (M : ℕ) (H : Hashing) (cfg : EngineConfig) (e : Engine) (_ : Unit) : Event → Prop
  | .schedule turn => ∀ c, turn.slotCall H cfg e = .ok c → Confined M e c
  | .addRequest r => r.numComputedTokens = 0
  | _ => True

def noRecord : Record Unit := ⟨(), fun _ _ _ _ _ ↦ ()⟩

/-- The tables of a request in the window groups have their null blocks first, a block for each of
`n` tokens, and none beyond `maxModelLen`. -/
def InFront (null : Ref) (maxModelLen : ℕ) (id : ReqId) (n : ℕ) (k : KVCacheManager) : Prop :=
  ∀ m ∈ k.singleTypeManagers, ∀ W, m.kind = .slidingWindow W →
    NullsFirst null 0 (m.table id) ∧ (m.table id).length ≤ cdiv maxModelLen m.blockSize ∧
      n ≤ (m.table id).length * m.blockSize

section

variable {null : Ref} {L n n' : ℕ} {id id' : ReqId} {k k' : KVCacheManager}

theorem InFront.mono (h : InFront null L id n k) (hn : n' ≤ n) : InFront null L id n' k := by
  intro m hm W hW
  obtain ⟨hfirst, hlen, hle⟩ := h m hm W hW
  exact ⟨hfirst, hlen, hn.trans hle⟩

theorem InFront.of_tables {Q} (h : InFront null L id n k) (he : Each Q k k')
    (hQ : ∀ m m', Q m m' → m'.kvCacheSpec = m.kvCacheSpec ∧ m'.table id = m.table id) :
    InFront null L id n k' := by
  intro m' hm' W hW
  obtain ⟨m, hm, hmm'⟩ := he.mem hm'
  obtain ⟨hspec, htable⟩ := hQ m m' hmm'
  rw [htable, blockSize, hspec]
  exact h m hm W (by rw [kind, ← hspec]; exact hW)

theorem InFront.other (h : InFront null L id' n k) (ho : Each (OnlyFor id) k k') (hid : id' ≠ id) :
    InFront null L id' n k' :=
  h.of_tables ho fun _ _ hQ ↦ ⟨hQ.spec, hQ.table id' hid⟩

theorem InFront.of_empty (h : ∀ m ∈ k.singleTypeManagers, m.table id = []) :
    InFront null L id 0 k := by
  intro m hm W _
  rw [h m hm]
  exact ⟨nullsFirst_nil null, Nat.zero_le _, Nat.zero_le _⟩

end

def Engine.numComputedTokens (e : Engine) (id : ReqId) : ℕ :=
  ((e.requests.get? id).map (·.request.numComputedTokens)).getD 0

variable {id : ReqId} {st next st' : RequestState} {turn : Turn} {kv : KVCacheManager}
  {pool : BlockPool}

theorem Engine.numComputedTokens_of_get?
    (h : e.requests.get? id = some st) : e.numComputedTokens id = st.request.numComputedTokens := by
  rw [numComputedTokens, h, Option.map_some, Option.getD_some]

theorem Engine.numComputedTokens_congr (h : e'.requests.get? id = e.requests.get? id) :
    e'.numComputedTokens id = e.numComputedTokens id := by
  rw [numComputedTokens, numComputedTokens, h]

theorem Turn.computed_of_call (h : turn.slotCall H cfg e = .ok c) :
    c.request.numComputedTokens = e.numComputedTokens turn.id ∧
      c.next.request.numComputedTokens = c.computedTokens + c.args.numNewTokens := by
  cases turn with
  | running id b n | cancelled id b n =>
    obtain ⟨st, r, s, hst, hs, rfl⟩ := of_runningCall h
    refine ⟨(numComputedTokens_of_get? hst).symm, ?_⟩
    exact scheduleRunning_computed hs
  | waiting id b o =>
    obtain ⟨st, found, hst, hfound, -, hcase⟩ := of_waitingCall h
    have hstart : st.request.startTokens (found.numNewLocalComputedTokens +
        found.numExternalComputedTokens) = st.request.numComputedTokens +
          found.numNewLocalComputedTokens + found.numExternalComputedTokens := by
      unfold Engine.getComputedBlocks at hfound
      unfold startTokens
      split at hfound
      next hzero => rw [if_pos hzero, hzero, zero_add]
      next hzero =>
        cases hfound
        rw [if_neg hzero]
        rfl
    rcases hcase with ⟨r, s, hs, rfl⟩ | ⟨next, -, hnext, rfl⟩
    · refine ⟨(numComputedTokens_of_get? hst).symm, ?_⟩
      rw [scheduleWaiting_computed hs, hstart]
      rfl
    refine ⟨(numComputedTokens_of_get? hst).symm, ?_⟩
    cases move hnext with
    | loadRemote hst hzero hle =>
      rw [startTokens, if_pos hzero] at hstart
      exact hstart

structure WindowsInFront (L : ℕ) (e : Engine) : Prop where
  maxModelLen : e.kv.maxModelLen = L
  pool : NullApart (.blk 0) e.pool
  named : e.Named
  specs : ∀ m ∈ e.kv.singleTypeManagers, 0 < m.blockSize ∧ ∀ W, m.kind = .slidingWindow W → 0 < W
  tables : ∀ id, InFront (.blk 0) L id (e.numComputedTokens id) e.kv

theorem specs_of_each {k k'} (ho : Each (OnlyFor id) k k')
    (h : ∀ m ∈ k.singleTypeManagers, 0 < m.blockSize ∧ ∀ W, m.kind = .slidingWindow W → 0 < W) :
    ∀ m ∈ k'.singleTypeManagers, 0 < m.blockSize ∧ ∀ W, m.kind = .slidingWindow W → 0 < W := by
  intro m' hm'
  obtain ⟨m, hm, hQ⟩ := ho.mem hm'
  rw [hQ.blockSize_eq, hQ.kind_eq]
  exact h m hm

theorem WindowsInFront.update (id) (h : WindowsInFront L e) (hp : NullApart (.blk 0) e'.pool)
    (hn : e'.Named) (ho : Each (OnlyFor id) e.kv e'.kv)
    (hother : ∀ id', id' ≠ id → e'.numComputedTokens id' = e.numComputedTokens id')
    (hself : InFront (.blk 0) L id (e'.numComputedTokens id) e'.kv) :
    WindowsInFront L e' := by
  refine ⟨ho.maxModelLen.trans h.maxModelLen, hp, hn, specs_of_each ho h.specs, fun id' ↦ ?_⟩
  by_cases hid : id' = id
  · obtain rfl := hid
    exact hself
  · rw [hother id' hid]
    exact (h.tables id').other ho hid

theorem WindowsInFront.same (h : WindowsInFront L e) (hp : NullApart (.blk 0) e'.pool) (hn : e'.Named)
    (hr : ∀ id, Each (fun m m' ↦ Retables id (m.table id) m m') e.kv e'.kv)
    (hle : ∀ id, e'.numComputedTokens id ≤ e.numComputedTokens id) : WindowsInFront L e' := by
  refine ⟨(hr "").maxModelLen.trans h.maxModelLen, hp, hn,
    specs_of_each ((hr "").mono fun _ _ h ↦ h.toOnlyFor) h.specs, fun id ↦ ?_⟩
  exact ((h.tables id).of_tables (hr id) fun _ _ hQ ↦ ⟨hQ.spec, hQ.self⟩).mono (hle id)

theorem WindowsInFront.free (h : WindowsInFront L e) (hfree : e.kv.free id e.pool = .ok kv pool)
    (hkv : e'.kv = kv) (hpool : e'.pool = pool) (hn : e'.Named)
    (hother : ∀ id', id' ≠ id → e'.numComputedTokens id' = e.numComputedTokens id')
    (hself : e'.numComputedTokens id = 0) : WindowsInFront L e' := by
  subst hkv hpool
  obtain ⟨hp, ho, hempty⟩ := (free_empties h.pool id).ok hfree
  refine h.update id hp hn ho hother ?_
  rw [hself]
  exact .of_empty hempty

theorem Confined.slots (hC : Confined M e c) (h : WindowsInFront L e)
    (hcomputed : c.request.numComputedTokens = e.numComputedTokens c.request.requestId) :
    SlotsInWindow (.blk 0) (min (c.computedTokens + M + 1) L) c.request c.args e.kv := by
  have hfits := hC.fits
  have hL := h.maxModelLen
  have htokens := hC.tokens
  have hle : c.request.numComputedTokens ≤ c.computedTokens := by
    rw [computedTokens, numLocalComputedTokens]
    omega
  refine ⟨?_, ?_, ?_, fun m hm W hW ↦ ?_, fun m hm W hW ↦ ?_, fun i m l hm hl W hW ↦ ?_⟩
  · exact (Nat.le_add_right _ _).trans hfits
  · exact le_min (by rw [computedTokens]; omega) ((Nat.le_add_right _ _).trans (hL ▸ hfits))
  · rw [computedTokens] at hfits ⊢
    rw [numTokensNeedSlot, numTokensMainModel, totalComputedTokens]
    omega
  · obtain ⟨hfirst, hlen, -⟩ := h.tables c.request.requestId m hm W hW
    refine ⟨hfirst, ?_⟩
    rcases min_choice (c.computedTokens + M + 1) L with heq | heq
    · rw [heq]
      exact hC.held m hm W hW
    · rw [heq]
      exact hlen
  · obtain ⟨hsize, hpos⟩ := h.specs m hm
    rcases hle.lt_or_eq with hlt | heq
    · obtain ⟨henter, hnone⟩ := hC.entered hlt
      exact .inr ⟨henter, hnone m hm W hW⟩
    obtain ⟨-, -, hcov⟩ := h.tables c.request.requestId m hm W hW
    refine .inl ((Nat.div_le_div_right (?_ : _ ≤ c.computedTokens)).trans ?_)
    · have := hpos W hW
      rw [computedTokens]
      omega
    · rw [← heq, hcomputed]
      exact Nat.div_le_of_le_mul (by rw [Nat.mul_comm]; exact hcov)
  · obtain ⟨-, hpos⟩ := h.specs m (List.mem_of_getElem? hm)
    obtain ⟨hfirst, hlen⟩ := hC.hits i m l W hm hl hW
    rw [h.pool.nullBlock] at hfirst
    exact ⟨hpos W hW, hfirst, hlen.trans (cdiv_mono (by omega) _)⟩

theorem InFront.of_slid {null L N U n need k}
    (hsize : ∀ m ∈ k.singleTypeManagers, 0 < m.blockSize) (h : KVCacheManager.Slid null id N U k)
    (hreach : Reaches id need k) (hU : U ≤ L) (hn : n ≤ need) : InFront null L id n k := by
  intro m hm W hW
  obtain ⟨hfirst, hlen⟩ := h m hm W hW
  refine ⟨hfirst.mono (Nat.zero_le _), hlen.trans (cdiv_mono hU _), ?_⟩
  exact (cdiv_le_iff (hsize m hm)).mp ((cdiv_mono hn _).trans (hreach m hm W hW))

theorem Turn.grant_named (hn : e.Named)
    (hid : next.request.requestId = turn.id) : (turn.grant next e).Named := by
  cases turn with
  | running id b n | waiting id b o => exact hn.set hid
  | cancelled id b n => exact hn

theorem Turn.grant_computed_le {n}
    (hnext : next.request.numComputedTokens ≤ n) (hold : e.numComputedTokens turn.id ≤ n) :
    (turn.grant next e).numComputedTokens turn.id ≤ n := by
  cases turn with
  | running id b k | waiting id b o =>
    have hget : ((e.setRequest id next).requests.get? id) = some next := get?_set_self _ id next
    change (e.setRequest id next).numComputedTokens id ≤ n
    rw [numComputedTokens_of_get? hget]
    exact hnext
  | cancelled id b k => exact hold

section

variable (h : WindowsInFront L e) (hC : Confined M e c) (hcall : turn.slotCall H cfg e = .ok c)

include h hC hcall

theorem WindowsInFront.granted {blocks}
    (halloc : e.kv.allocateSlots H c.request c.args e.pool = .ok (kv, some blocks) pool) :
    WindowsInFront L (turn.grant c.next { e with kv, pool }) := by
  obtain ⟨hid, hnext⟩ := turn.request_of_call h.named hcall
  obtain ⟨hcomputed, hadvance⟩ := turn.computed_of_call hcall
  rw [← hid] at hcomputed
  obtain ⟨hp, ho, hslid, hreach⟩ := (allocateSlots_slid h.pool (hC.slots h hcomputed) H).ok halloc
  obtain ⟨hkv, hpool⟩ := turn.grant_eq c.next { e with kv, pool }
  refine h.update turn.id (hpool ▸ hp) (Turn.grant_named h.named hnext)
    (by rw [hkv, ← hid]; exact ho) (fun id' hne ↦ ?_) ?_
  · exact numComputedTokens_congr (turn.grant_requests c.next { e with kv, pool } hne)
  rw [hkv]
  have hsize := fun m hm ↦ (specs_of_each ho h.specs m hm).1
  have hfront : InFront (.blk 0) L c.request.requestId
      (c.computedTokens + c.args.numNewTokens) kv := by
    refine .of_slid hsize hslid hreach (min_le_right _ _) ?_
    have hfits := hC.fits
    rw [computedTokens] at hfits ⊢
    rw [numTokensNeedSlot, numTokensMainModel, totalComputedTokens]
    omega
  rw [hid] at hfront
  refine hfront.mono (Turn.grant_computed_le hadvance.le ?_)
  change e.numComputedTokens turn.id ≤ _
  rw [← hid, ← hcomputed, computedTokens, numLocalComputedTokens]
  omega

theorem WindowsInFront.refused
    (halloc : e.kv.allocateSlots H c.request c.args e.pool = .ok (kv, none) pool) :
    WindowsInFront L { e with kv, pool } := by
  obtain ⟨hid, -⟩ := turn.request_of_call h.named hcall
  obtain ⟨hcomputed, -⟩ := turn.computed_of_call hcall
  rw [← hid] at hcomputed
  obtain ⟨hp, ho, htrim, hfirst⟩ := (allocateSlots_slid h.pool (hC.slots h hcomputed) H).ok halloc
  refine h.update _ hp h.named ho (fun _ _ ↦ rfl) fun m' hm' W hW ↦ ?_
  obtain ⟨m, hm, ht⟩ := Each.mem htrim hm'
  have hkind : m.kind = .slidingWindow W := ht.kind_eq ▸ hW
  obtain ⟨-, hlen, hcov⟩ := h.tables c.request.requestId m hm W hkind
  rw [ht.length, ht.blockSize_eq]
  exact ⟨hfirst m' hm' W hW, hlen, hcov⟩

end

theorem WindowsInFront.setRequest (h : WindowsInFront L e)
    (hst : e.requests.get? id = some st) (hid : st'.request.requestId = st.request.requestId)
    (hle : st'.request.numComputedTokens ≤ st.request.numComputedTokens) :
    WindowsInFront L (e.setRequest id st') := by
  refine h.update _ h.pool (h.named.set (hid.trans (h.named id st hst))) (.refl (OnlyFor.refl id) e.kv)
    (fun id' hne ↦ numComputedTokens_congr (get?_setRequest_ne hne st')) ?_
  have hget : (e.setRequest id st').requests.get? id = some st' := get?_set_self _ id st'
  rw [numComputedTokens_of_get? hget]
  refine (h.tables id).mono ?_
  rw [numComputedTokens_of_get? hst]
  exact hle

theorem WindowsInFront.freed (h : WindowsInFront L e) (hfree : e.kv.free id e.pool = .ok kv pool) :
    WindowsInFront L { kv, pool, requests := e.requests.erase id } := by
  refine h.free hfree rfl rfl (fun id' st hget ↦ h.named.erase id hget) (fun id' hne ↦ ?_) ?_
  · refine numComputedTokens_congr ?_
    exact get?_erase_ne _ hne
  · rw [numComputedTokens, get?_erase_self]
    rfl

theorem Move.preempted {op} (h : Move H cfg st op st')
    (hpre : op.preempts = true) : st'.request.numComputedTokens = 0 := by
  cases h with
  | preempt | forcePreempt => rfl
  | running | waiting | output | late | outputInvalid | invalidBlocks | drafts | queued | session
  | sessionEnd | loadRemote | remoteLoaded | grammarReady | finish => cases hpre

theorem EngineRequest.remoteLoaded_computed_le (failed) (r : EngineRequest) :
    (r.remoteLoaded failed).numComputedTokens ≤ r.numComputedTokens := by
  unfold remoteLoaded
  dsimp only
  split
  next heq => omega
  · exact le_rfl

theorem Move.remoteLoaded_le {failed} (h : Move H cfg st (.remoteLoaded failed) st') :
    st'.request.numComputedTokens ≤ st.request.numComputedTokens := by
  cases h
  exact remoteLoaded_computed_le failed _

theorem WindowsInFront.effect (h : WindowsInFront L e) {ev change}
    (hC : Confines M H cfg e () ev) (heff : Effect H cfg e ev e' change) : WindowsInFront L e' := by
  cases heff with
  | @addRequest r hnew =>
    refine h.update _ h.pool (h.named.set rfl) (.refl (OnlyFor.refl r.requestId) e.kv)
      (fun id' hne ↦ numComputedTokens_congr (get?_setRequest_ne hne _)) ?_
    have hget : (e.setRequest r.requestId ⟨r, []⟩).requests.get? r.requestId = some ⟨r, []⟩ :=
      get?_set_self _ _ _
    rw [numComputedTokens_of_get? hget]
    exact (h.tables r.requestId).mono (hC.le.trans (Nat.zero_le _))
  | granted hcall halloc => exact h.granted (hC _ hcall) hcall halloc
  | refused hcall halloc => exact h.refused (hC _ hcall) hcall halloc
  | act hst hno hrun =>
    have hmove := move hrun
    exact h.setRequest hst hmove.requestId (hmove.computed_le hno)
  | @preempt id op delay st st' kv pool hst hrun hpre hfree =>
    have hmove := move hrun
    have hget : (e.setRequest id st').requests.get? id = some st' := get?_set_self _ id st'
    refine h.free hfree rfl rfl (h.named.set (hmove.requestId.trans (h.named id st hst)))
      (fun id' hne ↦ numComputedTokens_congr (get?_setRequest_ne hne st')) ?_
    exact (numComputedTokens_of_get? hget).trans (hmove.preempted hpre)
  | finish hfree => exact h.freed hfree
  | @remoteFreed id st st' kv pool hst hrun hfree hzero =>
    have hmove := move hrun
    have hget : (e.setRequest id st').requests.get? id = some st' := get?_set_self _ id st'
    rw [h.named id st hst] at hfree
    refine h.free hfree rfl rfl (h.named.set (hmove.requestId.trans (h.named id st hst)))
      (fun id' hne ↦ numComputedTokens_congr (get?_setRequest_ne hne st')) ?_
    exact (numComputedTokens_of_get? hget).trans
      (Nat.le_zero.mp (hmove.remoteLoaded_le.trans hzero.le))
  | @remoteCached id failed st st' kv pool hst hrun hcache =>
    have hmove := move hrun
    have h' := h.setRequest hst hmove.requestId hmove.remoteLoaded_le
    exact h'.same ((KVCacheManager.cacheBlocks_nullApart h.pool H _ _).ok hcache) h'.named
      (fun id ↦ (KVCacheManager.cacheBlocks_retables H _ _ id).ok hcache) fun _ ↦ le_rfl
  | remote hst hrun =>
    have hmove := move hrun
    exact h.setRequest hst hmove.requestId hmove.remoteLoaded_le
  | sent hfree => exact h.freed hfree
  | reset hreset =>
    exact ⟨h.maxModelLen, (resetPrefixCache_nullApart h.pool).ok hreset, h.named, h.specs, h.tables⟩
  | newStep =>
    exact h.same h.pool h.named (fun id ↦ newStepStarts_retables id) fun _ ↦ le_rfl

def SpecInUse (spec : KVCacheSpec) : Prop :=
  0 < spec.blockSize ∧ ∀ W, spec.kind = .slidingWindow W → 0 < W

section

variable (hspec : ∀ g ∈ kvCacheConfig.kvCacheConfig.kvCacheGroups, SpecInUse g.kvCacheSpec)

include hspec

theorem windowsInFront_init
    (h : init cfg kvCacheConfig = .ok e) : WindowsInFront cfg.maxModelLen e := by
  unfold Engine.init at h
  split at h
  · cases h
  next kv pool hinit =>
    cases h
    refine ⟨init_maxModelLen hinit, init_nullApart hinit,
      fun id st hget ↦ ?_, fun m hm ↦ ?_, fun id ↦ .of_empty fun m hm ↦ ?_⟩
    · cases hget
    · obtain ⟨g, hg, i, hnew⟩ := init_managers hinit m hm
      rw [blockSize, kind, hnew.spec]
      exact hspec g hg
    · obtain ⟨g, hg, i, hnew⟩ := init_managers hinit m hm
      exact hnew.table_eq id

theorem Engine.RunOf.windowsInFront {u}
    (h : Engine.RunOf H cfg kvCacheConfig noRecord (Confines M H cfg) e u) :
    WindowsInFront cfg.maxModelLen e := by
  induction h with
  | init h => exact windowsInFront_init hspec h
  | step ev h hC hrun ih => exact ih.effect hC (Event.effect hrun)

end

theorem withinCap_of_slid {N} (hp : NullApart (.blk 0) e.pool)
    (hsize : ∀ m ∈ e.kv.singleTypeManagers, 0 < m.blockSize)
    (h : KVCacheManager.Slid (.blk 0) id N (min (N + M + 1) L) e.kv) : WithinCap M L id e := by
  intro m hm W hW cap hcap
  obtain ⟨hfirst, hlen⟩ := h m hm W hW
  have hkind : m.kvCacheSpec.kind = .slidingWindow W := hW
  rw [maxAdmissionBlocks, hkind] at hcap
  cases hcap
  rw [hp.nullBlock]
  calc numHeldBlocks (.blk 0) (m.table id)
      ≤ (m.table id).length - m.windowStart W N := hfirst.numHeldBlocks_le
    _ ≤ cdiv (min (N + M + 1) L) m.blockSize - m.windowStart W N := Nat.sub_le_sub_right hlen _
    _ ≤ _ := window_blocks_le (hsize m hm) N M L W

/-- In a run of confined turns, the cap is kept at every successful allocation. -/
theorem held_blocks_within_cap {u : Unit}
    (hspec : ∀ g ∈ kvCacheConfig.kvCacheConfig.kvCacheGroups, SpecInUse g.kvCacheSpec)
    (hrun : Engine.RunOf H cfg kvCacheConfig noRecord (Confines M H cfg) e u) {turn : Turn}
    (hC : Confines M H cfg e u (.schedule turn))
    (hstep : turn.run H cfg e = .ok (e', .granted c)) :
    WithinCap M cfg.maxModelLen c.request.requestId e' := by
  have h := hrun.windowsInFront hspec
  cases turn.effect hstep with
  | @granted _ c kv pool blocks hcall halloc =>
    obtain ⟨hid, -⟩ := turn.request_of_call h.named hcall
    obtain ⟨hcomputed, -⟩ := turn.computed_of_call hcall
    rw [← hid] at hcomputed
    obtain ⟨hp, ho, hslid, -⟩ :=
      (allocateSlots_slid h.pool ((hC c hcall).slots h hcomputed) H).ok halloc
    obtain ⟨hkv, hpool⟩ := turn.grant_eq c.next { e with kv, pool }
    refine withinCap_of_slid (N := c.computedTokens) (hpool ▸ hp) (fun m hm ↦ ?_) ?_
    · rw [hkv] at hm
      exact (specs_of_each ho h.specs m hm).1
    · rw [hkv]
      exact hslid

def capConfig : EngineConfig where
  blockSize := 16
  maxModelLen := 128
  numSpecTokens := 3

def capGroups : KVCacheManagerConfig where
  kvCacheConfig := {
    numBlocks := 20
    kvCacheGroups := [{ kvCacheSpec := { kind := .slidingWindow 16, blockSize := 16 } }] }
  maxModelLen := 128
  hashBlockSize := 16
  maxNumBatchedTokens := some 16
  enableCaching := false

def firstPrompt : EngineRequest where
  requestId := "b"
  allTokenIds := [1, 2]
  promptTokenIds := [1, 2]
  numPromptTokens := 2
  maxTokens := 1

/-- The prompt of `"a"` in chunks of a budget of sixteen tokens, the first one shared with `"b"`. -/
def chunks (numLookaheadTokens : ℕ) : List Event :=
  [.addRequest firstPrompt, .addRequest (promptOf 64), .schedule (.waiting "b" ⟨16, none⟩ {}),
    .schedule (.waiting "a" ⟨14, none⟩ {}), .act "b" (.output [7] true) false,
    .act "a" (.output [] true) false, .schedule (.running "a" ⟨16, none⟩ numLookaheadTokens),
    .act "a" (.output [] true) false]

def nextChunk (numLookaheadTokens : ℕ) : Turn := .running "a" ⟨16, none⟩ numLookaheadTokens

/-- The budget of a turn is at most `maxNumBatchedTokens`, and its lookahead that of the speculative
decoding. -/
def Turn.ordinary (cfg : EngineConfig) (maxNumBatchedTokens : ℕ) : Turn → Bool
  | .running _ b n | .cancelled _ b n =>
    b.tokenBudget ≤ maxNumBatchedTokens ∧ n = cfg.numSpecTokens
  | .waiting _ b o => b.tokenBudget ≤ maxNumBatchedTokens ∧ o.numLookaheadTokens ≤ cfg.numSpecTokens

def ordinaryTurns (cfg : EngineConfig) (maxNumBatchedTokens : ℕ) (_ : Engine) (_ : Unit) :
    Event → Bool
  | .schedule turn => turn.ordinary cfg maxNumBatchedTokens
  | _ => true

/-- A chunk of sixteen tokens with three lookahead slots, from token thirty on, needs four blocks
with its window, and the cap is three. -/
theorem cap_exceeded_by_lookahead :
    ∃ e u e' c, Engine.RunOf tokenHashing capConfig capGroups noRecord
        (fun e u ev ↦ ordinaryTurns capConfig 16 e u ev = true) e u ∧
      (nextChunk 3).ordinary capConfig 16 = true ∧
      (nextChunk 3).run tokenHashing capConfig e = .ok (e', .granted c) ∧
      ¬ WithinCap 16 capConfig.maxModelLen c.request.requestId e' := by
  have hrun : ∃ out ∈ runFrom tokenHashing capConfig capGroups noRecord
      (ordinaryTurns capConfig 16) (chunks 3),
      ∃ next ∈ ((nextChunk 3).run tokenHashing capConfig out.1).toOption, ∃ c ∈ next.2.call,
        c.request.requestId = "a" ∧ ∃ m ∈ next.1.kv.singleTypeManagers,
          m.kind = .slidingWindow 16 ∧ maxAdmissionBlocks m.kvCacheSpec 16 128 = some 3 ∧
          numHeldBlocks next.1.pool.nullBlock (m.table "a") = 4 := by
    decide +kernel
  obtain ⟨⟨e, u⟩, hout, ⟨e', change⟩, hnext, c, hc, hid, m, hm, hkind, hcap, hheld⟩ := hrun
  obtain rfl := Change.of_call hc
  refine ⟨e, u, e', c, .of_runFrom (fun _ _ _ h ↦ h) hout, rfl, of_toOption_eq_some hnext, ?_⟩
  intro hwithin
  have := hwithin m hm 16 hkind 3 hcap
  rw [hid, hheld] at this
  omega

def confines (M : ℕ) (H : Hashing) (cfg : EngineConfig) (e : Engine) (_ : Unit) : Event → Bool
  | .schedule turn =>
    match turn.slotCall H cfg e with
    | .error _ => true
    | .ok c =>
      c.args.newComputedBlocks = none ∧ c.computedTokens ≤ c.request.numComputedTokens ∧
        c.args.numNewTokens + c.args.numLookaheadTokens ≤ M + 1 ∧
        c.computedTokens + c.args.numNewTokens ≤ e.kv.maxModelLen ∧
        ∀ m ∈ e.kv.singleTypeManagers,
          (m.table c.request.requestId).length ≤ cdiv (c.computedTokens + M + 1) m.blockSize
  | .addRequest r => r.numComputedTokens = 0
  | _ => true

theorem confines_of_check {u ev} (h : confines M H cfg e u ev = true) :
    Confines M H cfg e u ev := by
  cases ev with
  | schedule turn =>
    intro c hcall
    simp only [confines, hcall, decide_eq_true_eq] at h
    obtain ⟨hblocks, hcomputed, htokens, hfits, hheld⟩ := h
    refine ⟨htokens, hfits, fun m hm _ _ ↦ hheld m hm, fun i m l W _ hl _ ↦ ?_,
      fun hlt ↦ absurd hlt (not_lt.mpr hcomputed)⟩
    rw [hits, hblocks] at hl
    obtain rfl := List.eq_of_mem_replicate (List.mem_of_getElem? hl)
    exact ⟨nullsFirst_nil _, Nat.zero_le _⟩
  | addRequest r => exact (of_decide_eq_true h : r.numComputedTokens = 0)
  | act | remoteLoaded | finishedSending | resetPrefixCache | newStepStarts => trivial

theorem held_blocks_within_cap_of_one_draft :
    ∃ e u e' c, Engine.RunOf tokenHashing capConfig capGroups noRecord
        (Confines 16 tokenHashing capConfig) e u ∧
      (nextChunk 1).run tokenHashing capConfig e = .ok (e', .granted c) ∧ c.computedTokens = 30 ∧
      WithinCap 16 capConfig.maxModelLen c.request.requestId e' := by
  have hrun : ∃ out ∈ runFrom tokenHashing capConfig capGroups noRecord
      (confines 16 tokenHashing capConfig) (chunks 1),
      confines 16 tokenHashing capConfig out.1 out.2 (.schedule (nextChunk 1)) = true ∧
      ∃ next ∈ ((nextChunk 1).run tokenHashing capConfig out.1).toOption, ∃ c ∈ next.2.call,
        c.computedTokens = 30 := by
    decide +kernel
  obtain ⟨⟨e, u⟩, hout, hcheck, ⟨e', change⟩, hnext, c, hc, hcomputed⟩ := hrun
  obtain rfl := Change.of_call hc
  have hreach := Engine.RunOf.of_runFrom (fun _ _ _ ↦ confines_of_check) hout
  have hstep := of_toOption_eq_some hnext
  refine ⟨e, u, e', c, hreach, hstep, hcomputed, ?_⟩
  refine held_blocks_within_cap (fun g hg ↦ ?_) hreach (confines_of_check hcheck) hstep
  obtain rfl := List.mem_singleton.mp hg
  refine ⟨by decide, fun W hW ↦ ?_⟩
  obtain rfl := SpecKind.slidingWindow.inj hW
  decide

end VllmEngine.Sched
