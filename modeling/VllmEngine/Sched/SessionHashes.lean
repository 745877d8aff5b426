import VllmEngine.Core.HashExtension
import VllmEngine.Sched.SyncRun

namespace VllmEngine.Sched

open VllmEngine.Core SchedRequest Option Request SyncOp

variable {H : Hashing} {cfg : SchedulerConfig} {r : SchedRequest}

structure HashesCurrent (H : Hashing) (cfg : SchedulerConfig) (r : SchedRequest) : Prop where
  noFeatures : r.mmFeatures = []
  queued : ∀ queue, r.streamingQueue = some queue → ∀ u, some u ∈ queue → u.mmFeatures = []
  hashes : r.blockHashes = scratchHashes H cfg.blockSize r.toRequest

def KeepsHashedTokens (cfg : SchedulerConfig) (session : SchedRequest) (update : StreamingUpdate) :
    Prop :=
  let hashed := session.numTokens / cfg.blockSize * cfg.blockSize
  session.allTokenIds.take hashed =
    (session.allTokenIds.take session.numComputedTokens ++ update.promptTokenIds).take hashed

instance (cfg : SchedulerConfig) (session : SchedRequest) (update : StreamingUpdate) :
    Decidable (KeepsHashedTokens cfg session update) :=
  inferInstanceAs (Decidable (_ = _))

theorem HashesCurrent.congr {r'} (hbs : 0 < cfg.blockSize) (h : HashesCurrent H cfg r)
    (hextras : Request.SameExtras r.toRequest r'.toRequest)
    (htokens : r.allTokenIds = r'.allTokenIds) (hhashes : r.blockHashes = r'.blockHashes)
    (hqueue : ∀ queue, r'.streamingQueue = some queue → ∀ u, some u ∈ queue → u.mmFeatures = []) :
    HashesCurrent H cfg r' :=
  ⟨hextras.mm ▸ h.noFeatures, hqueue,
    hhashes ▸ h.hashes.trans (scratchHashes_congr hbs hextras htokens)⟩

theorem HashesCurrent.append (hbs : 0 < cfg.blockSize) (h : HashesCurrent H cfg r) (tokenId) :
    HashesCurrent H cfg (appendOutputTokenId H cfg r tokenId) := by
  refine ⟨h.noFeatures, h.queued, ?_⟩
  refine updateBlockHashes_eq_scratch (r := r.toRequest) hbs ⟨rfl, rfl, rfl, rfl⟩
    h.noFeatures h.hashes ?_
  rw [List.take_append_of_le_length]
  exact Nat.div_mul_le_self _ _

theorem HashesCurrent.updateRequestWithOutput (hbs : 0 < cfg.blockSize) {r}
    (h : HashesCurrent H cfg r) (tokenIds) :
    HashesCurrent H cfg (updateRequestWithOutput H cfg r tokenIds).1 := by
  induction tokenIds generalizing r with
  | nil => exact h
  | cons tokenId tokenIds ih =>
    have happend := h.append hbs tokenId
    unfold SchedRequest.updateRequestWithOutput
    dsimp only
    split
    · exact ⟨happend.noFeatures, happend.queued, happend.hashes⟩
    · exact ih happend

theorem HashesCurrent.rejectDrafts (hbs : 0 < cfg.blockSize) (h : HashesCurrent H cfg r)
    (spec) (generated) : HashesCurrent H cfg (rejectDrafts r spec generated) := by
  unfold SchedRequest.rejectDrafts
  split
  · exact h.congr hbs ⟨rfl, rfl, rfl, rfl⟩ rfl rfl h.queued
  · exact h

theorem HashesCurrent.applyOutput (hbs : 0 < cfg.blockSize) (h : HashesCurrent H cfg r)
    (spec) (generated) (grammarAccepts) :
    HashesCurrent H cfg (applyOutput H cfg r spec generated grammarAccepts).1 := by
  have hout := (h.rejectDrafts hbs spec generated).updateRequestWithOutput hbs generated
  unfold SchedRequest.applyOutput
  dsimp only
  split
  · exact ⟨hout.noFeatures, hout.queued, hout.hashes⟩
  · exact hout

theorem HashesCurrent.session_iff (hbs : 0 < cfg.blockSize) (h : HashesCurrent H cfg r)
    {update} (hmm : update.mmFeatures = []) :
    (KeepsHashedTokens cfg r update → HashesCurrent H cfg (updateRequestAsSession H cfg r update)) ∧
      (Function.Injective H.hashFunction → (updateRequestAsSession H cfg r update).blockHashes =
          scratchHashes H cfg.blockSize (updateRequestAsSession H cfg r update).toRequest →
        KeepsHashedTokens cfg r update) := by
  let next : Request :=
    { r.toRequest with
      allTokenIds := r.allTokenIds.take r.numComputedTokens ++ update.promptTokenIds
      mmFeatures := r.mmFeatures ++ update.mmFeatures.map fun f ↦
        { f with mmPosition := { f.mmPosition with
            offset := f.mmPosition.offset + (r.allTokenIds.take r.numComputedTokens).length } } }
  have hmm' : next.mmFeatures = [] := by simp [next, h.noFeatures, hmm]
  have hextras : Request.SameExtras r.toRequest next := ⟨h.noFeatures.trans hmm'.symm, rfl, rfl, rfl⟩
  refine ⟨fun hkeep ↦ ⟨hmm', h.queued, ?_⟩, fun hinj heq ↦ ?_⟩
  · exact updateBlockHashes_eq_scratch hbs hextras hmm' h.hashes hkeep
  · exact take_eq_of_updateBlockHashes hinj hbs hextras h.hashes heq

/-- The states of a session without multimodal features under the synchronous scheduler, in which no
update has changed the tokens of a hashed block. -/
inductive Reached (H : Hashing) (cfg : SchedulerConfig) : SyncState → Prop
  | create (request : Request) (numPromptTokens maxTokens : ℕ) (samplingParams : SamplingParams)
      (hmm : request.mmFeatures = []) :
      Reached H cfg ⟨.create H cfg request numPromptTokens maxTokens samplingParams true, none⟩
  | step {st st'} (op : SyncOp) (h : Reached H cfg st) (hrun : op.run H cfg st = some st')
      (hmm : ∀ u, op = .streamingUpdate (some u) → u.mmFeatures = [])
      (hkeep : ∀ session u, op.sessionUpdate H cfg st = some (session, u) →
        KeepsHashedTokens cfg session u) :
      Reached H cfg st'

theorem HashesCurrent.nextUpdate (h : HashesCurrent H cfg r) {session u}
    (hnext : r.nextUpdate = some (session, u)) :
    HashesCurrent H cfg session ∧ u.mmFeatures = [] := by
  unfold SchedRequest.nextUpdate at hnext
  split at hnext
  · split at hnext
    next update rest hqueue =>
      simp only [some.injEq, Prod.mk.injEq] at hnext
      obtain ⟨rfl, rfl⟩ := hnext
      have hqueued := h.queued _ hqueue
      refine ⟨⟨h.noFeatures, ?_, h.hashes⟩, hqueued update (by simp)⟩
      intro queue hq u hu
      obtain rfl : rest = queue := by simpa using hq
      exact hqueued u (by simp [hu])
    all_goals cases hnext
  · cases hnext

section

variable (hbs : 0 < cfg.blockSize)

include hbs

variable {st : SyncState}

theorem sessionUpdate_current (h : HashesCurrent H cfg st.request) {op : SyncOp}
    (hmm : ∀ u, op = .streamingUpdate (some u) → u.mmFeatures = []) {session u}
    (hcall : op.sessionUpdate H cfg st = some (session, u)) :
    HashesCurrent H cfg session ∧ u.mmFeatures = [] := by
  unfold sessionUpdate at hcall
  split at hcall
  · split at hcall
    · cases hcall
    dsimp only at hcall
    split at hcall
    · exact (h.applyOutput hbs _ _ _).nextUpdate hcall
    · cases hcall
  next update =>
    split at hcall
    · cases hcall
      exact ⟨h, hmm _ rfl⟩
    · cases hcall
  · cases hcall

theorem HashesCurrent.scheduleRunning (h : HashesCurrent H cfg r)
    {b out} (hrun : scheduleRunning cfg b r = some out) :
    HashesCurrent H cfg out.1 := by
  unfold SchedRequest.scheduleRunning at hrun
  dsimp only at hrun
  split at hrun
  · cases hrun
    exact h.congr hbs ⟨rfl, rfl, rfl, rfl⟩ rfl rfl h.queued
  · cases hrun

theorem HashesCurrent.scheduleWaiting (h : HashesCurrent H cfg r)
    {b hits out} (hrun : scheduleWaiting cfg b r hits = some out) :
    HashesCurrent H cfg out := by
  unfold SchedRequest.scheduleWaiting at hrun
  dsimp only at hrun
  generalize hcomputed : (if r.numComputedTokens = 0 then hits else r.numComputedTokens) = computed at hrun
  split at hrun
  · cases hrun
  split at hrun
  · cases hrun
    exact h.congr hbs ⟨rfl, rfl, rfl, rfl⟩ rfl rfl h.queued
  · cases hrun

theorem HashesCurrent.handleStoppedRequest (h : HashesCurrent H cfg r)
    (hkeep : ∀ session u, r.nextUpdate = some (session, u) → KeepsHashedTokens cfg session u) :
    HashesCurrent H cfg (handleStoppedRequest H cfg r).1 := by
  unfold SchedRequest.handleStoppedRequest
  split
  next hres =>
    split
    next rest hqueue =>
      refine ⟨h.noFeatures, fun queue hq u hu ↦ ?_, h.hashes⟩
      obtain rfl : rest = queue := by simpa using hq
      exact h.queued _ hqueue u (by simp [hu])
    next update rest hqueue =>
      have hnext : r.nextUpdate = some ({ r with streamingQueue := some rest }, update) := by
        simp [SchedRequest.nextUpdate, hres, hqueue]
      obtain ⟨hsession, hmm⟩ := h.nextUpdate hnext
      exact (hsession.session_iff hbs hmm).1 (hkeep _ _ hnext)
    all_goals exact ⟨h.noFeatures, h.queued, h.hashes⟩
  next => exact h

theorem HashesCurrent.updateFromOutput (h : HashesCurrent H cfg st.request) {spec}
    (hspec : st.inFlight = some spec) {generated grammarAccepts}
    (hkeep : ∀ session u, (output generated grammarAccepts).sessionUpdate H cfg st =
      some (session, u) → KeepsHashedTokens cfg session u) :
    HashesCurrent H cfg (updateFromOutput H cfg st.request spec generated grammarAccepts) := by
  have hout := h.applyOutput hbs spec generated grammarAccepts
  unfold SchedRequest.updateFromOutput
  split
  · exact h
  next hfin =>
    dsimp only
    split
    next hstop =>
      refine hout.handleStoppedRequest hbs fun session u hnext ↦ hkeep session u ?_
      simp only [sessionUpdate, hspec]
      rw [if_pos ⟨by simpa using hfin, hstop⟩, hnext]
    · exact hout

theorem HashesCurrent.step {st'}
    (h : HashesCurrent H cfg st.request) (op : SyncOp) (hrun : op.run H cfg st = some st')
    (hmm : ∀ u, op = .streamingUpdate (some u) → u.mmFeatures = [])
    (hkeep : ∀ session u, op.sessionUpdate H cfg st = some (session, u) →
      KeepsHashedTokens cfg session u) : HashesCurrent H cfg st'.request := by
  cases op with
  | scheduleRunning b =>
    simp only [run, ite_none_right_eq_some] at hrun
    obtain ⟨-, hrun⟩ := hrun
    obtain ⟨out, hout, rfl⟩ := map_eq_some_iff.mp hrun
    exact h.scheduleRunning hbs hout
  | scheduleWaiting b hits =>
    simp only [run, ite_none_right_eq_some] at hrun
    obtain ⟨-, hrun⟩ := hrun
    obtain ⟨out, hout, rfl⟩ := map_eq_some_iff.mp hrun
    exact h.scheduleWaiting hbs hout
  | preempt | loadRemote n | remoteLoaded n status =>
    simp only [run, ite_none_right_eq_some, some.injEq] at hrun
    obtain ⟨-, rfl⟩ := hrun
    exact h.congr hbs ⟨rfl, rfl, rfl, rfl⟩ rfl rfl h.queued
  | output generated grammarAccepts =>
    simp only [run] at hrun
    split at hrun
    · cases hrun
    next spec hspec =>
      rw [ite_none_right_eq_some, some.injEq] at hrun
      obtain ⟨-, rfl⟩ := hrun
      exact h.updateFromOutput hbs hspec hkeep
  | drafts specTokenIds =>
    simp only [run, ite_none_right_eq_some, some.injEq] at hrun
    obtain ⟨-, rfl⟩ := hrun
    unfold updateDraftTokenIds
    split
    · exact h
    · exact ⟨h.noFeatures, h.queued, h.hashes⟩
  | streamingUpdate update =>
    simp only [run] at hrun
    split at hrun
    · cases hrun
    split at hrun
    next hwait =>
      obtain ⟨queue, hqueue, rfl⟩ := map_eq_some_iff.mp hrun
      refine ⟨h.noFeatures, fun queue' hq u hu ↦ ?_, h.hashes⟩
      obtain rfl : queue ++ [update] = queue' := by simpa using hq
      rcases List.mem_append.mp hu with hu | hu
      · exact h.queued queue hqueue u hu
      · exact hmm u (by rw [List.mem_singleton.mp hu])
    next hwait =>
      split at hrun
      next update =>
        cases hrun
        exact (h.session_iff hbs (hmm _ rfl)).1 (hkeep _ _ (by simp [sessionUpdate, hwait]))
      · cases hrun
        exact ⟨h.noFeatures, h.queued, h.hashes⟩
  | finish status =>
    simp only [run, ite_none_right_eq_some, some.injEq] at hrun
    obtain ⟨-, rfl⟩ := hrun
    exact ⟨h.noFeatures, h.queued, h.hashes⟩

theorem Reached.current (h : Reached H cfg st) : HashesCurrent H cfg st.request := by
  induction h with
  | create request numPromptTokens maxTokens samplingParams hmm =>
    refine ⟨hmm, fun queue hq u hu ↦ ?_, ?_⟩
    · obtain rfl : [] = queue := by simpa [SchedRequest.create] using hq
      cases hu
    · exact updateBlockHashes_eq_scratch (r := { request with allTokenIds := [] }) hbs
        ⟨rfl, rfl, rfl, rfl⟩ hmm (by simp [scratchHashes_eq_chain hbs, numTokens, Lib.chain])
          (by simp [numTokens])
  | step op _ hrun hmm hkeep ih => exact ih.step hbs op hrun hmm hkeep

end

/-- A session gets the hashes of its tokens from an update that keeps the tokens of the hashed
blocks; with a hash function without collisions, from no other. -/
theorem session_hashes_after_update (hbs : 0 < cfg.blockSize) {st : SyncState}
    (h : Reached H cfg st) {op : SyncOp}
    (hmm : ∀ u, op = .streamingUpdate (some u) → u.mmFeatures = []) {session : SchedRequest}
    {u : StreamingUpdate} (hcall : op.sessionUpdate H cfg st = some (session, u)) :
    (KeepsHashedTokens cfg session u → (updateRequestAsSession H cfg session u).blockHashes =
        scratchHashes H cfg.blockSize (updateRequestAsSession H cfg session u).toRequest) ∧
      (Function.Injective H.hashFunction → (updateRequestAsSession H cfg session u).blockHashes =
          scratchHashes H cfg.blockSize (updateRequestAsSession H cfg session u).toRequest →
        KeepsHashedTokens cfg session u) := by
  obtain ⟨hsession, humm⟩ := sessionUpdate_current hbs (h.current hbs) hmm hcall
  exact ⟨fun hkeep ↦ ((hsession.session_iff hbs humm).1 hkeep).hashes,
    (hsession.session_iff hbs humm).2⟩

def tokenHashing : Hashing where
  hashFunction x := x.2.1.map (·.toUInt8)
  sha256 _ := []
  noneHash := []

/-- An action of a session without features whose update, if any, keeps the hashed tokens. -/
def careful (H : Hashing) (cfg : SchedulerConfig) (op : SyncOp) (st : SyncState) : Option SyncState :=
  let plain := match op with
    | .streamingUpdate (some u) => u.mmFeatures = []
    | _ => True
  let keeps := match op.sessionUpdate H cfg st with
    | some (session, u) => KeepsHashedTokens cfg session u
    | none => True
  have : Decidable plain := by dsimp only [plain]; split <;> infer_instance
  have : Decidable keeps := by dsimp only [keeps]; split <;> infer_instance
  if plain ∧ keeps then op.run H cfg st else none

theorem Reached.careful {st st'} (h : Reached H cfg st) {op}
    (hrun : careful H cfg op st = some st') : Reached H cfg st' := by
  unfold Sched.careful at hrun
  rw [ite_none_right_eq_some] at hrun
  obtain ⟨⟨hplain, hkeeps⟩, hrun⟩ := hrun
  refine h.step op hrun ?_ ?_
  · rintro u rfl
    exact hplain
  · intro session u hcall
    rw [hcall] at hkeeps
    exact hkeeps

def sessionConfig : SchedulerConfig := { blockSize := 4, maxModelLen := 100 }

def newSession (prompt : List ℕ) : SyncState :=
  ⟨.create tokenHashing sessionConfig { requestId := "s", allTokenIds := prompt } prompt.length 10
    { eosTokenId := some 9 } true, none⟩

def stoppedSession (prompt : List ℕ) : Option SyncState :=
  (careful tokenHashing sessionConfig (.scheduleWaiting ⟨100, none⟩ 0) (newSession prompt)).bind
    (careful tokenHashing sessionConfig (.output [9] true))

theorem stoppedSession_reached {prompt st}
    (h : stoppedSession prompt = some st) : Reached tokenHashing sessionConfig st := by
  obtain ⟨st', h1, h2⟩ := bind_eq_some_iff.mp h
  exact ((Reached.create _ _ _ _ rfl).careful h1).careful h2

def nextInput : StreamingUpdate := { promptTokenIds := [4, 5] }

theorem session_hashes_after_short_prompt : ∃ st, stoppedSession [1, 2] = some st ∧
    (updateRequestAsSession tokenHashing sessionConfig st.request nextInput).blockHashes =
      scratchHashes tokenHashing 4
        (updateRequestAsSession tokenHashing sessionConfig st.request nextInput).toRequest := by
  obtain ⟨st, hstop, hcall, hkeep⟩ : ∃ st, stoppedSession [1, 2] = some st ∧
      (streamingUpdate (some nextInput)).sessionUpdate tokenHashing sessionConfig st =
        some (st.request, nextInput) ∧ KeepsHashedTokens sessionConfig st.request nextInput :=
    ⟨_, rfl, rfl, by decide⟩
  refine ⟨st, hstop, ?_⟩
  exact (session_hashes_after_update (by decide) (stoppedSession_reached hstop)
    (by rintro u ⟨⟩; rfl) hcall).1 hkeep

/-- The sampled token 9 completed a block with a prompt of three. It is dropped, and its block keeps
the hash. -/
theorem session_hash_of_dropped_token : ∃ st session, Reached tokenHashing sessionConfig st ∧
    (streamingUpdate (some nextInput)).sessionUpdate tokenHashing sessionConfig st =
      some (session, nextInput) ∧
    let after := updateRequestAsSession tokenHashing sessionConfig session nextInput
    after.allTokenIds = [1, 2, 3, 4, 5] ∧ after.blockHashes = [[1, 2, 3, 9]] ∧
      scratchHashes tokenHashing 4 after.toRequest = [[1, 2, 3, 4]] := by
  have hstop : stoppedSession [1, 2, 3] = some _ := rfl
  exact ⟨_, _, stoppedSession_reached hstop, rfl, by decide⟩

end VllmEngine.Sched
