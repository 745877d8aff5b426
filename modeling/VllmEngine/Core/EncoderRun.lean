import VllmEngine.Core.EncoderAccounts

namespace VllmEngine.Core

open Lib EncoderCacheManager List

/-- The calls of the scheduler. An input that `can_allocate` accepts need not be scheduled. -/
inductive EncoderOp
  | checkAndUpdateCache (request : Request) (inputId : ℕ)
  | canAllocate (request : Request) (inputId : ℕ) (encoderComputeBudget : ℤ) (schedule : Bool)
  | allocate (request : Request) (inputId : ℕ)
  | giveUp
  | freeEncoderInput (request : Request) (inputId : ℕ)
  | free (request : Request)
  | reset
  | getFreedMmHashes

structure EncoderState where
  manager : EncoderCacheManager
  pending : List (ReqId × MultiModalFeatureSpec) := []

namespace EncoderState

def pendingEmbeds (st : EncoderState) : ℕ := (st.pending.map (·.2.numEmbeds)).sum

def settle (mmHash : String) (pending : List (ReqId × MultiModalFeatureSpec)) :
    List (ReqId × MultiModalFeatureSpec) :=
  pending.filter fun p ↦ decide (p.2.identifier ≠ mmHash)

end EncoderState

def Request.Sized (size : String → ℕ) (request : Request) : Prop :=
  ∀ f ∈ request.mmFeatures, f.numEmbeds = size f.identifier

instance (size : String → ℕ) (request : Request) : Decidable (request.Sized size) :=
  decidableBAll ..

namespace EncoderOp

def run (st : EncoderState) : EncoderOp → Except EncoderError EncoderState
  | .checkAndUpdateCache request inputId => do
    let out ← st.manager.checkAndUpdateCache request inputId
    pure { st with manager := out.1 }
  | .canAllocate request inputId budget schedule => do
    let f ← request.mmFeature inputId
    let out ← st.manager.canAllocate request inputId budget st.pendingEmbeds
    pure { manager := out.1
           pending := if out.2 && schedule then st.pending ++ [(request.requestId, f)] else st.pending }
  | .allocate request inputId => do
    let f ← request.mmFeature inputId
    let m ← st.manager.allocate request inputId
    pure { manager := m, pending := EncoderState.settle f.identifier st.pending }
  | .giveUp => pure { st with pending := [] }
  | .freeEncoderInput request inputId => do
    let m ← st.manager.freeEncoderInput request inputId
    pure { st with manager := m }
  | .free request => do
    let m ← st.manager.free request
    pure { st with manager := m }
  | .reset => pure { st with manager := st.manager.reset }
  | .getFreedMmHashes => pure { st with manager := st.manager.getFreedMmHashes.1 }

/-- The calls come as in `schedule`: room is made for an input that is neither cached nor to be
scheduled, for one request at a time, and only an accepted input is allocated. -/
def Allowed (size : String → ℕ) (st : EncoderState) : EncoderOp → Prop
  | .checkAndUpdateCache request inputId | .freeEncoderInput request inputId =>
    request.Sized size ∧ inputId < request.mmFeatures.length
  | .canAllocate request inputId _ _ =>
    request.Sized size ∧ (∀ p ∈ st.pending, p.1 = request.requestId) ∧
      ∃ f, request.mmFeatures[inputId]? = some f ∧ st.manager.cached.get? f.identifier = none ∧
        ∀ p ∈ st.pending, p.2.identifier ≠ f.identifier
  | .allocate request inputId =>
    ∃ f, request.mmFeatures[inputId]? = some f ∧ (request.requestId, f) ∈ st.pending
  | .free request => request.Sized size
  | .giveUp | .reset | .getFreedMmHashes => True

end EncoderOp

inductive EncoderRun (size : String → ℕ) (cacheSize : ℕ) : EncoderState → Prop
  | init : EncoderRun size cacheSize { manager := init cacheSize }
  | step {st st'} (op : EncoderOp) (h : EncoderRun size cacheSize st)
    (hop : op.Allowed size st) (hrun : op.run st = .ok st') : EncoderRun size cacheSize st'

namespace EncoderState

structure Sound (size : String → ℕ) (cacheSize : ℕ) (st : EncoderState) : Prop where
  accounts : Accounts size st.manager
  cacheSize : st.manager.cacheSize = cacheSize
  room : (st.pendingEmbeds : ℤ) ≤ st.manager.numFreeSlots
  distinct : (st.pending.map (·.2.identifier)).Nodup
  absent : ∀ p ∈ st.pending, st.manager.cached.get? p.2.identifier = none
  sized : ∀ p ∈ st.pending, p.2.numEmbeds = size p.2.identifier

variable {size : String → ℕ} {cacheSize : ℕ} {st : EncoderState} {m : EncoderCacheManager}
  {f : MultiModalFeatureSpec}

theorem Sound.makesRoom (h : st.Sound size cacheSize) (ha : Accounts size m)
    (hm : MakesRoom st.manager m) : Sound size cacheSize { st with manager := m } where
  accounts := ha
  cacheSize := hm.cacheSize.trans h.cacheSize
  room := h.room.trans hm.numFreeSlots
  distinct := h.distinct
  absent p hp := hm.absent _ (h.absent p hp)
  sized := h.sized

theorem Sound.init (size : String → ℕ) (cacheSize) :
    Sound size cacheSize { manager := init cacheSize } where
  accounts := init_accounts size cacheSize
  cacheSize := rfl
  room := Int.natCast_nonneg cacheSize
  distinct := nodup_nil
  absent p hp := by cases hp
  sized p hp := by cases hp

theorem Sound.giveUp (h : st.Sound size cacheSize) : Sound size cacheSize
    { st with pending := [] } where
  accounts := h.accounts
  cacheSize := h.cacheSize
  room := le_trans (Int.natCast_nonneg st.pendingEmbeds) h.room
  distinct := nodup_nil
  absent p hp := by cases hp
  sized p hp := by cases hp

theorem Sound.accept (h : st.Sound size cacheSize) (hsize : f.numEmbeds = size f.identifier)
    (hnew : st.manager.cached.get? f.identifier = none)
    (hother : ∀ p ∈ st.pending, p.2.identifier ≠ f.identifier)
    (hroom : (f.numEmbeds) + st.pendingEmbeds ≤ st.manager.numFreeSlots) (id) :
    Sound size cacheSize { st with pending := st.pending ++ [(id, f)] } where
  accounts := h.accounts
  cacheSize := h.cacheSize
  room := by
    have hsum : pendingEmbeds { st with pending := st.pending ++ [(id, f)] } =
        st.pendingEmbeds + f.numEmbeds := by simp [pendingEmbeds]
    rw [hsum]
    dsimp only
    omega
  distinct := by
    rw [map_append, nodup_append]
    refine ⟨h.distinct, nodup_singleton _, fun a ha b hb ↦ ?_⟩
    obtain ⟨p, hp, rfl⟩ := mem_map.mp ha
    obtain rfl := mem_singleton.mp hb
    exact hother p hp
  absent p hp := by
    rcases mem_append.mp hp with hp | hp
    · exact h.absent p hp
    · obtain rfl := mem_singleton.mp hp
      exact hnew
  sized p hp := by
    rcases mem_append.mp hp with hp | hp
    · exact h.sized p hp
    · obtain rfl := mem_singleton.mp hp
      exact hsize

theorem settle_sum {pending p} (hnodup : (pending.map (·.2.identifier)).Nodup) (hp : p ∈ pending) :
    ((settle p.2.identifier pending).map (·.2.numEmbeds)).sum + p.2.numEmbeds =
      (pending.map (·.2.numEmbeds)).sum := by
  induction pending with
  | nil => cases hp
  | cons q pending ih =>
    rw [map_cons, nodup_cons] at hnodup
    rcases mem_cons.mp hp with rfl | hp
    · have hrest : settle p.2.identifier pending = pending := by
        refine filter_eq_self.mpr fun q hq ↦ decide_eq_true fun he ↦ hnodup.1 ?_
        rw [← he]
        exact mem_map_of_mem hq
      have hhead : settle p.2.identifier (p :: pending) = settle p.2.identifier pending :=
        filter_cons_of_neg (by simp)
      rw [hhead, hrest, map_cons, sum_cons, Nat.add_comm]
    · have hne : q.2.identifier ≠ p.2.identifier := fun he ↦ hnodup.1 (he ▸ mem_map_of_mem hp)
      have hhead : settle p.2.identifier (q :: pending) = q :: settle p.2.identifier pending :=
        filter_cons_of_pos (by simpa using hne)
      rw [hhead, map_cons, map_cons, sum_cons, sum_cons, ← ih hnodup.2 hp]
      omega

theorem Sound.allocate (h : st.Sound size cacheSize) {id} (hp : (id, f) ∈ st.pending) :
    ∃ m, st.manager.takeSlots id f = .ok m ∧
      Sound size cacheSize { manager := m, pending := settle f.identifier st.pending } := by
  have hsum : ((settle f.identifier st.pending).map (·.2.numEmbeds)).sum + f.numEmbeds =
      (st.pending.map (·.2.numEmbeds)).sum := settle_sum h.distinct hp
  have hroom := h.room
  unfold pendingEmbeds at hroom
  obtain ⟨m, hm, ha, hcache, hslots, -, hsame⟩ := takeSlots_spec (f := f) h.accounts id
    (h.sized _ hp) (h.absent _ hp) (by omega)
  refine ⟨m, hm, ha, hcache.trans h.cacheSize, ?_, ?_, fun p hp' ↦ ?_, fun p hp' ↦ ?_⟩
  · rw [hslots, pendingEmbeds]
    dsimp only
    omega
  · exact h.distinct.sublist (filter_sublist.map _)
  · obtain ⟨hmem, hne⟩ := mem_filter.mp hp'
    rw [hsame _ (of_decide_eq_true hne)]
    exact h.absent p hmem
  · exact h.sized p (mem_of_mem_filter hp')

end EncoderState

namespace EncoderOp

open EncoderState

variable {size : String → ℕ} {cacheSize : ℕ} {st : EncoderState} {request : Request}

theorem freeLoop_sound (h : st.Sound size cacheSize) (hsized : request.Sized size) {is}
    (his : ∀ i ∈ is, i < request.mmFeatures.length) :
    ∃ m, freeLoop request is st.manager = .ok m ∧ Sound size cacheSize { st with manager := m } := by
  induction is generalizing st with
  | nil => exact ⟨st.manager, rfl, h⟩
  | cons i is ih =>
    obtain ⟨f, hf⟩ : ∃ f, request.mmFeatures[i]? = some f :=
      ⟨_, getElem?_eq_getElem (his i (by simp))⟩
    obtain ⟨ha, hroom⟩ := release_spec h.accounts request.requestId (hsized f (mem_of_getElem? hf))
    obtain ⟨m, hm, hsound⟩ := ih (h.makesRoom ha hroom) fun j hj ↦ his j (by simp [hj])
    refine ⟨m, ?_, hsound⟩
    rw [freeLoop, freeEncoderInput_eq hf]
    exact hm

theorem run_sound (h : st.Sound size cacheSize) (op : EncoderOp) (hop : op.Allowed size st) :
    ∃ st', op.run st = .ok st' ∧ st'.Sound size cacheSize := by
  cases op with
  | checkAndUpdateCache request inputId =>
    have hf := getElem?_eq_getElem hop.2
    obtain ⟨m, hm, ha, hroom, -⟩ := useCached_spec h.accounts request.requestId _
    refine ⟨_, ?_, h.makesRoom ha hroom⟩
    rw [run, checkAndUpdateCache_eq hf, hm]
    rfl
  | canAllocate request inputId budget schedule =>
    obtain ⟨hsized, -, f, hf, hnew, hother⟩ := hop
    obtain ⟨m, b, hm, ha, hroom, -, hb, -⟩ := makeRoom_spec h.accounts f budget st.pendingEmbeds
    have hsound := h.makesRoom ha hroom
    have hrun : run st (.canAllocate request inputId budget schedule) = .ok ⟨m,
        if b && schedule then st.pending ++ [(request.requestId, f)] else st.pending⟩ := by
      rw [run, canAllocate_eq hf, mmFeature_eq_ok.mpr hf, hm]
      rfl
    refine ⟨_, hrun, ?_⟩
    cases hkeep : b && schedule with
    | false => exact hsound
    | true =>
      have hb := hb (Bool.and_eq_true_iff.mp hkeep).1
      exact hsound.accept (hsized f (mem_of_getElem? hf)) (hroom.absent _ hnew) hother hb _
  | allocate request inputId =>
    obtain ⟨f, hf, hpending⟩ := hop
    obtain ⟨m, hm, hsound⟩ := h.allocate hpending
    refine ⟨_, ?_, hsound⟩
    rw [run, allocate_eq hf, mmFeature_eq_ok.mpr hf, hm]
    rfl
  | giveUp => exact ⟨_, rfl, h.giveUp⟩
  | freeEncoderInput request inputId =>
    have hf := getElem?_eq_getElem hop.2
    obtain ⟨ha, hroom⟩ := release_spec h.accounts request.requestId (hop.1 _ (mem_of_getElem? hf))
    refine ⟨_, ?_, h.makesRoom ha hroom⟩
    rw [run, freeEncoderInput_eq hf]
    rfl
  | free request =>
    have hids : ∀ i ∈ st.manager.getCachedInputIds request, i < request.mmFeatures.length :=
      fun i hi ↦ mem_range.mp (mem_of_mem_filter hi)
    obtain ⟨m, hm, hsound⟩ := freeLoop_sound h hop hids
    refine ⟨_, ?_, hsound⟩
    rw [run, EncoderCacheManager.free, hm]
    rfl
  | reset =>
    obtain ⟨ha, hroom⟩ := h.accounts.reset
    exact ⟨_, rfl, h.makesRoom ha hroom⟩
  | getFreedMmHashes =>
    exact ⟨_, rfl, h.makesRoom ⟨h.accounts.slots, h.accounts.freeableSlots, h.accounts.sizes,
      h.accounts.unused⟩ ⟨rfl, le_rfl, fun _ hh ↦ hh⟩⟩

end EncoderOp

namespace EncoderRun

variable {size : String → ℕ} {cacheSize : ℕ} {st : EncoderState}

theorem sound (h : EncoderRun size cacheSize st) : st.Sound size cacheSize := by
  induction h with
  | init => exact .init size cacheSize
  | step op _ hop hrun ih =>
    obtain ⟨st', hst', hsound⟩ := op.run_sound ih hop
    obtain rfl := Except.ok.inj (hrun.symm.trans hst')
    exact hsound

/-- In every state of the manager the counters are those of the entries, the freeable entries are
those without a user, and no call raises: neither the eviction loop nor an assertion of `allocate`
fails. -/
theorem encoder_cache_accounts (h : EncoderRun size cacheSize st) :
    (cacheSize : ℤ) - st.manager.numFreeSlots = st.manager.cached.keySum size ∧
    st.manager.numFreeableSlots - st.manager.numFreeSlots = st.manager.freeable.total (fun n ↦ n) ∧
    (∀ mmHash n, st.manager.freeable.get? mmHash = some n → n = size mmHash) ∧
    (∀ mmHash, (st.manager.freeable.get? mmHash).isSome ↔ st.manager.cached.get? mmHash = some ∅) ∧
    ∀ op : EncoderOp, op.Allowed size st → ∃ st', op.run st = .ok st' := by
  have hsound := h.sound
  have hslots := hsound.accounts.slots
  have hfreeable := hsound.accounts.freeableSlots
  refine ⟨?_, ?_, hsound.accounts.sizes, hsound.accounts.unused, fun op hop ↦ ?_⟩
  · rw [← hsound.cacheSize]
    omega
  · omega
  · obtain ⟨st', hst', -⟩ := op.run_sound hsound hop
    exact ⟨st', hst'⟩

end EncoderRun

def imageRequest : Request where
  requestId := "r"
  allTokenIds := [0, 0, 0]
  mmFeatures := [⟨"image", { offset := 0, length := 3, isEmbed := some [true, false, true] }⟩]

def twoImages : Request where
  requestId := "s"
  allTokenIds := [0, 0, 0, 0]
  mmFeatures := [⟨"x", { offset := 0, length := 2 }⟩, ⟨"y", { offset := 2, length := 2 }⟩]

/-- The second of two images is admitted beside the first, and evicts that of the finished request. -/
theorem encoder_cache_accounts_images : ∃ st, EncoderRun (fun _ ↦ 2) 5 st ∧
    st.manager.cached.get? "image" = none ∧ st.manager.numFreeSlots = 1 ∧
    (5 : ℤ) - st.manager.numFreeSlots = st.manager.cached.keySum fun _ ↦ 2 := by
  have hsized : imageRequest.Sized fun _ ↦ 2 := by decide
  have htwo : twoImages.Sized fun _ ↦ 2 := by decide
  have hfreed : EncoderRun (fun _ ↦ 2) 5 _ :=
    .step (.free imageRequest) (.step (.allocate imageRequest 0)
        (.step (.canAllocate imageRequest 0 8 true) .init
          ⟨hsized, by simp, _, rfl, rfl, by simp⟩ rfl)
        ⟨_, rfl, by decide⟩ rfl)
      hsized rfl
  have hrun : EncoderRun (fun _ ↦ 2) 5 _ :=
    .step (.allocate twoImages 1) (.step (.allocate twoImages 0)
        (.step (.canAllocate twoImages 1 8 true) (.step (.canAllocate twoImages 0 8 true) hfreed
            ⟨htwo, by decide, _, rfl, rfl, by decide⟩ rfl)
          ⟨htwo, by decide, _, rfl, rfl, by decide⟩ rfl)
        ⟨_, rfl, by decide⟩ rfl)
      ⟨_, rfl, by decide⟩ rfl
  exact ⟨_, hrun, rfl, rfl, hrun.encoder_cache_accounts.1⟩

end VllmEngine.Core
