import VllmEngine.Core.EncoderCacheManager

namespace VllmEngine.Core.EncoderCacheManager

open Lib Dict Option

/-- The slots are those of the entries of `cached`, and the freeable ones those that no request
uses. An input has `size` embeddings. -/
structure Accounts (size : String → ℕ) (m : EncoderCacheManager) : Prop where
  slots : m.numFreeSlots + m.cached.keySum size = m.cacheSize
  freeableSlots : m.numFreeableSlots = m.numFreeSlots + m.freeable.total fun n ↦ n
  sizes : ∀ h n, m.freeable.get? h = some n → n = size h
  unused : ∀ h, (m.freeable.get? h).isSome ↔ m.cached.get? h = some ∅

structure MakesRoom (m m' : EncoderCacheManager) : Prop where
  cacheSize : m'.cacheSize = m.cacheSize
  numFreeSlots : m.numFreeSlots ≤ m'.numFreeSlots
  absent : ∀ h, m.cached.get? h = none → m'.cached.get? h = none

def InUse (m : EncoderCacheManager) (h : String) : Prop :=
  ∃ refs, m.cached.get? h = some refs ∧ refs ≠ ∅

variable {size : String → ℕ} {m m' m'' : EncoderCacheManager} {request : Request} {inputId : ℕ}
  {f : MultiModalFeatureSpec}

theorem MakesRoom.refl (m) : MakesRoom m m := ⟨rfl, le_rfl, fun _ h ↦ h⟩

theorem MakesRoom.trans (h : MakesRoom m m') (h' : MakesRoom m' m'') : MakesRoom m m'' :=
  ⟨h'.cacheSize.trans h.cacheSize, h.numFreeSlots.trans h'.numFreeSlots,
    fun k hk ↦ h'.absent k (h.absent k hk)⟩

theorem mmFeature_eq_ok :
    request.mmFeature inputId = .ok f ↔ request.mmFeatures[inputId]? = some f := by
  unfold Request.mmFeature
  cases request.mmFeatures[inputId]? with
  | none => simp
  | some g => simp

section

variable (hf : request.mmFeatures[inputId]? = some f)

include hf

theorem checkAndUpdateCache_eq :
    m.checkAndUpdateCache request inputId = m.useCached request.requestId f := by
  rw [checkAndUpdateCache, mmFeature_eq_ok.mpr hf]
  rfl

theorem canAllocate_eq (budget) (n) :
    m.canAllocate request inputId budget n = m.makeRoom f budget n := by
  rw [canAllocate, mmFeature_eq_ok.mpr hf]
  rfl

theorem allocate_eq : m.allocate request inputId = m.takeSlots request.requestId f := by
  rw [allocate, mmFeature_eq_ok.mpr hf]
  rfl

theorem freeEncoderInput_eq :
    m.freeEncoderInput request inputId = .ok (m.release request.requestId f) := by
  rw [freeEncoderInput, mmFeature_eq_ok.mpr hf]
  rfl

end

theorem init_accounts (size : String → ℕ) (cacheSize) : Accounts size (init cacheSize) where
  slots := by simp [init, keySum, empty]
  freeableSlots := by simp [init, total, values, empty]
  sizes h n hn := by simp [init] at hn
  unused h := by simp [init]

namespace Accounts

theorem numFreeSlots_nonneg_of_le (h : Accounts size m) : m.numFreeSlots ≤ m.cacheSize := by
  have := h.slots
  omega

theorem freeable_le (h : Accounts size m) : m.numFreeSlots ≤ m.numFreeableSlots := by
  have := h.freeableSlots
  omega

theorem reset (h : Accounts size m) : Accounts size m.reset ∧ MakesRoom m m.reset :=
  ⟨init_accounts size m.cacheSize, rfl, h.numFreeSlots_nonneg_of_le, fun _ _ ↦ rfl⟩

theorem addReference_used {h refs} (ha : Accounts size m)
    (hrefs : m.cached.get? h = some refs) (hne : refs ≠ ∅) (id) :
    Accounts size (m.addReference h refs id) where
  slots := by
    dsimp only [addReference]
    rw [keySum_set_old size (by rw [hrefs]; rfl)]
    exact ha.slots
  freeableSlots := ha.freeableSlots
  sizes := ha.sizes
  unused k := by
    dsimp only [addReference]
    rw [ha.unused, get?_set]
    split
    next hk =>
      rw [hk, hrefs]
      simp [hne]
    · rfl

theorem addReference_unused {h n} (ha : Accounts size m)
    (hrefs : m.cached.get? h = some ∅) (hn : m.freeable.get? h = some n) (id) :
    Accounts size (addReference { m with
      freeable := m.freeable.erase h
      numFreeableSlots := m.numFreeableSlots - n } h ∅ id) where
  slots := by
    dsimp only [addReference]
    rw [keySum_set_old size (by rw [hrefs]; rfl)]
    exact ha.slots
  freeableSlots := by
    have htotal := m.freeable.total_erase (fun n ↦ n) h
    rw [hn, elim_some] at htotal
    have := ha.freeableSlots
    dsimp only [addReference]
    omega
  sizes k n' hk := by
    dsimp only [addReference] at hk
    rw [get?_erase] at hk
    split at hk
    · cases hk
    · exact ha.sizes k n' hk
  unused k := by
    dsimp only [addReference]
    rw [get?_set, get?_erase]
    split
    · simp
    · exact ha.unused k

end Accounts

variable {h : String}

theorem addReference_makesRoom {refs}
    (hrefs : m.cached.get? h = some refs) (id) : MakesRoom m (m.addReference h refs id) where
  cacheSize := rfl
  numFreeSlots := le_rfl
  absent k hk := by
    have hne : k ≠ h := fun he ↦ by simp [he, hrefs] at hk
    dsimp only [addReference]
    rwa [get?_set_ne _ hne]

theorem InUse.addReference {k} (hk : m.InUse k) (refs : Finset ReqId) (id) :
    (m.addReference h refs id).InUse k := by
  dsimp only [InUse, EncoderCacheManager.addReference]
  rw [get?_set]
  split
  · exact ⟨_, rfl, Finset.insert_ne_empty id refs⟩
  · exact hk

theorem inUse_addReference (m : EncoderCacheManager) (h) (refs : Finset ReqId) (id) :
    (m.addReference h refs id).InUse h :=
  ⟨_, get?_set_self _ _ _, Finset.insert_ne_empty id refs⟩

theorem useCached_spec (ha : Accounts size m) (id) (f) :
    ∃ m', m.useCached id f = .ok (m', (m.cached.get? f.identifier).isSome) ∧
      Accounts size m' ∧ MakesRoom m m' ∧ (∀ h, m.InUse h → m'.InUse h) ∧
      ((m.cached.get? f.identifier).isSome → m'.InUse f.identifier) := by
  unfold useCached
  cases hrefs : m.cached.get? f.identifier with
  | none => exact ⟨m, rfl, ha, .refl m, fun _ h ↦ h, fun h ↦ (by cases h)⟩
  | some refs =>
    dsimp only
    by_cases hempty : refs = ∅
    · subst hempty
      obtain ⟨n, hn⟩ := isSome_iff_exists.mp ((ha.unused _).mpr hrefs)
      rw [if_pos rfl, hn]
      refine ⟨_, rfl, ha.addReference_unused hrefs hn id, ?_, fun h hh ↦ hh.addReference ∅ id,
        fun _ ↦ inUse_addReference _ _ ∅ id⟩
      exact ⟨rfl, le_rfl, (addReference_makesRoom hrefs id).absent⟩
    · rw [if_neg hempty]
      exact ⟨_, rfl, ha.addReference_used hrefs hempty id, addReference_makesRoom hrefs id,
        fun h hh ↦ hh.addReference refs id, fun _ ↦ inUse_addReference _ _ refs id⟩

theorem Accounts.evict {n} (ha : Accounts size m) (hn : m.freeable.get? h = some n) :
    Accounts size (m.evict h n) where
  slots := by
    have hcached := (ha.unused h).mp (by rw [hn]; rfl)
    have hsum := keySum_erase size (by rw [hcached]; rfl)
    have := ha.slots
    have := ha.sizes h n hn
    dsimp only [EncoderCacheManager.evict]
    omega
  freeableSlots := by
    have htotal := m.freeable.total_erase (fun n ↦ n) h
    rw [hn, elim_some] at htotal
    have := ha.freeableSlots
    dsimp only [EncoderCacheManager.evict]
    omega
  sizes k n' hk := by
    dsimp only [EncoderCacheManager.evict] at hk
    rw [get?_erase] at hk
    split at hk
    · cases hk
    · exact ha.sizes k n' hk
  unused k := by
    dsimp only [EncoderCacheManager.evict]
    rw [get?_erase, get?_erase]
    split
    · simp
    · exact ha.unused k

theorem evict_makesRoom (m) (h) (n) : MakesRoom m (m.evict h n) where
  cacheSize := rfl
  numFreeSlots := by
    dsimp only [evict]
    omega
  absent k hk := by
    dsimp only [evict]
    rw [get?_erase, hk, ite_self]

theorem InUse.evict {k} (hk : m.InUse k) (hunused : m.cached.get? h = some ∅) (n) :
    (m.evict h n).InUse k := by
  obtain ⟨refs, hrefs, hne⟩ := hk
  refine ⟨refs, ?_, hne⟩
  dsimp only [EncoderCacheManager.evict]
  rw [get?_erase_ne _ fun he ↦ hne ?_, hrefs]
  rw [he, hunused] at hrefs
  exact (some.inj hrefs).symm

section

variable (ha : Accounts size m)

include ha

theorem evictLoop_spec {numEmbeds entries}
    (hentries : m.freeable.entries = entries) (hle : numEmbeds ≤ m.numFreeableSlots) :
    ∃ m', evictLoop numEmbeds entries m = .ok m' ∧ Accounts size m' ∧ MakesRoom m m' ∧
      (∀ h, m.InUse h → m'.InUse h) ∧ numEmbeds ≤ m'.numFreeSlots := by
  induction entries generalizing m with
  | nil =>
    have htotal : m.freeable.total (fun n ↦ n) = 0 := by
      rw [total, values, hentries]
      rfl
    have := ha.freeableSlots
    exact ⟨m, if_neg (by omega), ha, .refl m, fun _ h ↦ h, by omega⟩
  | cons e rest ih =>
    obtain ⟨h, n⟩ := e
    unfold evictLoop
    by_cases hgt : numEmbeds > m.numFreeSlots
    · have hn : m.freeable.get? h = some n := by
        rw [get?_eq_some, hentries]
        exact List.mem_cons_self ..
      have hcached := (ha.unused h).mp (by rw [hn]; rfl)
      have hevict := ha.evict hn
      obtain ⟨m', hm', ha', hroom, huse, hfree⟩ :=
        ih hevict (entries_erase_head hentries) hle
      rw [if_pos hgt, hcached]
      exact ⟨m', hm', ha', (evict_makesRoom m h n).trans hroom,
        fun k hk ↦ huse k (hk.evict hcached n), hfree⟩
    · rw [if_neg hgt]
      exact ⟨m, rfl, ha, .refl m, fun _ h ↦ h, by omega⟩

/-- The check does not raise. If passed, it leaves slots for the input; it fails only if the budget
or the slots that can be freed are too few. -/
theorem makeRoom_spec (f) (budget) (n) :
    ∃ m' b, m.makeRoom f budget n = .ok (m', b) ∧ Accounts size m' ∧ MakesRoom m m' ∧
      (∀ h, m.InUse h → m'.InUse h) ∧ (b = true → (f.numEmbeds : ℤ) + n ≤ m'.numFreeSlots) ∧
      (b = false → budget < f.numEmbeds ∨ m.numFreeableSlots < (f.numEmbeds : ℤ) + n) := by
  unfold makeRoom
  by_cases hbudget : (f.numEmbeds : ℤ) > budget
  · rw [if_pos hbudget]
    exact ⟨m, false, rfl, ha, .refl m, fun _ h ↦ h, fun h ↦ (by cases h), fun _ ↦ .inl hbudget⟩
  rw [if_neg hbudget]
  by_cases hfree : (f.numEmbeds : ℤ) + n ≤ m.numFreeSlots
  · rw [if_pos hfree]
    exact ⟨m, true, rfl, ha, .refl m, fun _ h ↦ h, fun _ ↦ hfree, fun h ↦ (by cases h)⟩
  rw [if_neg hfree]
  by_cases hgt : (f.numEmbeds : ℤ) + n > m.numFreeableSlots
  · rw [if_pos hgt]
    exact ⟨m, false, rfl, ha, .refl m, fun _ h ↦ h, fun h ↦ (by cases h), fun _ ↦ .inr hgt⟩
  · obtain ⟨m', hm', ha', hroom, huse, hle⟩ := evictLoop_spec ha rfl (not_lt.mp hgt)
    rw [if_neg hgt, hm']
    exact ⟨m', true, rfl, ha', hroom, huse, fun _ ↦ hle, fun h ↦ (by cases h)⟩

theorem takeSlots_spec (id) (hsize : f.numEmbeds = size f.identifier)
    (hnew : m.cached.get? f.identifier = none) (hfree : (f.numEmbeds) ≤ m.numFreeSlots) :
    ∃ m', m.takeSlots id f = .ok m' ∧ Accounts size m' ∧ m'.cacheSize = m.cacheSize ∧
      m'.numFreeSlots = m.numFreeSlots - f.numEmbeds ∧ m'.InUse f.identifier ∧
      ∀ h, h ≠ f.identifier → m'.cached.get? h = m.cached.get? h := by
  have hle := ha.freeable_le
  unfold takeSlots
  rw [if_neg (by omega), if_neg (by omega)]
  refine ⟨_, rfl, ⟨?_, ?_, ha.sizes, fun h ↦ ?_⟩, rfl, rfl, inUse_addReference _ _ _ id,
    fun h hne ↦ get?_set_ne _ hne _⟩
  · dsimp only [addReference]
    rw [keySum_set_new size hnew]
    have := ha.slots
    omega
  · have := ha.freeableSlots
    dsimp only [addReference]
    omega
  · dsimp only [addReference]
    rw [ha.unused, get?_set]
    split
    next hh =>
      rw [hh, hnew]
      simp
    · rfl

theorem release_spec (id) (hsize : f.numEmbeds = size f.identifier) :
    Accounts size (m.release id f) ∧ MakesRoom m (m.release id f) := by
  unfold release
  cases hrefs : m.cached.get? f.identifier with
  | none => exact ⟨ha, .refl m⟩
  | some refs =>
    dsimp only
    by_cases hempty : refs = ∅
    · rw [if_pos hempty]
      exact ⟨ha, .refl m⟩
    rw [if_neg hempty]
    have hsum : ∀ refs', (m.cached.set f.identifier refs').keySum size = m.cached.keySum size :=
      fun refs' ↦ keySum_set_old size (by rw [hrefs]; rfl) refs'
    have habsent : ∀ refs' h, m.cached.get? h = none →
        (m.cached.set f.identifier refs').get? h = none := fun refs' h hh ↦ by
      rw [get?_set_ne _ (fun he ↦ by simp [he, hrefs] at hh), hh]
    have hnone : m.freeable.get? f.identifier = none := by
      rw [← not_isSome_iff_eq_none, ha.unused, hrefs]
      simpa using hempty
    by_cases hlast : refs.erase id = ∅
    · rw [if_pos hlast, hlast]
      refine ⟨⟨?_, ?_, fun h n hn ↦ ?_, fun h ↦ ?_⟩, rfl, le_rfl, habsent ∅⟩
      · rw [hsum]
        exact ha.slots
      · have htotal := m.freeable.total_set (fun n ↦ n) f.identifier f.numEmbeds
        rw [hnone, elim_none] at htotal
        have := ha.freeableSlots
        dsimp only
        omega
      · rw [get?_set] at hn
        split at hn
        next hh => rw [hh, ← hsize, some.inj hn]
        · exact ha.sizes h n hn
      · rw [get?_set, get?_set]
        split
        · simp
        · exact ha.unused h
    · rw [if_neg hlast]
      refine ⟨⟨?_, ha.freeableSlots, ha.sizes, fun h ↦ ?_⟩, rfl, le_rfl, habsent _⟩
      · rw [hsum]
        exact ha.slots
      rw [get?_set]
      split
      next hh =>
        rw [hh, hnone]
        simpa using hlast
      · exact ha.unused h

end

end VllmEngine.Core.EncoderCacheManager
