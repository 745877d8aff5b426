import VllmEngine.Core.BlockHash
import VllmEngine.Lib.Dict
import Mathlib.Data.List.Induction
import Mathlib.Tactic.Linarith

namespace VllmEngine.Sched

open VllmEngine.Core Lib Function List

/-- What the scan for invalid blocks reads: the tables of the one KV cache group, the blocks that
were not loaded, and the tokens scheduled. -/
structure LoadFailure where
  blockSize : ℕ
  blockSize_pos : 0 < blockSize
  blockIds : ReqId → List ℕ
  invalidBlockIds : List ℕ
  numScheduledTokens : Dict ReqId ℕ

structure RecomputePlan where
  numComputedTokens : ReqId → ℤ
  affectedReqIds : List ReqId := []
  totalAffectedTokens : ℤ := 0
  blocksToEvict : List ℕ := []
  markedInvalidBlockIds : List ℕ := []

structure BlockScan where
  plan : RecomputePlan
  isAffected : Bool := false
  markedInvalidBlock : Bool := false

namespace LoadFailure

variable (f : LoadFailure)

def numComputedBefore (numComputedTokens : ReqId → ℤ) (reqId : ReqId) : ℤ :=
  numComputedTokens reqId - (f.numScheduledTokens.get? reqId).getD 0

/-- The number of blocks that may hold externally computed tokens. -/
def numComputedBlocks (numComputedTokens : ReqId → ℤ) (reqId : ReqId) : ℕ :=
  ((f.numComputedBefore numComputedTokens reqId + f.blockSize - 1) / f.blockSize).toNat

def scanBlock (evictBlocks : Bool) (reqId : ReqId) (reqNumComputedTokens : ℤ) (s : BlockScan)
    (block : ℕ × ℕ) : BlockScan :=
  if f.invalidBlockIds.contains block.1 = false then s
  else if s.plan.markedInvalidBlockIds.contains block.1 then { s with isAffected := true }
  else
    let markedInvalidBlockIds := block.1 :: s.plan.markedInvalidBlockIds
    if s.markedInvalidBlock then
      { s with isAffected := true, plan := { s.plan with markedInvalidBlockIds } }
    else
      { isAffected := true
        markedInvalidBlock := true
        plan := { s.plan with
          markedInvalidBlockIds
          numComputedTokens :=
            update s.plan.numComputedTokens reqId (block.2 * f.blockSize)
          totalAffectedTokens :=
            s.plan.totalAffectedTokens + (reqNumComputedTokens - block.2 * f.blockSize)
          blocksToEvict :=
            if evictBlocks then s.plan.blocksToEvict ++ (f.blockIds reqId).drop block.2
            else s.plan.blocksToEvict } }

def scannedBlocks (numComputedTokens : ReqId → ℤ) (reqId : ReqId) : List (ℕ × ℕ) :=
  ((f.blockIds reqId).take (f.numComputedBlocks numComputedTokens reqId)).zipIdx

def scanRequest (evictBlocks : Bool) (plan : RecomputePlan) (reqId : ReqId) : RecomputePlan :=
  let reqNumComputedTokens := f.numComputedBefore plan.numComputedTokens reqId
  let s := (f.scannedBlocks plan.numComputedTokens reqId).foldl
    (f.scanBlock evictBlocks reqId reqNumComputedTokens) { plan }
  if s.isAffected then
    let plan :=
      if s.markedInvalidBlock then s.plan
      else { s.plan with
        totalAffectedTokens :=
          s.plan.totalAffectedTokens + (s.plan.numComputedTokens reqId - reqNumComputedTokens)
        numComputedTokens := update s.plan.numComputedTokens reqId reqNumComputedTokens }
    { plan with affectedReqIds := reqId :: plan.affectedReqIds }
  else s.plan

def updateRequestsWithInvalidBlocks (requests : List ReqId) (evictBlocks : Bool)
    (numComputedTokens : ReqId → ℤ) : RecomputePlan :=
  requests.foldl (f.scanRequest evictBlocks) { numComputedTokens }

end LoadFailure

theorem foldl_zipIdx {α σ : Type} {l : List α} {step : σ → α × ℕ → σ} {P : ℕ → σ → Prop} {s : σ}
    (hstart : P 0 s) (hstep : ∀ i a s, l[i]? = some a → P i s → P (i + 1) (step s (a, i))) :
    P l.length (l.zipIdx.foldl step s) := by
  induction l using reverseRecOn with
  | nil => exact hstart
  | append_singleton l a ih =>
    rw [zipIdx_append, foldl_append, length_append]
    have hold : ∀ i a' s, l[i]? = some a' → P i s → P (i + 1) (step s (a', i)) := by
      intro i a' s hi
      refine hstep i a' s ?_
      rw [List.getElem?_append_left (List.getElem?_eq_some_iff.mp hi).1, hi]
    have hlast := hstep l.length a _ getElem?_concat_length (ih hold)
    simpa using hlast

namespace LoadFailure

variable {f : LoadFailure} {evictBlocks : Bool} {reqId : ReqId} {plan : RecomputePlan}

def Recomputes (f : LoadFailure) (plan : RecomputePlan) (reqId : ReqId) (block : ℕ) : Prop :=
  ∃ k : ℕ, (f.blockIds reqId)[k]? = some block ∧ plan.numComputedTokens reqId ≤ k * f.blockSize

structure Scanned (f : LoadFailure) (reqId : ReqId) (plan : RecomputePlan) (i : ℕ) (s : BlockScan) :
    Prop where
  others : ∀ r, r ≠ reqId → s.plan.numComputedTokens r = plan.numComputedTokens r
  unmarked : s.markedInvalidBlock = false →
    s.plan.numComputedTokens reqId = plan.numComputedTokens reqId
  marked : s.markedInvalidBlock → s.isAffected ∧
    ∃ k < i, s.plan.numComputedTokens reqId = k * f.blockSize
  kept : plan.markedInvalidBlockIds ⊆ s.plan.markedInvalidBlockIds
  added : ∀ b ∈ s.plan.markedInvalidBlockIds, b ∈ plan.markedInvalidBlockIds ∨
    s.markedInvalidBlock ∧ f.Recomputes s.plan reqId b
  covered : ∀ j < i, ∀ b, (f.blockIds reqId)[j]? = some b → b ∈ f.invalidBlockIds →
    s.isAffected ∧ (b ∈ plan.markedInvalidBlockIds ∨
      s.markedInvalidBlock ∧ s.plan.numComputedTokens reqId ≤ j * f.blockSize)

theorem scanned_start (f : LoadFailure) (reqId : ReqId) (plan : RecomputePlan) :
    f.Scanned reqId plan 0 { plan } :=
  ⟨fun _ _ ↦ rfl, fun _ ↦ rfl, fun h ↦ (by cases h), List.Subset.refl _, fun _ hb ↦ .inl hb,
    fun _ hj ↦ absurd hj (Nat.not_lt_zero _)⟩

variable {s : BlockScan} {plan' : RecomputePlan}

theorem Scanned.skip {i : ℕ} {a : ℕ} (h : f.Scanned reqId plan i s)
    (ha : (f.blockIds reqId)[i]? = some a) {isAffected : Bool} (haff : s.isAffected → isAffected)
    (hskip : a ∈ f.invalidBlockIds → isAffected ∧ a ∈ s.plan.markedInvalidBlockIds) :
    f.Scanned reqId plan (i + 1) { s with isAffected } where
  others := h.others
  unmarked := h.unmarked
  marked hm := by
    obtain ⟨ht, k, hk, heq⟩ := h.marked hm
    exact ⟨haff ht, k, by omega, heq⟩
  kept := h.kept
  added := h.added
  covered j hj b hb hinv := by
    rcases Nat.lt_succ_iff_lt_or_eq.mp hj with hj | rfl
    · obtain ⟨ht, hc⟩ := h.covered j hj b hb hinv
      exact ⟨haff ht, hc⟩
    obtain rfl : a = b := Option.some.inj (ha.symm.trans hb)
    obtain ⟨ht, hmem⟩ := hskip hinv
    refine ⟨ht, ?_⟩
    rcases h.added a hmem with hold | ⟨hm, -⟩
    · exact .inl hold
    -- the request has marked a block before, so that it recomputes this one too
    · obtain ⟨-, k, hk, heq⟩ := h.marked hm
      refine .inr ⟨hm, ?_⟩
      rw [heq]
      exact_mod_cast Nat.mul_le_mul_right _ hk.le

theorem Scanned.mark {i} {s' : BlockScan} {a} (h : f.Scanned reqId plan i s)
    (ha : (f.blockIds reqId)[i]? = some a) (haff : s'.isAffected) (hm' : s'.markedInvalidBlock)
    (hids : s'.plan.markedInvalidBlockIds = a :: s.plan.markedInvalidBlockIds)
    (hothers : ∀ r, r ≠ reqId → s'.plan.numComputedTokens r = s.plan.numComputedTokens r)
    (hcase : s.markedInvalidBlock ∧ s'.plan.numComputedTokens reqId = s.plan.numComputedTokens reqId ∨
      s.markedInvalidBlock = false ∧ s'.plan.numComputedTokens reqId = i * f.blockSize) :
    f.Scanned reqId plan (i + 1) s' := by
  have hk : ∃ k < i + 1, s'.plan.numComputedTokens reqId = k * f.blockSize := by
    rcases hcase with ⟨hm, heq⟩ | ⟨-, heq⟩
    · obtain ⟨-, k, hk, hval⟩ := h.marked hm
      exact ⟨k, by omega, heq.trans hval⟩
    · exact ⟨i, by omega, heq⟩
  have hle : s'.plan.numComputedTokens reqId ≤ i * f.blockSize := by
    obtain ⟨k, hk, heq⟩ := hk
    rw [heq]
    exact_mod_cast Nat.mul_le_mul_right _ (Nat.lt_succ_iff.mp hk)
  refine ⟨fun r hr ↦ (hothers r hr).trans (h.others r hr), fun hm ↦ ?_, fun _ ↦ ⟨haff, hk⟩, ?_, ?_, ?_⟩
  · rw [hm'] at hm
    cases hm
  · rw [hids]
    exact subset_cons_of_subset a h.kept
  · intro b hb
    rw [hids] at hb
    rcases mem_cons.mp hb with rfl | hb
    · exact .inr ⟨hm', i, ha, hle⟩
    rcases h.added b hb with hold | ⟨hm, k, hblock, hval⟩
    · exact .inl hold
    rcases hcase with ⟨-, heq⟩ | ⟨hm0, -⟩
    · exact .inr ⟨hm', k, hblock, heq ▸ hval⟩
    · rw [hm0] at hm
      cases hm
  · intro j hj b hb hinv
    refine ⟨haff, ?_⟩
    rcases Nat.lt_succ_iff_lt_or_eq.mp hj with hj | rfl
    · obtain ⟨-, hold | ⟨hm, hval⟩⟩ := h.covered j hj b hb hinv
      · exact .inl hold
      rcases hcase with ⟨-, heq⟩ | ⟨hm0, -⟩
      · exact .inr ⟨hm', heq ▸ hval⟩
      · rw [hm0] at hm
        cases hm
    · exact .inr ⟨hm', hle⟩

theorem Scanned.step {i} {a} {computed} (h : f.Scanned reqId plan i s)
    (ha : (f.blockIds reqId)[i]? = some a) :
    f.Scanned reqId plan (i + 1) (f.scanBlock evictBlocks reqId computed s (a, i)) := by
  unfold scanBlock
  split
  next hvalid =>
    refine h.skip ha id fun hinv ↦ ?_
    rw [contains_iff_mem.mpr hinv] at hvalid
    cases hvalid
  split
  next hmarked => exact h.skip ha (fun _ ↦ rfl) fun _ ↦ ⟨rfl, contains_iff_mem.mp hmarked⟩
  split
  next hm => exact h.mark ha rfl hm rfl (fun _ _ ↦ rfl) (.inl ⟨hm, rfl⟩)
  next hm =>
    refine h.mark ha rfl rfl rfl (fun r hr ↦ update_of_ne hr _ _) (.inr ⟨?_, ?_⟩)
    · exact Bool.not_eq_true _ ▸ hm
    · exact update_self ..

theorem scanned_all (f : LoadFailure) (evictBlocks : Bool) (reqId : ReqId) (plan : RecomputePlan)
    (computed : ℤ) :
    f.Scanned reqId plan ((f.blockIds reqId).take (f.numComputedBlocks plan.numComputedTokens reqId)).length
      ((f.scannedBlocks plan.numComputedTokens reqId).foldl (f.scanBlock evictBlocks reqId computed)
        { plan }) := by
  refine foldl_zipIdx (scanned_start f reqId plan) fun i a s ha h ↦ h.step ?_
  rw [getElem?_take] at ha
  split at ha
  · exact ha
  · cases ha

theorem mul_lt_of_lt_numComputedBlocks {numComputedTokens k}
    (hk : k < f.numComputedBlocks numComputedTokens reqId) :
    (k : ℤ) * f.blockSize < f.numComputedBefore numComputedTokens reqId := by
  have hpos : (0 : ℤ) < f.blockSize := Int.natCast_pos.mpr f.blockSize_pos
  have hlt : (k : ℤ) + 1 ≤
      (f.numComputedBefore numComputedTokens reqId + f.blockSize - 1) / f.blockSize :=
    Int.lt_toNat.mp hk
  have hmul := (Int.le_ediv_iff_mul_le hpos).mp hlt
  linarith [add_mul (k : ℤ) 1 f.blockSize]

theorem numComputedBefore_le (f : LoadFailure) (numComputedTokens : ReqId → ℤ) (reqId : ReqId) :
    f.numComputedBefore numComputedTokens reqId ≤ numComputedTokens reqId :=
  sub_le_self _ (Int.natCast_nonneg _)

structure RequestScanned (f : LoadFailure) (plan : RecomputePlan) (reqId : ReqId)
    (plan' : RecomputePlan) : Prop where
  others : ∀ r, r ≠ reqId → plan'.numComputedTokens r = plan.numComputedTokens r
  le : plan'.numComputedTokens reqId ≤ plan.numComputedTokens reqId
  kept : plan.markedInvalidBlockIds ⊆ plan'.markedInvalidBlockIds
  added : ∀ b ∈ plan'.markedInvalidBlockIds,
    b ∈ plan.markedInvalidBlockIds ∨ f.Recomputes plan' reqId b
  covered : ∀ j < f.numComputedBlocks plan.numComputedTokens reqId, ∀ b,
    (f.blockIds reqId)[j]? = some b → b ∈ f.invalidBlockIds →
      b ∈ plan.markedInvalidBlockIds ∨ plan'.numComputedTokens reqId ≤ j * f.blockSize

theorem scanRequest_scanned (f : LoadFailure) (evictBlocks) (plan : RecomputePlan)
    (reqId : ReqId) : f.RequestScanned plan reqId (f.scanRequest evictBlocks plan reqId) := by
  have h := scanned_all f evictBlocks reqId plan (f.numComputedBefore plan.numComputedTokens reqId)
  have hbefore := f.numComputedBefore_le plan.numComputedTokens reqId
  have hscanned : ∀ j < f.numComputedBlocks plan.numComputedTokens reqId, ∀ b,
      (f.blockIds reqId)[j]? = some b →
        j < ((f.blockIds reqId).take (f.numComputedBlocks plan.numComputedTokens reqId)).length := by
    intro j hj b hb
    rw [length_take]
    exact lt_min hj (List.getElem?_eq_some_iff.mp hb).1
  unfold scanRequest
  dsimp only
  generalize (f.scannedBlocks plan.numComputedTokens reqId).foldl _ _ = s at h ⊢
  cases hm : s.markedInvalidBlock with
  | true =>
    obtain ⟨haff, k, hk, heq⟩ := h.marked hm
    rw [if_pos haff, if_pos rfl]
    refine ⟨h.others, ?_, h.kept, fun b hb ↦ (h.added b hb).imp_right And.right, ?_⟩
    · have hlt := mul_lt_of_lt_numComputedBlocks (hk.trans_le (length_take_le _ _))
      exact heq.trans_le (hlt.le.trans hbefore)
    · intro j hj b hb hinv
      exact (h.covered j (hscanned j hj b hb) b hb hinv).2.imp_right And.right
  | false =>
    have hadded : ∀ b ∈ s.plan.markedInvalidBlockIds, b ∈ plan.markedInvalidBlockIds := by
      intro b hb
      refine (h.added b hb).resolve_right fun hmark ↦ ?_
      rw [hm] at hmark
      cases hmark.1
    have hcovered : ∀ j < f.numComputedBlocks plan.numComputedTokens reqId, ∀ b,
        (f.blockIds reqId)[j]? = some b → b ∈ f.invalidBlockIds → b ∈ plan.markedInvalidBlockIds := by
      intro j hj b hb hinv
      refine (h.covered j (hscanned j hj b hb) b hb hinv).2.resolve_right fun hmark ↦ ?_
      rw [hm] at hmark
      cases hmark.1
    split
    · rw [if_neg Bool.false_ne_true]
      refine ⟨fun r hr ↦ (update_of_ne hr _ _).trans (h.others r hr), ?_, h.kept,
        fun b hb ↦ .inl (hadded b hb), fun j hj b hb hinv ↦ .inl (hcovered j hj b hb hinv)⟩
      change update s.plan.numComputedTokens reqId _ reqId ≤ _
      rw [update_self]
      exact hbefore
    · exact ⟨h.others, (h.unmarked hm).le, h.kept, fun b hb ↦ .inl (hadded b hb),
        fun j hj b hb hinv ↦ .inl (hcovered j hj b hb hinv)⟩

theorem RequestScanned.all_le (h : f.RequestScanned plan reqId plan') (r) :
    plan'.numComputedTokens r ≤ plan.numComputedTokens r := by
  by_cases hr : r = reqId
  · rw [hr]
    exact h.le
  · exact (h.others r hr).le

theorem Recomputes.mono {block} (h : f.Recomputes plan reqId block)
    (hle : plan'.numComputedTokens reqId ≤ plan.numComputedTokens reqId) :
    f.Recomputes plan' reqId block := by
  obtain ⟨k, hk, hval⟩ := h
  exact ⟨k, hk, hle.trans hval⟩

theorem foldl_scanRequest_le (f : LoadFailure) (evictBlocks) (requests : List ReqId)
    (plan : RecomputePlan) (r : ReqId) :
    (requests.foldl (f.scanRequest evictBlocks) plan).numComputedTokens r ≤ plan.numComputedTokens r := by
  induction requests generalizing plan with
  | nil => exact le_rfl
  | cons reqId requests ih =>
    exact (ih _).trans ((scanRequest_scanned f evictBlocks plan reqId).all_le r)

theorem foldl_scanRequest_of_not_mem (f : LoadFailure) (evictBlocks) {requests : List ReqId}
    (plan : RecomputePlan) {r} (hr : r ∉ requests) :
    (requests.foldl (f.scanRequest evictBlocks) plan).numComputedTokens r = plan.numComputedTokens r := by
  induction requests generalizing plan with
  | nil => rfl
  | cons reqId requests ih =>
    rw [mem_cons, not_or] at hr
    exact (ih _ hr.2).trans ((scanRequest_scanned f evictBlocks plan reqId).others r hr.1)

theorem marked_recomputed (f : LoadFailure) (evictBlocks) (requests : List ReqId)
    (numComputedTokens : ReqId → ℤ) :
    ∀ b ∈ (f.updateRequestsWithInvalidBlocks requests evictBlocks
        numComputedTokens).markedInvalidBlockIds,
      ∃ r ∈ requests, f.Recomputes
        (f.updateRequestsWithInvalidBlocks requests evictBlocks numComputedTokens) r b := by
  unfold updateRequestsWithInvalidBlocks
  induction requests using reverseRecOn with
  | nil =>
    intro b hb
    exact absurd hb not_mem_nil
  | append_singleton requests reqId ih =>
    rw [foldl_append, foldl_cons, foldl_nil]
    generalize requests.foldl _ _ = plan at ih ⊢
    have h := scanRequest_scanned f evictBlocks plan reqId
    intro b hb
    rcases h.added b hb with hold | hnew
    · obtain ⟨r, hr, hrec⟩ := ih b hold
      exact ⟨r, mem_append_left _ hr, hrec.mono (h.all_le r)⟩
    · exact ⟨reqId, mem_append_right _ mem_cons_self, hnew⟩

theorem covered_at_first (f : LoadFailure) (evictBlocks) (numComputedTokens : ReqId → ℤ)
    {pre : List ReqId} (post : List ReqId) {r} (hr : r ∉ pre) {j b}
    (hj : j < f.numComputedBlocks numComputedTokens r) (hb : (f.blockIds r)[j]? = some b)
    (hinv : b ∈ f.invalidBlockIds) :
    (∃ r' ∈ pre, f.Recomputes
        (f.updateRequestsWithInvalidBlocks (pre ++ r :: post) evictBlocks numComputedTokens) r' b) ∨
      (f.updateRequestsWithInvalidBlocks (pre ++ r :: post) evictBlocks
        numComputedTokens).numComputedTokens r ≤ j * f.blockSize := by
  have hmarked := marked_recomputed f evictBlocks pre numComputedTokens
  unfold updateRequestsWithInvalidBlocks at hmarked ⊢
  rw [foldl_append, foldl_cons]
  have hfirst := foldl_scanRequest_of_not_mem f evictBlocks { numComputedTokens } hr
  generalize pre.foldl _ _ = plan at hmarked hfirst ⊢
  have h := scanRequest_scanned f evictBlocks plan r
  have hrest := foldl_scanRequest_le f evictBlocks post (f.scanRequest evictBlocks plan r)
  have hj' : j < f.numComputedBlocks plan.numComputedTokens r := by
    rw [numComputedBlocks, numComputedBefore, hfirst]
    exact hj
  rcases h.covered j hj' b hb hinv with hold | hle
  · obtain ⟨r', hr', hrec⟩ := hmarked b hold
    exact .inl ⟨r', hr', hrec.mono ((hrest r').trans (h.all_le r'))⟩
  · exact .inr ((hrest r).trans hle)

/-- Every invalid block scanned is recomputed by that request or an earlier one, and by an earlier
one if the request counts it as computed. No request gets more computed tokens. -/
theorem invalid_blocks_recomputed (f : LoadFailure) (evictBlocks : Bool) (requests : List ReqId)
    (numComputedTokens : ReqId → ℤ) :
    (∀ (pre post : List ReqId) (r : ReqId) (j b : ℕ), requests = pre ++ r :: post →
      j < f.numComputedBlocks numComputedTokens r → (f.blockIds r)[j]? = some b →
      b ∈ f.invalidBlockIds →
        let plan := f.updateRequestsWithInvalidBlocks requests evictBlocks numComputedTokens
        (j * f.blockSize < plan.numComputedTokens r → ∃ r' ∈ pre, f.Recomputes plan r' b) ∧
          ∃ r' ∈ pre ++ [r], f.Recomputes plan r' b) ∧
    ∀ r, (f.updateRequestsWithInvalidBlocks requests evictBlocks numComputedTokens).numComputedTokens r ≤
      numComputedTokens r := by
  refine ⟨?_, foldl_scanRequest_le f evictBlocks requests { numComputedTokens }⟩
  intro pre post r j b hreq hj hb hinv plan
  -- the first time that the request is scanned
  have hr : r ∈ pre ++ [r] := mem_append_right _ mem_cons_self
  obtain ⟨pre', post', hsplit, hnot⟩ := eq_append_cons_of_mem hr
  have hsub : pre' ⊆ pre := by
    intro r' hr'
    have hmem : r' ∈ pre ++ [r] := by
      rw [hsplit]
      exact mem_append_left _ hr'
    rcases mem_append.mp hmem with hmem | hmem
    · exact hmem
    · exact absurd (mem_singleton.mp hmem ▸ hr') hnot
  have hall : requests = pre' ++ r :: (post' ++ post) := by
    rw [hreq, ← singleton_append, ← append_assoc, hsplit, append_assoc, cons_append]
  have hcov := covered_at_first f evictBlocks numComputedTokens (post' ++ post) hnot hj hb hinv
  rw [← hall] at hcov
  constructor
  · intro hlt
    obtain ⟨r', hr', hrec⟩ := hcov.resolve_right (not_le.mpr hlt)
    exact ⟨r', hsub hr', hrec⟩
  · rcases hcov with ⟨r', hr', hrec⟩ | hle
    · exact ⟨r', mem_append_left _ (hsub hr'), hrec⟩
    · exact ⟨r, hr, j, hb, hle⟩

def sharedFailure : LoadFailure where
  blockSize := 2
  blockSize_pos := by decide
  blockIds r := if r = "a" then [1, 2] else [1, 3, 4]
  invalidBlockIds := [1, 4]
  numScheduledTokens := .empty

theorem invalid_blocks_recomputed_of_shared :
    let plan := sharedFailure.updateRequestsWithInvalidBlocks ["a", "b"] true fun _ ↦ 6
    plan.numComputedTokens "a" = 0 ∧ plan.numComputedTokens "b" = 4 ∧
      ∃ r' ∈ ["a"], sharedFailure.Recomputes plan r' 1 := by
  refine ⟨by decide, by decide, ?_⟩
  have h := (invalid_blocks_recomputed sharedFailure true ["a", "b"] fun _ ↦ 6).1 ["a"] [] "b" 0 1 rfl
    (by decide) (by decide) (by decide)
  exact h.1 (by decide)

end LoadFailure

end VllmEngine.Sched
