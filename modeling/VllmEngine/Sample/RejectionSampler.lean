import Mathlib.Tactic.Linarith

namespace VllmEngine.Sample

variable {K V : Type}

section

variable [Field K] [LinearOrder K]

def accepted (draftProb targetProb uniformProb : K) : Bool :=
  0 < draftProb && uniformProb ≤ targetProb / draftProb

/-- The weight of a token in `sample_recovered_tokens_kernel`; `draftProb` is `none` for
`NO_DRAFT_PROBS`. -/
def recoveredWeight [DecidableEq V] (targetProb : V → K) (draftProb : Option (V → K))
    (draftTokenId v : V) : K :=
  match draftProb with
  | none => if v = draftTokenId then 0 else targetProb v
  | some draftProb => max (targetProb v - draftProb v) 0

/-- How the kernel reads its inputs at the position after given accepted drafts: in a monad, so that
an input is an entry of an array or a draw. A uniform variate is only tested. -/
structure Loads (m : Type → Type) (K V : Type) where
  draftTokenId : List V → m V
  testUniform : List V → (K → Bool) → m Bool
  recoveredTokenId : List V → V → m V
  bonusTokenId : List V → m V

/-- `rejection_random_sample_kernel` for a request, from the position after `drafts` on: the tokens
stored. -/
def rejectionRandomSample {m : Type → Type} [Monad m] (loads : Loads m K V)
    (targetProb : List V → V → K) (draftProb : Option (List V → V → K)) :
    ℕ → List V → m (List V)
  | 0, drafts => do
    let bonusTokenId ← loads.bonusTokenId drafts
    pure [bonusTokenId]
  | numDraftTokens + 1, drafts => do
    let draftTokenId ← loads.draftTokenId drafts
    let isAccepted ← loads.testUniform drafts
      (accepted (draftProb.elim 1 fun prob ↦ prob drafts draftTokenId)
        (targetProb drafts draftTokenId))
    if isAccepted then do
      let rest ← rejectionRandomSample loads targetProb draftProb numDraftTokens
        (drafts ++ [draftTokenId])
      pure (draftTokenId :: rest)
    else do
      let recoveredTokenId ← loads.recoveredTokenId drafts draftTokenId
      pure [recoveredTokenId]

end

/-! The batch: arrays in which the requests' positions follow each other -/

/-- The tensors of `rejection_sample`; the rates are there in `SYNTHETIC_MODE`. -/
structure RejectionInputs (K : Type) where
  maxSpecLen : ℕ
  cuNumDraftTokens : List ℕ
  draftTokenIds : ℕ → ℤ
  draftProbs : Option (ℕ → ℤ → K)
  targetProbs : ℕ → ℤ → K
  targetArgmax : ℕ → ℤ
  bonusTokenIds : ℕ → ℤ
  recoveredTokenIds : ℕ → ℤ
  uniformProbs : ℕ → K
  isGreedy : ℕ → Bool
  syntheticConditionalRates : Option (ℕ → K)

namespace RejectionInputs

section

variable (x : RejectionInputs K) (reqIdx : ℕ)

def startIdx : ℕ := if reqIdx = 0 then 0 else x.cuNumDraftTokens.getD (reqIdx - 1) 0

def numDraftTokens : ℕ := x.cuNumDraftTokens.getD reqIdx 0 - x.startIdx reqIdx

variable (accepted : ℕ → Bool) (otherTokenIds : ℕ → ℤ)

/-- The loop of both kernels over the positions, on `rejected` and the request's row. -/
def storeLoop (row : List ℤ) : ℕ → Bool × List ℤ
  | 0 => (false, row)
  | pos + 1 =>
    let (rejected, row) := storeLoop row pos
    if rejected then (rejected, row)
    else
      let tokenId := if accepted pos then x.draftTokenIds (x.startIdx reqIdx + pos)
        else otherTokenIds (x.startIdx reqIdx + pos)
      (!accepted pos, row.set pos tokenId)

def storeRow (row : List ℤ) : List ℤ :=
  let n := x.numDraftTokens reqIdx
  let (rejected, row) := x.storeLoop reqIdx accepted otherTokenIds row n
  if rejected then row else row.set n (x.bonusTokenIds reqIdx)

/-- If `n` drafts are left at position `pos`: those accepted before the first rejected one, and one
token more. -/
def tokensFrom (pos n : ℕ) : List ℤ :=
  let kept := (List.range' pos n).takeWhile accepted
  (kept.map fun i ↦ x.draftTokenIds (x.startIdx reqIdx + i)) ++
    [if kept.length = n then x.bonusTokenIds reqIdx
      else otherTokenIds (x.startIdx reqIdx + (pos + kept.length))]

end

variable [Field K] [LinearOrder K] (x : RejectionInputs K) (reqIdx : ℕ)

def acceptedGreedy (pos : ℕ) : Bool :=
  let i := x.startIdx reqIdx + pos
  x.syntheticConditionalRates.elim (x.draftTokenIds i = x.targetArgmax i) (x.uniformProbs i < · pos)

def isAccepted (pos : ℕ) : Bool :=
  let i := x.startIdx reqIdx + pos
  accepted (x.draftProbs.elim 1 fun probs ↦ probs i (x.draftTokenIds i))
    (x.targetProbs i (x.draftTokenIds i)) (x.uniformProbs i)

def acceptedRandom (pos : ℕ) : Bool :=
  x.syntheticConditionalRates.elim (x.isAccepted reqIdx pos)
    (x.uniformProbs (x.startIdx reqIdx + pos) < · pos)

def rejectionGreedySampleKernel (row : List ℤ) : List ℤ :=
  if x.isGreedy reqIdx then x.storeRow reqIdx (x.acceptedGreedy reqIdx) x.targetArgmax row else row

def rejectionRandomSampleKernel (row : List ℤ) : List ℤ :=
  if x.isGreedy reqIdx then row
  else x.storeRow reqIdx (x.acceptedRandom reqIdx) x.recoveredTokenIds row

/-- `PLACEHOLDER_TOKEN_ID` behind the tokens. -/
def padded (tokens : List ℤ) : List ℤ :=
  tokens ++ List.replicate (x.maxSpecLen + 1 - tokens.length) (-1)

/-- The rows of the output. A kernel that is not started, because no request is for it, would change
nothing. -/
def rejectionSample (batchSize : ℕ) : List (List ℤ) :=
  (List.range batchSize).map fun r ↦
    x.rejectionRandomSampleKernel r (x.rejectionGreedySampleKernel r (x.padded []))

def sampledTokens : List ℤ :=
  let tokens := fun accepted otherTokenIds ↦
    x.tokensFrom reqIdx accepted otherTokenIds 0 (x.numDraftTokens reqIdx)
  if x.isGreedy reqIdx then tokens (x.acceptedGreedy reqIdx) x.targetArgmax
  else tokens (x.acceptedRandom reqIdx) x.recoveredTokenIds

end RejectionInputs

namespace RejectionInputs

variable (x : RejectionInputs K) (reqIdx : ℕ) (accepted : ℕ → Bool) (otherTokenIds : ℕ → ℤ)

theorem padded_set (tokens) (h : tokens.length ≤ x.maxSpecLen) (tokenId) :
    (x.padded tokens).set tokens.length tokenId = x.padded (tokens ++ [tokenId]) := by
  obtain ⟨n, hn⟩ := Nat.exists_eq_add_of_le h
  have hleft : x.maxSpecLen + 1 - tokens.length = n + 1 := by omega
  have hright : x.maxSpecLen + 1 - (tokens ++ [tokenId]).length = n := by
    rw [List.length_append, List.length_singleton]
    omega
  rw [padded, padded, hleft, hright, List.set_append_right _ _ le_rfl, Nat.sub_self]
  simp [List.replicate_succ]

theorem length_kept_le (n) : ((List.range n).takeWhile accepted).length ≤ n := by
  simpa using ( List.takeWhile_prefix accepted (l := List.range n)).length_le

theorem storeLoop_eq {n} (hn : n ≤ x.maxSpecLen) :
    x.storeLoop reqIdx accepted otherTokenIds (x.padded []) n =
    let kept := (List.range n).takeWhile accepted
    (decide (kept.length < n), x.padded
      ((kept.map fun pos ↦ x.draftTokenIds (x.startIdx reqIdx + pos)) ++
        if kept.length < n then [otherTokenIds (x.startIdx reqIdx + kept.length)] else [])) := by
  induction n with
  | zero => rfl
  | succ n ih =>
    unfold storeLoop
    rw [ih (Nat.le_of_succ_le hn), List.range_succ, List.takeWhile_append, List.length_range]
    dsimp only
    by_cases hall : ((List.range n).takeWhile accepted).length = n
    · have hkept : (List.range n).takeWhile accepted = List.range n :=
        ( List.takeWhile_prefix accepted).eq_of_length (by simpa using hall)
      rw [if_pos hall, hkept, List.length_range]
      have hset := x.padded_set ((List.range n).map fun pos ↦
        x.draftTokenIds (x.startIdx reqIdx + pos)) (by simpa using Nat.le_of_succ_le hn)
      rw [List.length_map, List.length_range] at hset
      cases ha : accepted n <;> simp [ha, hset]
    · have hlt := lt_of_le_of_ne (length_kept_le accepted n) hall
      simp [hall, hlt, hlt.trans (Nat.lt_succ_self n)]

theorem storeRow_eq (hn : x.numDraftTokens reqIdx ≤ x.maxSpecLen) :
    x.storeRow reqIdx accepted otherTokenIds (x.padded []) =
      x.padded (x.tokensFrom reqIdx accepted otherTokenIds 0 (x.numDraftTokens reqIdx)) := by
  rw [storeRow, storeLoop_eq x reqIdx accepted otherTokenIds hn, tokensFrom, ← List.range_eq_range']
  dsimp only
  rcases (length_kept_le accepted (x.numDraftTokens reqIdx)).lt_or_eq with hlt | heq
  · simp [hlt, hlt.ne]
  · have hset := x.padded_set (((List.range (x.numDraftTokens reqIdx)).takeWhile
      accepted).map fun pos ↦ x.draftTokenIds (x.startIdx reqIdx + pos)) (by simpa [heq] using hn)
    rw [List.length_map, heq] at hset
    simp [heq, hset]

variable [Field K] [LinearOrder K]

/-- Each row of the output holds the drafts accepted before the first rejected one and one token
more, and placeholders behind them. -/
theorem rejectionSample_eq {batchSize : ℕ}
    (hn : ∀ r < batchSize, x.numDraftTokens r ≤ x.maxSpecLen) :
    x.rejectionSample batchSize =
      (List.range batchSize).map fun r ↦ x.padded (x.sampledTokens r) := by
  refine List.map_congr_left fun r hr ↦ ?_
  have hrow := fun accepted otherTokenIds ↦
    x.storeRow_eq r accepted otherTokenIds (hn r (List.mem_range.mp hr))
  rw [rejectionRandomSampleKernel, rejectionGreedySampleKernel, sampledTokens]
  split
  · exact hrow _ _
  · exact hrow _ _

/-- A greedy and a random request. -/
def mixedBatch : RejectionInputs ℚ where
  maxSpecLen := 2
  cuNumDraftTokens := [2, 3]
  draftTokenIds i := i
  draftProbs := none
  targetProbs _ v := if v = 2 then 1 else 0
  targetArgmax _ := 0
  bonusTokenIds _ := 9
  recoveredTokenIds _ := 7
  uniformProbs _ := 1 / 2
  isGreedy r := r = 0
  syntheticConditionalRates := none

theorem rejectionSample_of_mixed_batch :
    mixedBatch.rejectionSample 2 = [[0, 0, -1], [2, 9, -1]] :=
  (rejectionSample_eq mixedBatch (by decide)).trans (by decide +kernel)

/-! The kernel of random requests against the sampling of a request in a monad -/

def loads : Loads Id K ℤ where
  draftTokenId drafts := x.draftTokenIds (x.startIdx reqIdx + drafts.length)
  testUniform drafts test := test (x.uniformProbs (x.startIdx reqIdx + drafts.length))
  recoveredTokenId drafts _ := x.recoveredTokenIds (x.startIdx reqIdx + drafts.length)
  bonusTokenId _ := x.bonusTokenIds reqIdx

theorem rejectionRandomSample_eq (hrates : x.syntheticConditionalRates = none) (n)
    (drafts) : rejectionRandomSample (x.loads reqIdx)
      (fun drafts ↦ x.targetProbs (x.startIdx reqIdx + drafts.length))
      (x.draftProbs.map fun probs drafts ↦ probs (x.startIdx reqIdx + drafts.length)) n drafts =
    x.tokensFrom reqIdx (x.acceptedRandom reqIdx) x.recoveredTokenIds drafts.length n := by
  have hacc : x.acceptedRandom reqIdx = x.isAccepted reqIdx := by
    funext pos
    rw [acceptedRandom, hrates, Option.elim_none]
  rw [hacc]
  induction n generalizing drafts with
  | zero => rfl
  | succ n ih =>
    have hrest := ih (drafts ++ [x.draftTokenIds (x.startIdx reqIdx + drafts.length)])
    simp only [rejectionRandomSample, Option.elim_map]
    change (if x.isAccepted reqIdx drafts.length then _ :: _ else _) = _
    rw [tokensFrom, List.range'_succ, List.takeWhile_cons]
    cases x.isAccepted reqIdx drafts.length with
    | false => rfl
    | true =>
      refine (congrArg (_ :: ·) hrest).trans ?_
      simp [loads, tokensFrom, Nat.add_assoc, Nat.add_comm 1]

end RejectionInputs

end VllmEngine.Sample
