import VllmEngine.Lib.Search

namespace VllmEngine.Output

open Lib

abbrev Text := List Char

/-- The sampling parameters the detokenizer reads. Their check refuses an empty stop string. -/
structure StopParams where
  stop : List Text := []
  minTokens : ℕ := 0
  includeStopStrInOutput : Bool := false
  stop_ne_nil : ∀ s ∈ stop, s ≠ [] := by simp

/-- A new token with the text `decode_next` returns for it. -/
structure DecodedToken where
  id : ℕ
  text : Text

/-- `text.find(sub, start)`, where a negative `start` counts from the end. -/
def pyFind (text sub : Text) (start : ℤ) : Option ℕ :=
  findFrom sub text (if start < 0 then (text.length + start).toNat else start.toNat)

def checkStopStrings (outputText : Text) (newCharCount : ℕ) (includeInOutput : Bool) :
    List Text → Option (Text × Option ℕ)
  | [] => none
  | stopStr :: stop =>
    if newCharCount = 0 then none else
    match pyFind outputText stopStr (1 - newCharCount - stopStr.length) with
    | none => checkStopStrings outputText newCharCount includeInOutput stop
    | some stopIndex =>
      if includeInOutput then
        if outputText.length ≤ stopIndex + stopStr.length then some (stopStr, none)
        else some (stopStr, some (stopIndex + stopStr.length))
      else some (stopStr, some stopIndex)

def truncate (text : Text) : Option ℕ → Text
  | none => text
  | some k => text.take k

/-- `BaseIncrementalDetokenizer`. The slow subclass keeps the prompt's tokens before the output's;
the fast one has `promptLen = 0`. -/
structure BaseIncrementalDetokenizer where
  params : StopParams
  promptLen : ℕ := 0
  tokenIds : List ℕ
  outputText : Text := []
  lastOutputTextOffset : ℕ := 0
  promptLen_le : promptLen ≤ tokenIds.length

namespace BaseIncrementalDetokenizer

def new (params : StopParams) (promptTokenIds : List ℕ) : BaseIncrementalDetokenizer where
  params := params
  promptLen := promptTokenIds.length
  tokenIds := promptTokenIds
  promptLen_le := le_rfl

def outputTokenIds (d : BaseIncrementalDetokenizer) : List ℕ := d.tokenIds.drop d.promptLen

def numOutputTokens (d : BaseIncrementalDetokenizer) : ℕ := d.tokenIds.length - d.promptLen

def stopBufferLength (d : BaseIncrementalDetokenizer) : ℕ :=
  if d.params.stop ≠ [] ∧ d.params.includeStopStrInOutput = false then
    (d.params.stop.map List.length).foldr max 0 - 1
  else 0

def appendTokenId (d : BaseIncrementalDetokenizer) (tokenId : ℕ) : BaseIncrementalDetokenizer :=
  { d with
    tokenIds := d.tokenIds ++ [tokenId]
    promptLen_le := by simpa using Nat.le_succ_of_le d.promptLen_le }

/-- The loop over the new tokens, with `stop_check_offset`. -/
def decode (d : BaseIncrementalDetokenizer) : List DecodedToken → ℕ → BaseIncrementalDetokenizer × ℕ
  | [], stopCheckOffset => (d, stopCheckOffset)
  | token :: tokens, stopCheckOffset =>
    let d := { d.appendTokenId token.id with outputText := d.outputText ++ token.text }
    decode d tokens (if d.params.minTokens ≠ 0 ∧ d.numOutputTokens ≤ d.params.minTokens then
        d.outputText.length
      else stopCheckOffset)

section

variable (d : BaseIncrementalDetokenizer)

def evaluateStop (stopCheckOffset : ℕ) : Option Text × BaseIncrementalDetokenizer :=
  if d.params.stop ≠ [] ∧ d.params.minTokens < d.numOutputTokens then
    match checkStopStrings d.outputText (d.outputText.length - stopCheckOffset)
      d.params.includeStopStrInOutput d.params.stop with
    | some (stopString, truncateTo) =>
      (some stopString, { d with outputText := truncate d.outputText truncateTo })
    | none => (none, d)
  else (none, d)

def update (newTokens : List DecodedToken)
    (stopTerminated : Bool) : Option Text × BaseIncrementalDetokenizer :=
  match newTokens.getLast? with
  | none => (none, d)
  | some last =>
    if stopTerminated && !d.params.includeStopStrInOutput then
      let (d, stopCheckOffset) := d.decode newTokens.dropLast d.outputText.length
      (d.appendTokenId last.id).evaluateStop stopCheckOffset
    else
      let (d, stopCheckOffset) := d.decode newTokens d.outputText.length
      d.evaluateStop stopCheckOffset

def getNextOutputText (finished delta : Bool) : Text × BaseIncrementalDetokenizer :=
  let bufferLength := if finished then 0 else d.stopBufferLength
  let length := d.outputText.length - bufferLength
  if !delta then (d.outputText.take length, d)
  else if d.lastOutputTextOffset < length then
    ((d.outputText.take length).drop d.lastOutputTextOffset,
      { d with lastOutputTextOffset := length })
  else ([], d)

end

end BaseIncrementalDetokenizer

section

variable {text : Text} {stop : List Text} {off : ℕ} {includeInOutput : Bool}

theorem pyFind_window {sub} (hsub : sub ≠ []) (hoff : off < text.length) :
    pyFind text sub (1 - (text.length - off : ℕ) - sub.length) =
      findFrom sub text (off + 1 - sub.length) := by
  have hpos := List.length_pos_iff.mpr hsub
  rw [pyFind, if_pos (by omega)]
  congr 1
  omega

/-- Where the text is cut when an occurrence of `sub` ending at `e` stops it. -/
def cutAt (text sub : Text) (includeInOutput : Bool) (e : ℕ) : Text :=
  text.take (if includeInOutput then e else e - sub.length)

theorem checkStopStrings_cons (stop : List Text) (includeInOutput) {stopStr}
    (hne : stopStr ≠ []) (hoff : off < text.length) :
    checkStopStrings text (text.length - off) includeInOutput (stopStr :: stop) =
      match findFrom stopStr text (off + 1 - stopStr.length) with
      | none => checkStopStrings text (text.length - off) includeInOutput stop
      | some stopIndex =>
        if includeInOutput then
          if text.length ≤ stopIndex + stopStr.length then some (stopStr, none)
          else some (stopStr, some (stopIndex + stopStr.length))
        else some (stopStr, some stopIndex) := by
  rw [checkStopStrings, if_neg (by omega), pyFind_window hne hoff]

theorem checkStopStrings_nothing_new : checkStopStrings text 0 includeInOutput stop = none := by
  cases stop <;> rfl

theorem of_checkStopStrings {s cut} (hne : ∀ s ∈ stop, s ≠ [])
    (h : checkStopStrings text (text.length - off) includeInOutput stop = some (s, cut)) :
    s ∈ stop ∧ ∃ e, IsLeast {e | off < e ∧ EndsAt s text e} e ∧
      truncate text cut = cutAt text s includeInOutput e := by
  by_cases hoff : off < text.length
  · induction stop with
    | nil => simp [checkStopStrings] at h
    | cons stopStr stop ih =>
      have hstr := hne stopStr (by simp)
      rw [checkStopStrings_cons _ _ hstr hoff] at h
      split at h
      next =>
        have := ih (fun s hs ↦ hne s (by simp [hs])) h
        exact ⟨by simp [this.1], this.2⟩
      next i hfind =>
        have hleast := findFrom_window.mp hfind
        split_ifs at h with hinc hend
        all_goals
          cases h
          refine ⟨by simp, _, hleast, ?_⟩
          simp only [truncate, cutAt, hinc, if_true, if_false, Bool.false_eq_true,
            Nat.add_sub_cancel]
        rw [List.take_of_length_le hend]
  · rw [Nat.sub_eq_zero_of_le (by omega), checkStopStrings_nothing_new] at h
    simp at h

theorem checkStopStrings_eq_none_iff (hne : ∀ s ∈ stop, s ≠ []) :
    checkStopStrings text (text.length - off) includeInOutput stop = none ↔
      ∀ s ∈ stop, ∀ e, off < e → ¬ EndsAt s text e := by
  by_cases hoff : off < text.length
  · induction stop with
    | nil => simp [checkStopStrings]
    | cons stopStr stop ih =>
      have hstr := hne stopStr (by simp)
      have hrest := ih fun s hs ↦ hne s (by simp [hs])
      rw [checkStopStrings_cons _ _ hstr hoff, List.forall_mem_cons, ← findFrom_window_eq_none, ← hrest]
      cases findFrom stopStr text (off + 1 - stopStr.length) with
      | none => simp
      | some i =>
        simp only [reduceCtorEq, false_and, iff_false]
        split_ifs <;> simp
  · rw [Nat.sub_eq_zero_of_le (by omega), checkStopStrings_nothing_new]
    simp only [true_iff]
    intro s _ e he hocc
    have := hocc.1
    omega

theorem checkStopStrings_head (includeInOutput) {h} (hne : ∀ s ∈ h :: stop, s ≠ []) {e}
    (he : IsLeast {e | off < e ∧ EndsAt h text e} e) :
    ∃ cut, checkStopStrings text (text.length - off) includeInOutput (h :: stop) = some (h, cut) ∧
      truncate text cut = cutAt text h includeInOutput e := by
  have hstr := hne h (by simp)
  have hoff : off < text.length := he.1.1.trans_le he.1.2.1
  have hle := he.1.2.length_le
  have hfind := findFrom_window.mpr (by rwa [Nat.sub_add_cancel hle])
  have hc := checkStopStrings_cons stop includeInOutput hstr hoff
  rw [hfind] at hc
  have hsome : ∃ cut, checkStopStrings text (text.length - off) includeInOutput (h :: stop) =
      some (h, cut) := by
    rw [hc]
    dsimp only
    split_ifs <;> exact ⟨_, rfl⟩
  obtain ⟨cut, hcut⟩ := hsome
  obtain ⟨-, e', he', htext⟩ := of_checkStopStrings hne hcut
  rw [he'.unique he] at htext
  exact ⟨cut, hcut, htext⟩

end

end VllmEngine.Output
