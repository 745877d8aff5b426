import VllmEngine.Worker.ThinkSection

namespace VllmEngine.Worker

open Lib ThinkingBudgetStateHolder List

structure Marked (h : ThinkingBudgetStateHolder) (s : ℕ) (E : List ℕ) : Prop where
  start : h.thinkStartTokenIds = [s]
  finish : h.thinkEndTokenIds = E
  nonempty : E ≠ []
  distinct : E.head? ≠ some s

section

variable {h : ThinkingBudgetStateHolder} {e : ThinkState}

section

variable (hbudget : e.thinkingTokenBudget ≠ -1) (hE : h.thinkEndTokenIds ≠ [])

include hbudget hE

theorem updateThinkState_waiting
    (hstart : (h.noteMarkers e).startThinking = -1) : h.updateThinkState e = h.noteMarkers e := by
  rw [updateThinkState, if_neg hbudget, if_neg hE]
  exact if_pos hstart

theorem updateThinkState_begun (hstart : (h.noteMarkers e).startThinking ≠ -1) :
    h.updateThinkState e = h.advance (h.noteMarkers e) := by
  rw [updateThinkState, if_neg hbudget, if_neg hE]
  exact if_neg hstart

end

theorem advance_countdown (hin : e.inEnd = false) (hspec : e.specTokenIds = [])
    (hstart : -1 < e.startThinking) (hcount : 1 ≤ h.currentStepCountdown e) :
    h.advance e = { e with
      checkCountDown := h.currentStepCountdown e, prevOutputLength := e.outputTokIds.length } := by
  have hcond : ¬ e.inEnd ∧ h.currentStepCountdown e - e.specTokenIds.length - 1 ≥ 0 ∧
      e.startThinking > -1 := by
    rw [hspec, hin]
    exact ⟨Bool.false_ne_true, by simp only [length_nil]; omega, hstart⟩
  exact if_pos hcond

theorem advance_counted (hin : e.inEnd = false) (hspec : e.specTokenIds = [])
    (hcount : h.currentStepCountdown e ≤ 0) (hprev : e.prevOutputLength < e.outputTokIds.length) :
    h.advance e = h.thinkStep { e with prevOutputLength := e.outputTokIds.length } := by
  have hcond : ¬ (¬ e.inEnd ∧ h.currentStepCountdown e - e.specTokenIds.length - 1 ≥ 0 ∧
      e.startThinking > -1) := by
    rw [hspec]
    rintro ⟨-, hpos, -⟩
    omega
  have hne : e.outputTokIds ≠ [] := length_pos_iff.mp (by omega)
  rw [advance]
  rw [if_neg hcond, if_neg hne, if_neg (by omega), processOutput]
  rw [if_neg (by rw [hin]; simp), if_neg (by rw [hin]; simp)]

theorem advance_forcing (hin : e.inEnd = true) (hspec : e.specTokenIds = [])
    (hprev : e.outputTokIds.length ≤ e.prevOutputLength) :
    h.advance e = { e with forceIndex := [0] } := by
  rw [advance]
  rw [if_neg (by rw [hin]; simp)]
  by_cases hO : e.outputTokIds = []
  · rw [if_pos hO, if_pos hin]
  · rw [if_neg hO, if_pos hprev, if_pos hin, if_neg (by rw [hspec]; simp)]

theorem advance_forced (hin : e.inEnd = true) (hprev : e.prevOutputLength < e.outputTokIds.length)
    (hspec : e.specTokenIds = [])
    (hnew : h.thinkEndTokenIds.headD 0 ∈ e.outputTokIds.drop e.prevOutputLength ∨ e.endCount ≠ 0)
    (hlt : e.endCount + 1 < h.thinkEndTokenIds.length) :
    h.advance e = { e with
      prevOutputLength := e.outputTokIds.length, endCount := e.endCount + 1, forceIndex := [0] } := by
  have hne : e.outputTokIds ≠ [] := length_pos_iff.mp (by omega)
  have hstop : ¬ (e.inEnd = true ∧ e.endCount = 0 ∧
      h.thinkEndTokenIds.headD 0 ∉ e.outputTokIds.drop e.prevOutputLength) := by
    rintro ⟨-, hzero, hnot⟩
    exact hnew.elim hnot (absurd hzero)
  have hdrafts : ¬ e.specTokenIds ≠ [] := not_not.mpr hspec
  have hrest : ¬ h.thinkEndTokenIds.length ≤ e.endCount + 1 := by omega
  rw [advance, if_neg (by rw [hin]; simp), if_neg hne, if_neg (by omega), processOutput]
  rw [if_neg hstop, if_pos hin, endStep]
  rw [if_neg hdrafts, if_neg hrest]

theorem countThinking_output (hcont : e.continueThinking = false) (hstart : 0 ≤ e.startThinking)
    (hend : e.endThinking < e.startThinking) :
    h.countThinking e = { e with
      inThink := true
      thinkCount := e.outputTokIds.length - (e.startThinking + h.thinkStartTokenIds.length) } := by
  have hpos : (if e.continueThinking = true ∧ e.endThinking > -1 then
      e.endThinking + (e.promptTokIds.getD []).length else e.endThinking) = e.endThinking :=
    if_neg (by rw [hcont]; simp)
  rw [countThinking]
  rw [hpos]
  by_cases hfound : e.endThinking ≥ 0
  · rw [if_pos ⟨hstart, hfound⟩, if_pos hend]
  · rw [if_neg fun hboth ↦ hfound hboth.2, if_pos ⟨hstart, by rw [hcont]; simp⟩]

section

variable (hspec : (h.countThinking e).specTokenIds = [])
  (hthink : (h.countThinking e).inThink = true)

include hspec hthink

theorem thinkStep_force
    (hcount : (h.countThinking e).thinkCount = (h.countThinking e).thinkingTokenBudget) :
    h.thinkStep e = { h.countThinking e with
      inThink := false, inEnd := true, endCount := 0
      checkCountDown := (h.countThinking e).thinkingTokenBudget, forceIndex := [0] } := by
  rw [thinkStep]
  dsimp only
  rw [if_pos ⟨hthink, by rw [hspec, hcount]; simp⟩, hspec, hcount]
  simp [forcePosition]

theorem thinkStep_go
    (hcount : (h.countThinking e).thinkCount < (h.countThinking e).thinkingTokenBudget) :
    h.thinkStep e = { h.countThinking e with checkCountDown :=
      (h.countThinking e).thinkingTokenBudget - (h.countThinking e).thinkCount } := by
  rw [thinkStep]
  rw [if_pos hthink, max_eq_right (by omega), if_neg]
  rintro ⟨-, hgt⟩
  rw [hspec] at hgt
  simp only [length_nil] at hgt
  omega

end

end

structure Plain (P : List ℕ) (budget : ℤ) (e : ThinkState) : Prop where
  prompt : e.promptTokIds.getD [] = P
  budget : e.thinkingTokenBudget = budget
  spec : e.specTokenIds = []
  bonus : e.bonusTokenForced = false
  force : ∀ i ∈ e.forceIndex, i = 0

section

variable {h : ThinkingBudgetStateHolder} {e : ThinkState} {P : List ℕ} {budget : ℤ}

theorem forcePosition_zero (remaining) : ∀ i ∈ forcePosition remaining 0, i = 0 := by
  intro i hi
  unfold forcePosition at hi
  split at hi
  next hpos => exact absurd hpos.2 (by simp; omega)
  next =>
    split at hi
    · exact mem_singleton.mp hi
    · simpa using hi

section

variable (hplain : Plain P budget e)

include hplain

theorem Plain.noteMarkers : Plain P budget (h.noteMarkers e) := by
  unfold ThinkingBudgetStateHolder.noteMarkers
  dsimp only
  split
  · split <;> exact ⟨hplain.prompt, hplain.budget, hplain.spec, hplain.bonus, hplain.force⟩
  · split <;> exact ⟨hplain.prompt, hplain.budget, hplain.spec, hplain.bonus, hplain.force⟩

theorem Plain.countThinking : Plain P budget (h.countThinking e) := by
  have hset (inThink : Bool) (thinkCount : ℤ) : Plain P budget { e with inThink, thinkCount } :=
    ⟨hplain.prompt, hplain.budget, hplain.spec, hplain.bonus, hplain.force⟩
  simp only [ThinkingBudgetStateHolder.countThinking]
  generalize (if e.continueThinking ∧ e.endThinking > -1 then
    e.endThinking + (e.promptTokIds.getD []).length else e.endThinking) = absoluteEndPos
  split
  · split
    · exact hset true _
    · exact hset false 0
  split
  · exact hset true _
  split
  · exact hset false 0
  · split
    · exact hset e.inThink _
    · exact hplain

theorem Plain.thinkStep : Plain P budget (h.thinkStep e) := by
  obtain ⟨hprompt, hbudget, hspec, hbonus, hforce⟩ := hplain.countThinking
  unfold ThinkingBudgetStateHolder.thinkStep
  dsimp only
  split
  · refine ⟨hprompt, hbudget, hspec, hbonus, ?_⟩
    rw [hspec]
    exact forcePosition_zero _
  · exact ⟨hprompt, hbudget, hspec, hbonus, hforce⟩

theorem Plain.endStep : Plain P budget (h.endStep e) := by
  have hspec : ¬ e.specTokenIds ≠ [] := not_not.mpr hplain.spec
  have hforce : ∀ i ∈ [(0 : ℤ)], i = 0 := fun i hi ↦ mem_singleton.mp hi
  unfold ThinkingBudgetStateHolder.endStep
  dsimp only
  rw [if_neg hspec]
  split <;> exact ⟨hplain.prompt, hplain.budget, hplain.spec, hplain.bonus, hforce⟩

theorem Plain.processOutput : Plain P budget (h.processOutput e) := by
  have hbranch : ∀ s, Plain P budget s →
      Plain P budget (if s.inEnd then h.endStep s else h.thinkStep s) := by
    intro s hs
    split
    · exact hs.endStep
    · exact hs.thinkStep
  apply hbranch
  split
  · exact ⟨hplain.prompt, hplain.budget, hplain.spec, rfl, hplain.force⟩
  · exact ⟨hplain.prompt, hplain.budget, hplain.spec, hplain.bonus, hplain.force⟩

theorem Plain.advance : Plain P budget (h.advance e) := by
  have hforce : ∀ i ∈ [(0 : ℤ)], i = 0 := fun i hi ↦ mem_singleton.mp hi
  rw [ThinkingBudgetStateHolder.advance]
  split
  · exact ⟨hplain.prompt, hplain.budget, hplain.spec, hplain.bonus, hplain.force⟩
  split
  · split
    · exact ⟨hplain.prompt, hplain.budget, hplain.spec, hplain.bonus, hforce⟩
    · exact hplain
  split
  · split
    · refine ⟨hplain.prompt, hplain.budget, hplain.spec, hplain.bonus, ?_⟩
      rw [if_neg (by rw [hplain.spec]; simp)]
      exact hforce
    · exact hplain
  · exact hplain.processOutput

end

theorem Plain.updateThinkState (hE : h.thinkEndTokenIds ≠ []) (hplain : Plain P budget e) :
    Plain P budget (h.updateThinkState e) := by
  rw [ThinkingBudgetStateHolder.updateThinkState]
  split
  · exact hplain
  dsimp only
  split
  · exact hplain.noteMarkers
  · exact hplain.noteMarkers.advance

end

structure Waiting (b : ℕ) (O : List ℕ) (e : ThinkState) : Prop where
  start : e.startThinking = -1
  prev : e.prevOutputLength = 0
  countdown : e.checkCountDown = b
  notEnding : e.inEnd = false
  fromOutput : e.continueThinking = false
  before : e.endThinking < O.length

inductive Begun (s : ℕ) (E P : List ℕ) (b : ℕ) : List ℕ → List ℕ → ThinkState → Prop
  | prompt {O Y0} {e : ThinkState} (hthink : Thinking s E P Y0) (hO : s ∉ O)
      (fromPrompt : e.continueThinking = true) (inThink : e.inThink = true)
      (start : e.startThinking = P.length - Y0.length - 1) (noEnd : e.endThinking = -1)
      (countdown : e.checkCountDown = b - (Y0.length + e.prevOutputLength)) :
      Begun s E P b O (Y0 ++ O) e
  | unseen {B Y} {e : ThinkState} (hP : ∀ Y0, ¬ Thinking s E P Y0) (hB : s ∉ B) (hY : s ∉ Y)
      (fromOutput : e.continueThinking = false) (before : e.endThinking < B.length)
      (start : e.startThinking = -1) (prev : e.prevOutputLength = 0) (countdown : e.checkCountDown = b) :
      Begun s E P b (B ++ s :: Y) Y e
  | output {B Y e} (hP : ∀ Y0, ¬ Thinking s E P Y0) (hB : s ∉ B) (hY : s ∉ Y)
      (fromOutput : e.continueThinking = false) (before : e.endThinking < B.length)
      (start : e.startThinking = B.length) (prev : B.length < e.prevOutputLength)
      (countdown : e.checkCountDown ≤ b - (e.prevOutputLength - B.length - 1 : ℤ)) :
      Begun s E P b (B ++ s :: Y) Y e

structure Counts (s : ℕ) (E P : List ℕ) (b : ℕ) (O Y : List ℕ) (e : ThinkState) : Prop where
  begun : Begun s E P b O Y e
  notEnding : e.inEnd = false
  room : Y.length ≤ b
  prev : e.prevOutputLength ≤ O.length
  left : e.prevOutputLength = O.length → 1 ≤ e.checkCountDown

/-- The end of the section is being forced: after `X` come the first tokens of the marker. -/
structure Ends (s : ℕ) (E P : List ℕ) (b : ℕ) (O Y X : List ℕ) (e : ThinkState) : Prop where
  ending : e.inEnd = true
  begun : e.startThinking ≠ -1
  within : e.endCount < E.length
  full : b ≤ X.length
  bound : X.length ≤ b ∨ Thinking s E P X
  prev : e.prevOutputLength ≤ O.length ∧ O.length ≤ e.prevOutputLength + 1
  forced : e.endCount ≤ e.prevOutputLength
  tokens : Y = X ++ E.take (e.endCount + (O.length - e.prevOutputLength))

section

variable {h : ThinkingBudgetStateHolder} {s : ℕ} {E P O Y X : List ℕ} {b : ℕ} {e : ThinkState}

structure Noted (h : ThinkingBudgetStateHolder) (s : ℕ) (E P : List ℕ) (b : ℕ) (O Y : List ℕ)
    (e : ThinkState) : Prop where
  start : 0 ≤ e.startThinking
  countdown : h.currentStepCountdown e ≤ b - Y.length
  exact : e.continueThinking = true → h.currentStepCountdown e = b - Y.length
  fresh : h.currentStepCountdown e ≤ 0 → e.prevOutputLength < O.length
  counted : h.countThinking { e with prevOutputLength := O.length } =
    { e with prevOutputLength := O.length, inThink := true, thinkCount := Y.length }
  next : ∀ e' : ThinkState, e'.continueThinking = e.continueThinking →
    (e.inThink = true → e'.inThink = true) → e'.startThinking = e.startThinking →
    e'.endThinking = e.endThinking → e'.prevOutputLength = O.length →
    e'.checkCountDown ≤ b - Y.length →
    (e.continueThinking = true → e'.checkCountDown = b - Y.length) → Begun s E P b O Y e'

theorem noteMarkers_eq (h : ThinkingBudgetStateHolder) (e) : h.noteMarkers e = { e with
      startThinking := if e.startThinking = -1 then
        findLastSequenceIndex e.outputTokIds h.thinkStartTokenIds else e.startThinking
      endThinking := if e.endThinking = -1 then
        findLastSequenceIndex e.outputTokIds h.thinkEndTokenIds else e.endThinking } := by
  unfold noteMarkers
  by_cases hs : e.startThinking = -1
  · rw [if_pos hs, if_pos hs]
    by_cases he : e.endThinking = -1
    · rw [if_pos he, if_pos he]
    · rw [if_neg he, if_neg he]
  · rw [if_neg hs, if_neg hs]
    by_cases he : e.endThinking = -1
    · rw [if_pos he, if_pos he]
    · rw [if_neg he, if_neg he]

theorem Thinking.length_lt (hthink : Thinking s E P Y) : Y.length < P.length := by
  obtain ⟨A, rfl, -, -⟩ := hthink
  simp
  omega

section

variable (hm : Marked h s E) (hplain : Plain P b e)

include hm hplain

theorem noted_prompt {Y0} (hout : e.outputTokIds = O) (hthink : Thinking s E P Y0) (hO : s ∉ O)
    (fromPrompt : e.continueThinking = true) (inThink : e.inThink = true)
    (start : e.startThinking = P.length - Y0.length - 1) (noEnd : e.endThinking = -1)
    (countdown : e.checkCountDown = b - (Y0.length + e.prevOutputLength))
    (hprev : e.prevOutputLength ≤ O.length)
    (hleft : e.prevOutputLength = O.length → 1 ≤ e.checkCountDown)
    (hE : ¬ E <:+: Y0 ++ O) : Noted h s E P b O (Y0 ++ O) (h.noteMarkers e) := by
  have hlt := hthink.length_lt
  have hend : findLastSequenceIndex O E = -1 := findLast_of_not_infix hm.nonempty
    fun hin ↦ hE (hin.trans (suffix_append Y0 O).isInfix)
  have hfound : (if e.endThinking = -1 then findLastSequenceIndex e.outputTokIds h.thinkEndTokenIds
      else e.endThinking) = e.endThinking := by
    rw [if_pos noEnd, hout, hm.finish, hend, noEnd]
  have heq : h.noteMarkers e = e := by
    rw [noteMarkers_eq, if_neg (by omega), hfound]
  have hcurrent : h.currentStepCountdown e = b - (Y0 ++ O).length := by
    rw [currentStepCountdown, if_pos fromPrompt, hout, length_append]
    push_cast
    omega
  rw [heq]
  refine ⟨by omega, hcurrent.le, fun _ ↦ hcurrent, fun hle ↦ ?_, ?_, fun e' hcont hthink' hstart hend'
    hprev' _ hexact ↦ ?_⟩
  · rw [hcurrent, length_append] at hle
    push_cast at hle
    rcases lt_or_eq_of_le hprev with hlt | heq
    · exact hlt
    · omega
  · simp only [countThinking, noEnd, fromPrompt, inThink, hplain.prompt, hout, hm.start]
    rw [if_neg (by simp), if_neg (by simp), if_neg (by simp), if_pos trivial, start]
    congr 1
    rw [length_append, length_singleton]
    push_cast
    omega
  · refine .prompt hthink hO (hcont.trans fromPrompt) (hthink' inThink) (hstart.trans start)
      (hend'.trans noEnd) ?_
    rw [hexact fromPrompt, hprev', length_append]
    push_cast
    omega

omit hplain in
theorem noted_output {B}
    (hout : e.outputTokIds = B ++ s :: Y) (hP : ∀ Y0, ¬ Thinking s E P Y0) (hB : s ∉ B) (hY : s ∉ Y)
    (fromOutput : e.continueThinking = false) (before : e.endThinking < B.length)
    (hstart : e.startThinking = -1 ∧ e.prevOutputLength = 0 ∧ e.checkCountDown = b ∨
      e.startThinking = B.length ∧ B.length < e.prevOutputLength ∧
        e.checkCountDown ≤ b - (e.prevOutputLength - B.length - 1))
    (hprev : e.prevOutputLength ≤ (B ++ s :: Y).length)
    (hleft : e.prevOutputLength = (B ++ s :: Y).length → 1 ≤ e.checkCountDown)
    (hE : ¬ E <:+: Y) : Noted h s E P b (B ++ s :: Y) Y (h.noteMarkers e) := by
  obtain ⟨st, hst⟩ : ∃ st, (if e.startThinking = -1 then
      findLastSequenceIndex e.outputTokIds h.thinkStartTokenIds else e.startThinking) = st := ⟨_, rfl⟩
  obtain ⟨en, hen⟩ : ∃ en, (if e.endThinking = -1 then
      findLastSequenceIndex e.outputTokIds h.thinkEndTokenIds else e.endThinking) = en := ⟨_, rfl⟩
  have hst' : st = B.length := by
    rw [← hst, hout, hm.start, findLast_start B hY]
    rcases hstart with ⟨hneg, -, -⟩ | ⟨heq, -, -⟩
    · rw [if_pos hneg]
    · rw [if_neg (by omega), heq]
  have hen' : en < B.length := by
    rw [← hen, hout, hm.finish]
    split
    · exact findLast_end_lt B hm.nonempty hm.distinct hE
    · exact before
  have hlen : (B ++ s :: Y).length = B.length + 1 + Y.length := by
    rw [length_append, length_cons]
    omega
  rw [noteMarkers_eq, hst, hen]
  have hcurrent : h.currentStepCountdown { e with startThinking := st, endThinking := en } =
      e.checkCountDown - ((B ++ s :: Y).length - (if e.prevOutputLength = 0 then 1 else
        e.prevOutputLength : ℕ)) := by
    rw [currentStepCountdown]
    rw [if_neg (by rw [fromOutput]; simp), hout, hm.start]
    by_cases hzero : e.prevOutputLength = 0
    · rw [if_pos hzero, if_pos hzero]
      rfl
    · rw [if_neg hzero, if_neg hzero]
  have hcountdown : h.currentStepCountdown { e with startThinking := st, endThinking := en } ≤
      b - Y.length := by
    rw [hcurrent, hlen]
    rcases hstart with ⟨-, hzero, hcd⟩ | ⟨-, hpos, hcd⟩
    · rw [if_pos hzero]
      push_cast
      omega
    · rw [if_neg (by omega)]
      push_cast
      omega
  refine ⟨?_, hcountdown, fun hcont ↦ ?_, fun hle ↦ ?_, ?_, fun e' hcont _ hstart' hend' hprev' hcd _ ↦ ?_⟩
  · dsimp only
    omega
  · exact absurd (fromOutput.symm.trans hcont) Bool.false_ne_true
  · rcases lt_or_eq_of_le hprev with hlt | heq
    · exact hlt
    · rw [hcurrent, heq, if_neg (by omega)] at hle
      omega
  · have hcount : ((B ++ s :: Y).length : ℤ) - (st + 1) = Y.length := by
      rw [hlen, hst']
      push_cast
      omega
    refine (countThinking_output (by exact fromOutput) (by dsimp only; omega)
      (by dsimp only; omega)).trans ?_
    rw [hm.start, hout, length_singleton, Nat.cast_one, hcount]
  · refine .output hP hB hY (hcont.trans fromOutput) (hend'.symm ▸ hen') (hstart'.trans hst') ?_ ?_
    · omega
    · rw [hprev', hlen]
      push_cast
      omega

theorem Counts.noted (hout : e.outputTokIds = O)
    (hcounts : Counts s E P b O Y e) (hE : ¬ E <:+: Y) : Noted h s E P b O Y (h.noteMarkers e) := by
  obtain ⟨hbegun, -, -, hprev, hleft⟩ := hcounts
  cases hbegun with
  | prompt hthink hO fromPrompt inThink start noEnd countdown =>
    exact noted_prompt hm hplain hout hthink hO fromPrompt inThink start noEnd countdown hprev hleft hE
  | unseen hP hB hY fromOutput before start prev countdown =>
    exact noted_output hm hout hP hB hY fromOutput before (.inl ⟨start, prev, countdown⟩) hprev
      hleft hE
  | output hP hB hY fromOutput before start prev countdown =>
    exact noted_output hm hout hP hB hY fromOutput before (.inr ⟨start, prev, countdown⟩) hprev
      hleft hE

end

/-- What holds after an update: the record counts on, or the next token of the marker is forced. -/
def Settled (s : ℕ) (E P : List ℕ) (b : ℕ) (O Y : List ℕ) (e : ThinkState) : Prop :=
  (Counts s E P b O Y e ∧ e.prevOutputLength = O.length ∧ Y.length < b) ∨
    ∃ X, Ends s E P b O Y X e ∧ e.prevOutputLength = O.length ∧ e.forceIndex = [0]

theorem Counts.update (hm : Marked h s E) (hplain : Plain P b e) (hout : e.outputTokIds = O)
    (hcounts : Counts s E P b O Y e) (hE : ¬ E <:+: Y) : Settled s E P b O Y
    (h.updateThinkState e) := by
  have hn := hcounts.noted hm hplain hout hE
  have hplain2 := hplain.noteMarkers (h := h)
  have hout2 : (h.noteMarkers e).outputTokIds = O := by rw [noteMarkers_eq, ← hout]
  have hin : (h.noteMarkers e).inEnd = false := by
    rw [noteMarkers_eq]
    exact hcounts.notEnding
  have hstart := hn.start
  rw [updateThinkState_begun (by rw [hplain.budget]; omega) (hm.finish ▸ hm.nonempty) (by omega)]
  generalize h.noteMarkers e = e2 at hn hplain2 hout2 hin hstart ⊢
  rcases lt_or_ge 0 (h.currentStepCountdown e2) with hpos | hzero
  · rw [advance_countdown hin hplain2.spec (by omega) hpos]
    have hle := hn.countdown
    refine .inl ⟨⟨hn.next _ rfl id rfl rfl ?_ hle hn.exact, hin, hcounts.room, ?_, fun _ ↦ hpos⟩, ?_, ?_⟩
    · rw [hout2]
    · rw [hout2]
    · rw [hout2]
    · omega
  · have hlen : e2.outputTokIds.length = O.length := by rw [hout2]
    rw [advance_counted hin hplain2.spec hzero (by rw [hout2]; exact hn.fresh hzero), hlen]
    have hcounted := hn.counted
    have hroom := hcounts.room
    rcases lt_or_eq_of_le hroom with hlt | heq
    · rw [thinkStep_go (by rw [hcounted]; exact hplain2.spec) (by rw [hcounted])
        (by rw [hcounted]; dsimp only; rw [hplain2.budget]; omega), hcounted]
      rw [hplain2.budget]
      refine .inl ⟨⟨hn.next _ rfl (fun _ ↦ rfl) rfl rfl rfl le_rfl fun _ ↦ rfl, hin, hroom, le_rfl,
        fun _ ↦ ?_⟩, rfl, hlt⟩
      dsimp only
      omega
    · rw [thinkStep_force (by rw [hcounted]; exact hplain2.spec) (by rw [hcounted])
        (by rw [hcounted]; dsimp only; rw [hplain2.budget]; omega), hcounted]
      refine .inr ⟨Y, ⟨rfl, ?_, length_pos_iff.mpr hm.nonempty, heq.ge, .inl hroom,
        ⟨le_rfl, Nat.le_succ _⟩, Nat.zero_le _, ?_⟩, rfl, rfl⟩
      · dsimp only
        omega
      · simp

theorem InSection.last {t Z} (hsec : InSection s E P O (Z ++ [t])) (hO : O ≠ []) :
    ∃ O', O = O' ++ [t] := by
  generalize hY : Z ++ [t] = Y at hsec
  cases hsec with
  | @prompt O Y0 _ _ =>
    rcases eq_nil_or_concat O with rfl | ⟨O', t', rfl⟩
    · exact absurd rfl hO
    rw [concat_eq_append, ← append_assoc] at hY
    obtain ⟨-, heq⟩ := append_inj' hY rfl
    obtain rfl := (cons.inj heq).1
    exact ⟨O', concat_eq_append⟩
  | @output B Y _ _ _ =>
    subst hY
    exact ⟨B ++ s :: Z, by simp⟩

theorem Ends.update (hm : Marked h s E) (hplain : Plain P b e) (hout : e.outputTokIds = O)
    (hends : Ends s E P b O Y X e) (hsec : InSection s E P O Y) (hE : ¬ E <:+: Y) :
    Settled s E P b O Y (h.updateThinkState e) := by
  have hplain2 := hplain.noteMarkers (h := h)
  have hnote := noteMarkers_eq h e
  rw [if_neg hends.begun] at hnote
  have hbegun : (h.noteMarkers e).startThinking ≠ -1 := by
    rw [hnote]
    exact hends.begun
  rw [updateThinkState_begun (by rw [hplain.budget]; omega) (hm.finish ▸ hm.nonempty) hbegun]
  obtain ⟨hending, -, hwithin, hfull, hbound, ⟨hprev, hprev'⟩, hforced, htokens⟩ := hends
  have hout2 : (h.noteMarkers e).outputTokIds = O := by rw [hnote, ← hout]
  have hending2 : (h.noteMarkers e).inEnd = true := by
    rw [hnote]
    exact hending
  have hcount2 : (h.noteMarkers e).endCount = e.endCount := by rw [hnote]
  have hprev2 : (h.noteMarkers e).prevOutputLength = e.prevOutputLength := by rw [hnote]
  generalize h.noteMarkers e = e2 at *
  rcases lt_or_eq_of_le hprev with hlt | heq
  · have hlen : O.length - e.prevOutputLength = 1 := by omega
    rw [hlen] at htokens
    have hmore : e.endCount + 1 < E.length := by
      by_contra hge
      refine hE ⟨X, [], ?_⟩
      rw [htokens, take_of_length_le (by omega), append_nil]
    have hnew : h.thinkEndTokenIds.headD 0 ∈ e2.outputTokIds.drop e2.prevOutputLength ∨
        e2.endCount ≠ 0 := by
      by_cases hzero : e.endCount = 0
      · left
        obtain ⟨t, E', rfl⟩ := exists_cons_of_ne_nil hm.nonempty
        rw [hzero, zero_add, take_succ_cons, take_zero] at htokens
        rw [htokens] at hsec
        obtain ⟨O', rfl⟩ := hsec.last (length_pos_iff.mp (by omega))
        rw [length_append, length_singleton] at hlen
        rw [hout2, hprev2, hm.finish, show e.prevOutputLength = O'.length by omega, drop_left]
        exact mem_singleton_self t
      · exact .inr (hcount2 ▸ hzero)
    rw [advance_forced hending2 (by rw [hout2, hprev2]; exact hlt) hplain2.spec hnew
      (by rw [hm.finish, hcount2]; exact hmore), hout2, hcount2]
    refine .inr ⟨X, ⟨hending2, hbegun, hmore, hfull, hbound, ⟨le_rfl, Nat.le_succ _⟩, ?_, ?_⟩, rfl, rfl⟩
    · dsimp only
      omega
    · rw [Nat.sub_self, Nat.add_zero, htokens]
  · rw [advance_forcing hending2 hplain2.spec (by rw [hout2, hprev2]; exact heq.ge)]
    refine .inr ⟨X, ⟨hending2, hbegun, ?_, hfull, hbound, ?_, ?_, ?_⟩, hprev2.trans heq, rfl⟩
    · exact hcount2 ▸ hwithin
    · rw [hprev2]
      exact ⟨hprev, hprev'⟩
    · rw [hprev2, hcount2]
      exact hforced
    · rw [hprev2, hcount2]
      exact htokens

theorem Waiting.update (hm : Marked h s E) (hplain : Plain P b e) (hout : e.outputTokIds = O)
    (hwait : Waiting b O e) (hO : s ∉ O) : Waiting b O (h.updateThinkState e) := by
  have hnote := noteMarkers_eq h e
  rw [if_pos hwait.start, hout, hm.start, hm.finish, findLast_of_not_mem hO] at hnote
  rw [updateThinkState_waiting (by rw [hplain.budget]; omega) (hm.finish ▸ hm.nonempty) (by rw [hnote]),
    hnote]
  refine ⟨rfl, hwait.prev, hwait.countdown, hwait.notEnding, hwait.fromOutput, ?_⟩
  dsimp only
  split
  · rcases findLast_cases (l := O) hm.nonempty with ⟨heq, -⟩ | ⟨i, heq, hi, -⟩
    · omega
    · have := hi.add_length_le hm.nonempty
      have := length_pos_iff.mpr hm.nonempty
      omega
  · exact hwait.before

end

section

variable {s t : ℕ} {E P O Y : List ℕ} {b : ℕ} {e : ThinkState}

theorem InSection.not_mem (hsec : InSection s E P O Y) : s ∉ Y := by
  cases hsec with
  | prompt hthink hO =>
    obtain ⟨A, -, hY0, -⟩ := hthink
    simp [hY0, hO]
  | output _ _ hY => exact hY

theorem Begun.append (hbegun : Begun s E P b O Y e) (ht : t ≠ s) :
    Begun s E P b (O ++ [t]) (Y ++ [t]) e := by
  have hmem {l : List ℕ} (hl : s ∉ l) : s ∉ l ++ [t] := by simp [hl, ht.symm]
  cases hbegun with
  | prompt hthink hO fromPrompt inThink start noEnd countdown =>
    rw [append_assoc]
    exact .prompt hthink (hmem hO) fromPrompt inThink start noEnd countdown
  | unseen hP hB hY fromOutput before start prev countdown =>
    rw [append_assoc, cons_append]
    exact .unseen hP hB (hmem hY) fromOutput before start prev countdown
  | output hP hB hY fromOutput before start prev countdown =>
    rw [append_assoc, cons_append]
    exact .output hP hB (hmem hY) fromOutput before start prev countdown

theorem Settled.append (hset : Settled s E P b O Y e) (hsec : InSection s E P (O ++ [t]) (Y ++ [t]))
    (hforced : e.inEnd = true → E[e.endCount]? = some t) :
    Counts s E P b (O ++ [t]) (Y ++ [t]) e ∨ ∃ X, Ends s E P b (O ++ [t]) (Y ++ [t]) X e := by
  have ht : t ≠ s := fun heq ↦ hsec.not_mem (by simp [heq])
  rcases hset with ⟨hcounts, hprev, hlt⟩ | ⟨X, hends, hprev, -⟩
  · refine .inl ⟨hcounts.begun.append ht, hcounts.notEnding, ?_, ?_, fun heq ↦ ?_⟩
    · rw [length_append, length_singleton]
      omega
    · rw [length_append, length_singleton]
      omega
    · rw [length_append, length_singleton] at heq
      omega
  · refine .inr ⟨X, hends.ending, hends.begun, hends.within, hends.full, hends.bound, ?_, hends.forced, ?_⟩
    · rw [length_append, length_singleton]
      omega
    have htokens := hends.tokens
    rw [hprev, Nat.sub_self, Nat.add_zero] at htokens
    rw [htokens, length_append, length_singleton, hprev, Nat.add_sub_cancel_left,
      take_add_one, hforced hends.ending, Option.toList_some, append_assoc]

theorem Waiting.append (hwait : Waiting b O e) : Waiting b (O ++ [t]) e := by
  refine ⟨hwait.start, hwait.prev, hwait.countdown, hwait.notEnding, hwait.fromOutput, ?_⟩
  have := hwait.before
  rw [length_append, length_singleton]
  omega

theorem Waiting.begin (hwait : Waiting b O e) (hP : ∀ Y0, ¬ Thinking s E P Y0) (hO : s ∉ O) :
    Counts s E P b (O ++ [s]) [] e := by
  refine ⟨.unseen hP hO not_mem_nil hwait.fromOutput hwait.before hwait.start hwait.prev
    hwait.countdown, hwait.notEnding, Nat.zero_le b, ?_, fun heq ↦ ?_⟩
  · rw [hwait.prev]
    exact Nat.zero_le _
  · rw [hwait.prev, length_append, length_singleton] at heq
    omega

end

end VllmEngine.Worker
