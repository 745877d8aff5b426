import Mathlib.Data.List.TakeWhile
import Mathlib.Tactic.IntervalCases
import VllmEngine.Parser.Qwen3Reasoning

namespace VllmEngine.Parser

open Lib Output List

theorem getD_orNone (text) : (orNone text).getD [] = text := by
  unfold orNone
  split_ifs with h
  · exact h.symm
  · rfl

namespace Qwen3ReasoningParser

variable {p : Qwen3ReasoningParser} {tokens delta : List DecodedToken}

def splitText (text : Text) : Option ℕ → Option ℕ → Text × Text
  | some i, _ => (text.take i, text.drop (i + endToken.length))
  | none, some i => (text.take i, text.drop i)
  | none, none => (text, [])

theorem splitText_end (left right) (toolCall) :
    splitText (left ++ (endToken ++ right)) (some left.length) toolCall = (left, right) := by
  rw [splitText, take_left, ← append_assoc, ← length_append, drop_left]

theorem splitText_toolCall (left right) :
    splitText (left ++ right) none (some left.length) = (left, right) := by
  rw [splitText, take_left, drop_left]

theorem whole_eq (hthink : p.thinkingEnabled = true) :
    p.whole tokens = splitText (stripStart (textOf tokens))
      (find endToken (stripStart (textOf tokens))) (find toolCallTag (stripStart (textOf tokens))) := by
  unfold whole extractReasoning
  dsimp only
  cases find endToken (stripStart (textOf tokens)) with
  | some i => simp [splitText, getD_orNone]
  | none =>
    simp only [hthink, Bool.not_true, Bool.false_eq_true, if_false]
    cases find toolCallTag (stripStart (textOf tokens)) with
    | some i => simp [splitText, getD_orNone]
    | none => simp [splitText]

def marks (p : Qwen3ReasoningParser) (t : DecodedToken) : Bool :=
  t.id == p.endTokenId || p.toolCallTokenId == some t.id

theorem hasToolCall_map : p.hasToolCall (tokens.map (·.id)) = true ↔
    ∃ t ∈ tokens, p.toolCallTokenId = some t.id := by
  unfold hasToolCall
  cases p.toolCallTokenId with
  | none => simp
  | some id => simp [eq_comm]

theorem contains_map (id) : (tokens.map (·.id)).contains id = true ↔ ∃ t ∈ tokens, t.id = id := by
  simp

theorem isReasoningEndStreaming_map :
    p.isReasoningEndStreaming (tokens.map (·.id)) = tokens.any p.marks := by
  rw [Bool.eq_iff_iff, isReasoningEndStreaming, Bool.or_eq_true, hasToolCall_map, contains_map,
    any_eq_true]
  simp only [marks, Bool.or_eq_true, beq_iff_eq]
  constructor
  · rintro (⟨t, ht, h⟩ | ⟨t, ht, h⟩)
    · exact ⟨t, ht, .inl h⟩
    · exact ⟨t, ht, .inr h⟩
  · rintro ⟨t, ht, h | h⟩
    · exact .inl ⟨t, ht, h⟩
    · exact .inr ⟨t, ht, h⟩

def visible (p : Qwen3ReasoningParser) (delta : List DecodedToken) : Text :=
  textOf (delta.filter (·.id ≠ p.startTokenId))

def StartsOnce (p : Qwen3ReasoningParser) (tokens : List DecodedToken) : Prop :=
  ∀ t ∈ tokens.tail, t.id ≠ p.startTokenId

instance : Decidable (p.StartsOnce tokens) :=
  inferInstanceAs (Decidable (∀ t ∈ tokens.tail, _))

theorem strip_eq_visible (hdec : p.Decodes delta) (hstart : p.StartsOnce delta) :
    (if (delta.map (·.id)).contains p.startTokenId then stripStart (textOf delta)
      else textOf delta) = p.visible delta := by
  cases delta with
  | nil => rfl
  | cons t rest =>
    have hrest : rest.filter (·.id ≠ p.startTokenId) = rest :=
      filter_eq_self.mpr fun t' ht' ↦ by simpa using hstart t' ht'
    by_cases ht : t.id = p.startTokenId
    · have htext := (hdec t (by simp)).1 ht
      have hfind : find startToken (startToken ++ textOf rest) = some 0 := find_append_self
      simp only [visible, map_cons, ht, contains_cons, BEq.rfl, Bool.true_or, if_true,
        textOf_cons, htext, stripStart, hfind, Nat.zero_add, drop_left]
      rw [filter_cons_of_neg (by simp [ht]), hrest]
    · have hnot : ¬ ((t :: rest).map (·.id)).contains p.startTokenId = true := by
        rw [contains_map]
        rintro ⟨t', ht', heq⟩
        obtain rfl | ht' := mem_cons.mp ht'
        · exact ht heq
        · exact hstart t' ht' heq
      rw [if_neg hnot, visible, filter_cons_of_pos (by simp [ht]), hrest]

def splitDelta (p : Qwen3ReasoningParser) (delta : List DecodedToken) : Text × Text :=
  let text := p.visible delta
  if delta.any (·.id == p.endTokenId) then
    match find endToken text with
    | some i => (text.take i, text.drop (i + endToken.length))
    | none => ([], [])
  else if delta.any p.marks then
    match find toolCallTag text with
    | some i => (text.take i, text.drop i)
    | none => (text, [])
  else (text, [])

theorem message_eq {previous : List DecodedToken} (hprev : previous.any p.marks = false)
    (hdec : p.Decodes delta) (hstart : p.StartsOnce delta) :
    let message := p.extractReasoningStreaming (previous.map (·.id)) (textOf delta)
      (delta.map (·.id))
    ((message.bind (·.reasoning)).getD [], (message.bind (·.content)).getD []) =
      p.splitDelta delta := by
  have hprev' : (previous.map (·.id)).contains p.endTokenId = false ∧
      p.hasToolCall (previous.map (·.id)) = false := by
    rw [← Bool.or_eq_false_iff, ← hprev, ← isReasoningEndStreaming_map]
    rfl
  have hmarks : ((delta.map (·.id)).contains p.endTokenId ||
      p.hasToolCall (delta.map (·.id))) = delta.any p.marks := isReasoningEndStreaming_map
  have hany : delta.any (·.id == p.endTokenId) = (delta.map (·.id)).contains p.endTokenId := by
    rw [Bool.eq_iff_iff, contains_map, any_eq_true]
    simp
  simp only [extractReasoningStreaming, strip_eq_visible hdec hstart, splitDelta, hany, ← hmarks,
    hprev'.1, hprev'.2, Bool.false_eq_true, if_false]
  cases (delta.map (·.id)).contains p.endTokenId with
  | true =>
    cases find endToken (p.visible delta) with
    | none => rfl
    | some i =>
      simp only [if_true]
      split_ifs with hnil
      · simp [hnil.1, hnil.2]
      · simp [getD_orNone]
  | false =>
    cases p.hasToolCall (delta.map (·.id)) with
    | true =>
      cases find toolCallTag (p.visible delta) with
      | none =>
        by_cases hnil : p.visible delta = []
        · simp [hnil]
        · simp [hnil]
      | some i => simp [getD_orNone]
    | false =>
      by_cases hnil : p.visible delta = []
      · simp [hnil]
      · simp [hnil]

variable {state : StreamState} {before deltas : List (List DecodedToken)} {mark : DecodedToken}

theorem streamFrom_ended (h : state.reasoningEnded = true)
    (deltas : List (List DecodedToken)) : p.streamFrom state deltas = ([], textOf deltas.flatten) := by
  induction deltas generalizing state with
  | nil => rfl
  | cons delta deltas ih =>
    simp only [streamFrom, parseDelta, h, if_true]
    rw [ih rfl]
    simp

theorem streamFrom_cons (previous : List DecodedToken) (hended : state.reasoningEnded = false)
    (hprevious : state.previousTokenIds = previous.map (·.id))
    (hprev : previous.any p.marks = false) (hdec : p.Decodes delta) (hstart : p.StartsOnce delta)
    (deltas : List (List DecodedToken)) :
    p.streamFrom state (delta :: deltas) =
      if delta.any p.marks then
        ((p.splitDelta delta).1, (p.splitDelta delta).2 ++ textOf deltas.flatten)
      else
        let rest := p.streamFrom
          ⟨false, state.previousText ++ textOf delta, (previous ++ delta).map (·.id)⟩ deltas
        ((p.splitDelta delta).1 ++ rest.1, (p.splitDelta delta).2 ++ rest.2) := by
  have hmessage := message_eq hprev hdec hstart
  simp only [streamFrom, parseDelta, hended, Bool.false_eq_true, if_false, hprevious,
    isReasoningEndStreaming_map]
  rw [← hmessage]
  cases hmarks : delta.any p.marks with
  | true =>
    simp only [if_true, streamFrom_ended]
    cases p.extractReasoningStreaming (previous.map (·.id)) (textOf delta) (delta.map (·.id)) with
    | none => simp
    | some message => simp
  | false => simp

theorem splitDelta_of_unmarked (h : delta.any p.marks = false) :
    p.splitDelta delta = (p.visible delta, []) := by
  have hend : delta.any (·.id == p.endTokenId) = false := by
    rw [any_eq_false] at h ⊢
    intro t ht hid
    exact h t ht (by simp [marks, hid])
  simp [splitDelta, h, hend]

theorem visible_append (a b) :
    p.visible (a ++ b) = p.visible a ++ p.visible b := by
  simp [visible]

theorem streamFrom_append (state : StreamState) (previous) (hended : state.reasoningEnded = false)
    (hprevious : state.previousTokenIds = previous.map (·.id))
    (hprev : previous.any p.marks = false) (hbefore : before.flatten.any p.marks = false)
    (hdec : ∀ delta ∈ before, p.Decodes delta) (hstart : ∀ delta ∈ before, p.StartsOnce delta)
    (deltas : List (List DecodedToken)) :
    ∃ state', state'.reasoningEnded = false ∧
      state'.previousTokenIds = (previous ++ before.flatten).map (·.id) ∧
      p.streamFrom state (before ++ deltas) =
        (p.visible before.flatten ++ (p.streamFrom state' deltas).1,
          (p.streamFrom state' deltas).2) := by
  induction before generalizing state previous with
  | nil => exact ⟨state, hended, by simpa using hprevious, by simp [visible]⟩
  | cons delta before ih =>
    rw [flatten_cons, any_append, Bool.or_eq_false_iff] at hbefore
    obtain ⟨state', hended', hprevious', heq⟩ :=
      ih ⟨false, state.previousText ++ textOf delta, (previous ++ delta).map (·.id)⟩
        (previous ++ delta) rfl rfl (by rw [any_append, hprev, hbefore.1]; rfl)
        hbefore.2 (fun d hd ↦ hdec d (by simp [hd])) (fun d hd ↦ hstart d (by simp [hd]))
    refine ⟨state', hended', by simpa using hprevious', ?_⟩
    rw [cons_append, streamFrom_cons previous hended hprevious hprev (hdec delta (by simp))
      (hstart delta (by simp)), hbefore.1, heq, splitDelta_of_unmarked hbefore.1]
    simp [visible_append]

theorem StartsOnce.of_mem (h : p.StartsOnce deltas.flatten)
    (hmem : delta ∈ deltas) : p.StartsOnce delta := by
  induction deltas with
  | nil => simp at hmem
  | cons d deltas ih =>
    cases d with
    | nil =>
      obtain rfl | hmem := mem_cons.mp hmem
      · simp [StartsOnce]
      · exact ih h hmem
    | cons t d =>
      intro t' ht'
      obtain rfl | hmem := mem_cons.mp hmem
      · exact h t' (by simpa using .inl ht')
      · exact h t' (by simpa using .inr ⟨delta, hmem, mem_of_mem_tail ht'⟩)

theorem StartsOnce.visible_eq {front} (h : p.StartsOnce (front ++ tokens))
    (hne : front ≠ []) : p.visible tokens = textOf tokens := by
  rw [visible, filter_eq_self.mpr]
  intro t ht
  obtain ⟨t', front, rfl⟩ := exists_cons_of_ne_nil hne
  simpa using h t (by simp [ht])

theorem stream_marked {after} (hdec : p.Decodes (before ++ delta :: after).flatten)
    (hstart : p.StartsOnce (before ++ delta :: after).flatten)
    (hbefore : before.flatten.any p.marks = false) (hmarked : delta.any p.marks = true) :
    p.stream (before ++ delta :: after) = (p.visible before.flatten ++ (p.splitDelta delta).1,
        (p.splitDelta delta).2 ++ p.visible after.flatten) := by
  have hdec' : ∀ d ∈ before ++ delta :: after, p.Decodes d :=
    fun d hd t ht ↦ hdec t (mem_flatten.mpr ⟨d, hd, ht⟩)
  obtain ⟨state, hended, hprevious, heq⟩ := streamFrom_append {} []
    rfl rfl rfl hbefore (fun d hd ↦ hdec' d (by simp [hd]))
    (fun d hd ↦ hstart.of_mem (by simp [hd])) (delta :: after)
  have hafter : p.visible after.flatten = textOf after.flatten := by
    have hsplit : (before ++ delta :: after).flatten =
        before.flatten ++ delta ++ after.flatten := by simp
    refine StartsOnce.visible_eq (hsplit ▸ hstart) fun hnil ↦ ?_
    rw [(append_eq_nil_iff.mp hnil).2] at hmarked
    simp at hmarked
  rw [stream, heq, streamFrom_cons before.flatten hended (by simpa using hprevious)
    hbefore (hdec' delta (by simp)) (hstart.of_mem (by simp)), if_pos hmarked, hafter]

theorem stream_unmarked (hdec : p.Decodes deltas.flatten)
    (hstart : p.StartsOnce deltas.flatten) (hno : deltas.flatten.any p.marks = false) :
    p.stream deltas = (p.visible deltas.flatten, []) := by
  obtain ⟨state, -, -, heq⟩ := streamFrom_append {} []
    rfl rfl rfl hno (fun d hd t ht ↦ hdec t (mem_flatten.mpr ⟨d, hd, ht⟩))
    (fun d hd ↦ hstart.of_mem hd) []
  rw [append_nil] at heq
  simp [stream, heq, streamFrom]

theorem exists_first {α : Type} {q : α → Bool} {l} (h : l.any q = true) :
    ∃ left a right, l = left ++ a :: right ∧ left.any q = false ∧ q a = true := by
  obtain ⟨a, ha⟩ := Option.isSome_iff_exists.mp (find?_isSome.mpr (any_eq_true.mp h))
  obtain ⟨hq, left, right, rfl, hleft⟩ := find?_eq_some_iff_append.mp ha
  exact ⟨left, a, right, rfl, any_eq_false.mpr fun b hb ↦ by simpa using hleft b hb, hq⟩

theorem exists_first_marked (h : deltas.flatten.any p.marks = true) :
    ∃ before left mark right after, deltas = before ++ (left ++ mark :: right) :: after ∧
      before.flatten.any p.marks = false ∧ left.any p.marks = false ∧ p.marks mark = true := by
  rw [any_flatten] at h
  obtain ⟨before, delta, after, rfl, hbefore, hdelta⟩ := exists_first h
  obtain ⟨left, mark, right, rfl, hleft, hmark⟩ := exists_first hdelta
  exact ⟨before, left, mark, right, after, rfl, by rwa [any_flatten], hleft, hmark⟩

theorem marks_iff {t} : p.marks t = true ↔ t.id = p.endTokenId ∨ p.toolCallTokenId = some t.id := by
  simp [marks]

theorem visible_mark (hmark : p.marks mark = true) (left right) :
    p.visible (left ++ mark :: right) = p.visible left ++ (mark.text ++ p.visible right) := by
  have hne : mark.id ≠ p.startTokenId := by
    intro heq
    rcases marks_iff.mp hmark with h | h
    · exact p.start_ne_end (heq ▸ h)
    · exact p.start_ne_toolCall (heq ▸ h)
  simp [visible, hne]

def beforeMark (p : Qwen3ReasoningParser) (tokens : List DecodedToken) : List DecodedToken :=
  tokens.takeWhile fun t ↦ !p.marks t

def fromMark (p : Qwen3ReasoningParser) (tokens : List DecodedToken) : List DecodedToken :=
  tokens.dropWhile fun t ↦ !p.marks t

/-- The first occurrence of a marker's string is the marker itself, not a tool call with an end
token after it; without markers, their strings do not occur. -/
def MarkersAreTokens (p : Qwen3ReasoningParser) (tokens : List DecodedToken) : Prop :=
  let text := p.visible tokens
  (p.startTokenId ∉ tokens.map (·.id) → find startToken text = none) ∧
    match p.fromMark tokens with
    | [] => find endToken text = none ∧ find toolCallTag text = none
    | mark :: _ =>
      let before := (p.visible (p.beforeMark tokens)).length
      if mark.id = p.endTokenId then find endToken text = some before
      else find endToken text = none ∧ find toolCallTag text = some before

section

variable {left right : List DecodedToken} {mark : DecodedToken}
  (hleft : left.any p.marks = false) (hmark : p.marks mark = true)
include hleft hmark

theorem beforeMark_eq : p.beforeMark (left ++ mark :: right) = left := by
  rw [beforeMark, takeWhile_append_of_pos, takeWhile_cons_of_neg (by simp [hmark]), append_nil]
  intro t ht
  simpa using any_eq_false.mp hleft t ht

theorem fromMark_eq : p.fromMark (left ++ mark :: right) = mark :: right := by
  rw [fromMark, dropWhile_append_of_pos, dropWhile_cons_of_neg (by simp [hmark])]
  intro t ht
  simpa using any_eq_false.mp hleft t ht

theorem markersAreTokens_marked : p.MarkersAreTokens (left ++ mark :: right) ↔
    (p.startTokenId ∉ (left ++ mark :: right).map (·.id) →
        find startToken (p.visible (left ++ mark :: right)) = none) ∧
      if mark.id = p.endTokenId then
        find endToken (p.visible (left ++ mark :: right)) = some (p.visible left).length
      else find endToken (p.visible (left ++ mark :: right)) = none ∧
        find toolCallTag (p.visible (left ++ mark :: right)) = some (p.visible left).length := by
  rw [MarkersAreTokens, fromMark_eq hleft hmark, beforeMark_eq hleft hmark]

end

theorem fromMark_unmarked (h : tokens.any p.marks = false) : p.fromMark tokens = [] := by
  rw [fromMark, dropWhile_eq_nil_iff]
  intro t ht
  simpa using any_eq_false.mp h t ht

theorem markersAreTokens_unmarked (h : tokens.any p.marks = false) : p.MarkersAreTokens tokens ↔
      (p.startTokenId ∉ tokens.map (·.id) → find startToken (p.visible tokens) = none) ∧
        find endToken (p.visible tokens) = none ∧ find toolCallTag (p.visible tokens) = none := by
  rw [MarkersAreTokens, fromMark_unmarked h]

section

variable {left right : List DecodedToken} {mark : DecodedToken}

theorem splitDelta_end (hmark : mark.id = p.endTokenId) (htext : mark.text = endToken)
    (hfind : find endToken (p.visible (left ++ mark :: right)) = some (p.visible left).length) :
    p.splitDelta (left ++ mark :: right) = (p.visible left, p.visible right) := by
  have hany : (left ++ mark :: right).any (·.id == p.endTokenId) = true := by simp [hmark]
  have hvisible := visible_mark (marks_iff.mpr (.inl hmark)) left right
  simp only [splitDelta, hany, if_true, hfind]
  rw [hvisible, htext, take_left, ← append_assoc, ← length_append, drop_left]

theorem splitDelta_toolCall (hmark : p.toolCallTokenId = some mark.id)
    (htext : mark.text = toolCallTag) (hend : ∀ t ∈ left ++ mark :: right, t.id ≠ p.endTokenId)
    (hfind : find toolCallTag (p.visible (left ++ mark :: right)) = some (p.visible left).length) :
    p.splitDelta (left ++ mark :: right) = (p.visible left, toolCallTag ++ p.visible right) := by
  have hmarks := marks_iff.mpr (.inr hmark)
  have hany : (left ++ mark :: right).any (·.id == p.endTokenId) = false := by
    rw [any_eq_false]
    intro t ht
    simpa using hend t ht
  have hmarked : (left ++ mark :: right).any p.marks = true := by simp [hmarks]
  have hvisible := visible_mark hmarks left right
  simp only [splitDelta, hany, Bool.false_eq_true, if_false, hmarked, if_true, hfind]
  rw [hvisible, htext, take_left, drop_left]

end

theorem stripStart_eq (hdec : p.Decodes tokens) (hstart : p.StartsOnce tokens)
    (hnone : p.startTokenId ∉ tokens.map (·.id) → find startToken (p.visible tokens) = none) :
    stripStart (textOf tokens) = p.visible tokens := by
  have h := strip_eq_visible hdec hstart
  by_cases hmem : p.startTokenId ∈ tokens.map (·.id)
  · rwa [if_pos (contains_iff_mem.mpr hmem)] at h
  · rw [if_neg (by simpa using hmem)] at h
    rw [stripStart, h, hnone hmem]

theorem isInfix_visible_of_mem {t} (ht : t ∈ tokens) (hid : t.id = p.endTokenId)
    (htext : t.text = endToken) : endToken <:+: p.visible tokens := by
  obtain ⟨left, right, rfl⟩ := append_of_mem ht
  rw [visible_mark (marks_iff.mpr (.inl hid)), htext]
  exact ⟨p.visible left, p.visible right, by simp⟩

theorem stream_eq_whole (hthink : p.thinkingEnabled = true) (hdec : p.Decodes tokens)
    (hstart : p.StartsOnce tokens) (hmarkers : p.MarkersAreTokens tokens)
    (hcut : deltas.flatten = tokens) :
    p.stream deltas = p.whole tokens := by
  subst hcut
  rw [whole_eq hthink, stripStart_eq hdec hstart hmarkers.1]
  by_cases hmarked : deltas.flatten.any p.marks = true
  · obtain ⟨before, left, mark, right, after, rfl, hbefore, hleft, hmark⟩ :=
      exists_first_marked hmarked
    have hflat : (before ++ (left ++ mark :: right) :: after).flatten =
        (before.flatten ++ left) ++ mark :: (right ++ after.flatten) := by simp
    have hunmarked : (before.flatten ++ left).any p.marks = false := by
      rw [any_append, hbefore, hleft]; rfl
    have htexts := hdec mark (by simp)
    have hinner := visible_mark hmark left right
    have hvisible : p.visible (before ++ (left ++ mark :: right) :: after).flatten =
        p.visible before.flatten ++ (p.visible (left ++ mark :: right) ++ p.visible after.flatten) := by
      rw [flatten_append, flatten_cons, visible_append, visible_append]
    have hbeforeLength : (p.visible (before.flatten ++ left)).length =
        (p.visible before.flatten).length + (p.visible left).length := by
      rw [visible_append, length_append]
    have hcase := hmarkers
    rw [hflat, markersAreTokens_marked hunmarked hmark, ← hflat, hvisible, hbeforeLength] at hcase
    rw [stream_marked hdec hstart hbefore (by simp [hmark]), hvisible]
    by_cases hend : mark.id = p.endTokenId
    · have hfind := hcase.2
      rw [if_pos hend] at hfind
      have htext := htexts.2.1 hend
      have hdelta := find_of_append hfind (by simp [hinner]) (by simp [hinner, htext])
      rw [splitDelta_end hend htext hdelta, hfind, hinner, htext, ← length_append,
        append_assoc, append_assoc, ← append_assoc, splitText_end]
    · have hfind := hcase.2
      rw [if_neg hend] at hfind
      have htool := (marks_iff.mp hmark).resolve_left hend
      have htext := htexts.2.2 htool
      have hdelta := find_of_append hfind.2 (by simp [hinner]) (by simp [hinner, htext])
      have hno : ∀ t ∈ left ++ mark :: right, t.id ≠ p.endTokenId := by
        intro t ht hid
        refine find_eq_none_iff.mp hfind.1 ?_
        have hmem : t ∈ (before ++ (left ++ mark :: right) :: after).flatten :=
          mem_flatten.mpr ⟨_, by simp, ht⟩
        rw [← hvisible]
        exact isInfix_visible_of_mem hmem hid ((hdec t hmem).2.1 hid)
      rw [splitDelta_toolCall htool htext hno hdelta, hfind.1, hfind.2, hinner, htext,
        ← length_append, append_assoc (p.visible left),
        ← append_assoc (p.visible before.flatten), splitText_toolCall]
  · rw [Bool.not_eq_true] at hmarked
    obtain ⟨-, hend, htool⟩ := (markersAreTokens_unmarked hmarked).mp hmarkers
    rw [stream_unmarked hdec hstart hmarked, hend, htool, splitText]

theorem flatten_singles {α : Type*} (l : List α) : (l.map ([·])).flatten = l := by
  rw [← flatMap_def, flatMap_singleton']

theorem stream_singles {left right}
    (hdec : p.Decodes (left ++ mark :: right)) (hstart : p.StartsOnce (left ++ mark :: right))
    (hleft : left.any p.marks = false) (hmark : p.marks mark = true) :
    p.stream ((left ++ mark :: right).map ([·])) =
      (p.visible left, if mark.id = p.endTokenId then p.visible right
        else toolCallTag ++ p.visible right) := by
  have hflat : (left.map ([·]) ++ [mark] :: right.map ([·])).flatten = left ++ mark :: right := by
    rw [flatten_append, flatten_cons, flatten_singles, flatten_singles]
    rfl
  have htexts := hdec mark (by simp)
  have hvisible : p.visible ([] ++ mark :: []) = mark.text ++ [] := visible_mark hmark [] []
  rw [map_append, map_cons, stream_marked (hflat ▸ hdec) (hflat ▸ hstart)
    (by rwa [flatten_singles]) (by simpa using hmark), flatten_singles, flatten_singles]
  by_cases hend : mark.id = p.endTokenId
  · have hsplit : p.splitDelta ([] ++ mark :: []) = (p.visible [], p.visible []) :=
      splitDelta_end hend (htexts.2.1 hend) (by rw [hvisible, htexts.2.1 hend]; exact find_append_self)
    rw [if_pos hend]
    rw [nil_append] at hsplit
    rw [hsplit]
    simp [visible]
  · have htool := (marks_iff.mp hmark).resolve_left hend
    have hsplit : p.splitDelta ([] ++ mark :: []) = (p.visible [], toolCallTag ++ p.visible []) :=
      splitDelta_toolCall htool (htexts.2.2 htool) (by simpa using hend)
        (by rw [hvisible, htexts.2.2 htool]; exact find_append_self)
    rw [if_neg hend]
    rw [nil_append] at hsplit
    rw [hsplit]
    simp [visible]

theorem splitText_length (text) :
    (splitText text (find endToken text) (find toolCallTag text)).1.length +
        (splitText text (find endToken text) (find toolCallTag text)).2.length +
      (if (find endToken text).isSome then endToken.length else 0) = text.length := by
  cases hend : find endToken text with
  | some i =>
    have := find_add_length_le hend
    simp only [splitText, length_take, length_drop, Option.isSome_some, if_true]
    omega
  | none =>
    cases find toolCallTag text with
    | some i =>
      simp only [splitText, length_take, length_drop, Option.isSome_none,
        Bool.false_eq_true, if_false]
      omega
    | none => simp [splitText]

theorem endToken_after_start {text left right} (hstart : startToken <+: text.drop 1)
    (hend : text = left ++ (endToken ++ right)) : endToken <:+: text.drop 8 := by
  have hs : ∀ j < 7, text[1 + j]? = startToken[j]? := by
    intro j hj
    obtain ⟨rest, hrest⟩ := hstart
    rw [← getElem?_drop, ← hrest, getElem?_append_left (by exact hj)]
  have he : ∀ j < 8, text[left.length + j]? = endToken[j]? := by
    intro j hj
    rw [hend, getElem?_append_right (by omega), Nat.add_sub_cancel_left,
      getElem?_append_left (by exact hj)]
  by_cases hlen : 8 ≤ left.length
  · refine ⟨left.drop 8, right, ?_⟩
    rw [hend, drop_append_of_le_length hlen, append_assoc]
  -- the two strings would overlap, with different characters at one place
  exfalso
  generalize left.length = k at he hlen
  by_cases hk : 2 ≤ k
  · have hsame : startToken[k - 1]? = endToken[0]? := by
      rw [← hs (k - 1) (by omega), ← he 0 (by omega)]
      congr 1
      omega
    interval_cases k <;> exact absurd hsame (by decide)
  · interval_cases k
    · exact absurd ((hs 0 (by omega)).symm.trans (he 1 (by omega))) (by decide)
    · exact absurd ((hs 1 (by omega)).symm.trans (he 1 (by omega))) (by decide)

theorem stream_singles_length (hdec : p.Decodes tokens) (hstart : p.StartsOnce tokens) :
    (p.stream (tokens.map ([·]))).1.length + (p.stream (tokens.map ([·]))).2.length =
        (p.visible tokens).length ∨
      ∃ left right, p.visible tokens = left ++ (endToken ++ right) ∧
        p.stream (tokens.map ([·])) = (left, right) := by
  by_cases hmarked : tokens.any p.marks = true
  · obtain ⟨left, mark, right, rfl, hleft, hmark⟩ := exists_first hmarked
    have htexts := hdec mark (by simp)
    rw [stream_singles hdec hstart hleft hmark, visible_mark hmark]
    by_cases hend : mark.id = p.endTokenId
    · rw [if_pos hend, htexts.2.1 hend]
      exact .inr ⟨_, _, rfl, rfl⟩
    · rw [if_neg hend, htexts.2.2 ((marks_iff.mp hmark).resolve_left hend)]
      exact .inl (by simp)
  · rw [Bool.not_eq_true] at hmarked
    have hflat := flatten_singles tokens
    rw [stream_unmarked (hflat.symm ▸ hdec) (hflat.symm ▸ hstart) (by rwa [hflat]), hflat]
    exact .inl (by simp)

theorem find_eq_of_take {sub text left : Text} {i} (hfind : find sub text = some i)
    (htake : text.take i = left) : i = left.length := by
  have := find_add_length_le hfind
  rw [← htake, length_take]
  omega

section

variable (hthink : p.thinkingEnabled = true) (hdec : p.Decodes tokens)
  (hstart : p.StartsOnce tokens) (hsame : p.stream (tokens.map ([·])) = p.whole tokens)

include hthink hdec hstart hsame

theorem no_start_string
    (hmem : p.startTokenId ∉ tokens.map (·.id)) : find startToken (p.visible tokens) = none := by
  have hvisible : p.visible tokens = textOf tokens := by
    rw [visible, filter_eq_self.mpr]
    intro t ht
    simp only [ne_eq, decide_not, Bool.not_eq_eq_eq_not, Bool.not_true, decide_eq_false_iff_not]
    exact fun hid ↦ hmem (mem_map.mpr ⟨t, ht, hid⟩)
  cases hfind : find startToken (p.visible tokens) with
  | none => rfl
  | some q =>
    exfalso
    have hle := find_add_length_le hfind
    have hstrip : stripStart (textOf tokens) = (p.visible tokens).drop (q + startToken.length) := by
      rw [stripStart, ← hvisible, hfind]
    have hseven : startToken.length = 7 := by decide
    have height : endToken.length = 8 := by decide
    have htotal := splitText_length (stripStart (textOf tokens))
    rw [← whole_eq hthink, ← hsame, hstrip, length_drop] at htotal
    obtain hall | ⟨left, right, htext, heq⟩ := stream_singles_length hdec hstart
    · omega
    have hlen := congrArg length htext
    simp only [length_append] at hlen
    rw [heq] at htotal
    dsimp only at htotal
    cases hend : find endToken ((p.visible tokens).drop (q + startToken.length)) with
    | some i =>
      rw [hend, Option.isSome_some, if_pos rfl] at htotal
      omega
    | none =>
      rw [hend, Option.isSome_none] at htotal
      simp only [Bool.false_eq_true, if_false] at htotal
      have hq : q = 1 := by omega
      have hinfix := endToken_after_start (hq ▸ (find_eq_some_iff.mp hfind).1.2) htext
      rw [hq, hseven] at hend
      exact find_eq_none_iff.mp hend hinfix

theorem markersAreTokens_of_singles : p.MarkersAreTokens tokens := by
  have hnone := no_start_string hthink hdec hstart hsame
  have htotal := splitText_length (p.visible tokens)
  have hwhole : p.whole tokens = _ := whole_eq hthink
  rw [stripStart_eq hdec hstart hnone, ← hsame] at hwhole
  rw [← hwhole] at htotal
  have height : endToken.length = 8 := by decide
  -- the end string occurs only if it is lost
  have hend_none : (p.stream (tokens.map ([·]))).1.length +
      (p.stream (tokens.map ([·]))).2.length = (p.visible tokens).length →
      find endToken (p.visible tokens) = none := by
    intro hall
    cases hend : find endToken (p.visible tokens) with
    | none => rfl
    | some i =>
      rw [hend, Option.isSome_some, if_pos rfl] at htotal
      omega
  by_cases hmarked : tokens.any p.marks = true
  · obtain ⟨left, mark, right, rfl, hleft, hmark⟩ := exists_first hmarked
    have htexts := hdec mark (by simp)
    rw [markersAreTokens_marked hleft hmark]
    refine ⟨hnone, ?_⟩
    rw [stream_singles hdec hstart hleft hmark] at hwhole hend_none
    by_cases hend : mark.id = p.endTokenId
    · rw [if_pos hend] at hwhole ⊢
      have hin : endToken <:+: p.visible (left ++ mark :: right) :=
        isInfix_visible_of_mem (by simp) hend (htexts.2.1 hend)
      obtain ⟨i, hi⟩ := exists_find hin
      rw [hi] at hwhole ⊢
      rw [find_eq_of_take hi (congrArg Prod.fst hwhole).symm]
    · have htext := htexts.2.2 ((marks_iff.mp hmark).resolve_left hend)
      rw [if_neg hend] at hwhole hend_none ⊢
      have hnoEnd := hend_none (by rw [visible_mark hmark, htext]; simp)
      have hinfix : toolCallTag <:+: p.visible (left ++ mark :: right) := by
        rw [visible_mark hmark, htext]
        exact ⟨p.visible left, p.visible right, by simp⟩
      obtain ⟨i, hi⟩ := exists_find hinfix
      rw [hnoEnd, hi] at hwhole
      refine ⟨hnoEnd, ?_⟩
      rw [hi, find_eq_of_take hi (congrArg Prod.fst hwhole).symm]
  · rw [Bool.not_eq_true] at hmarked
    have hflat := flatten_singles tokens
    rw [stream_unmarked (hflat.symm ▸ hdec) (hflat.symm ▸ hstart) (by rwa [hflat]), hflat]
      at hwhole hend_none
    rw [markersAreTokens_unmarked hmarked]
    have hnoEnd := hend_none (by simp)
    refine ⟨hnone, hnoEnd, ?_⟩
    cases htool : find toolCallTag (p.visible tokens) with
    | none => rfl
    | some i =>
      rw [hnoEnd, htool] at hwhole
      have hi : i = (p.visible tokens).length :=
        find_eq_of_take htool (congrArg Prod.fst hwhole).symm
      have := find_add_length_le htool
      have : toolCallTag.length = 11 := by decide
      omega

end

end Qwen3ReasoningParser

open Qwen3ReasoningParser in
/-- Every cut gives the result on the whole text exactly when the markers' strings first occur as
the markers, and no tool call before an end marker. -/
theorem reasoning_cuts_agree_iff {p : Qwen3ReasoningParser} (hthink : p.thinkingEnabled = true)
    (tokens : List DecodedToken) (hdec : p.Decodes tokens) (hstart : p.StartsOnce tokens) :
    (∀ deltas : List (List DecodedToken), deltas.flatten = tokens →
      p.stream deltas = p.whole tokens) ↔ p.MarkersAreTokens tokens := by
  constructor
  · intro h
    exact markersAreTokens_of_singles hthink hdec hstart (h _ (flatten_singles tokens))
  · intro h deltas hcut
    exact stream_eq_whole hthink hdec hstart h hcut

def thinkParser : Qwen3ReasoningParser where
  startTokenId := 0
  endTokenId := 1
  toolCallTokenId := some 2
  start_ne_end := by decide
  start_ne_toolCall := by decide
  end_ne_toolCall := by decide

open Qwen3ReasoningParser in
theorem reasoning_cuts_agree_closed_thought :
    let tokens : List DecodedToken :=
      [⟨0, startToken⟩, ⟨5, ['a']⟩, ⟨1, endToken⟩, ⟨2, toolCallTag⟩]
    thinkParser.Decodes tokens ∧ thinkParser.StartsOnce tokens ∧
      ∀ deltas : List (List DecodedToken), deltas.flatten = tokens →
        thinkParser.stream deltas = thinkParser.whole tokens := by
  intro tokens
  have hdec : thinkParser.Decodes tokens := by decide
  have hstart : thinkParser.StartsOnce tokens := by decide
  refine ⟨hdec, hstart, (reasoning_cuts_agree_iff rfl tokens hdec hstart).mpr ⟨by decide, ?_⟩⟩
  show find endToken (thinkParser.visible tokens) = some 1
  decide

open Qwen3ReasoningParser in
theorem tool_call_in_thought :
    let tokens : List DecodedToken := [⟨5, ['a']⟩, ⟨2, toolCallTag⟩, ⟨1, endToken⟩, ⟨6, ['b']⟩]
    thinkParser.Decodes tokens ∧ thinkParser.StartsOnce tokens ∧
      thinkParser.whole tokens = (['a'] ++ toolCallTag, ['b']) ∧
      thinkParser.stream (tokens.map ([·])) = (['a'], toolCallTag ++ endToken ++ ['b']) := by
  decide

end VllmEngine.Parser
