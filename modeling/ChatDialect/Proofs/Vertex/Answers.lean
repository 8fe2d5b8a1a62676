import Mathlib.Data.List.Nodup
import ChatDialect.Proofs.Vertex.Choices
import ChatDialect.Proofs.Vertex.Parts

/-! What a choice makes of the parts of its candidate. Text, thoughts, images and calls go to places
of their own, in order, and a choice without any text, image or call holds a placeholder. -/
namespace ChatDialect.Vertex

open Chat (Choice)

/-- A tool call for a function call. -/
structure Calls (call : FunctionCall) (tool : Chat.ToolCall) : Prop where
  kind : tool.kind = "function"
  name : tool.function.name = call.name
  arguments : tool.function.arguments = Chat.Arguments.print call.args

/-- A choice that says what the parts of a candidate hold. A field that would be empty is left out. -/
structure Answers (c : Candidate) (choice : Choice) : Prop where
  role : choice.message.role = "assistant"
  finish : choice.finishReason = some ((c.finishReason.map reasonOf).getD .stop)
  content : (∃ p ∈ c.parts, ¬ p.Mute) →
    choice.message.content = some (String.join (textsOf false c.parts))
  placeholder : (∀ p ∈ c.parts, p.Mute) → choice.message.content = some (
    if choice.finishReason = some .length then "[Response truncated due to max tokens limit]"
    else "[No content generated]")
  reasoning : choice.message.reasoning.getD "" = String.join (textsOf true c.parts)
  images : ∃ shown, List.Forall₂ Medium.Shown (c.parts.flatMap (·.media)) shown ∧
    choice.message.images.getD [] = shown.reduceOption
  calls : List.Forall₂ Calls (c.parts.filterMap (·.functionCall))
    (choice.message.toolCalls.getD [])
  filled : choice.message.reasoning ≠ some "" ∧ choice.message.images ≠ some [] ∧
    choice.message.toolCalls ≠ some []
  accompanied : choice.message.content = some "" →
    choice.message.images ≠ none ∨ choice.message.toolCalls ≠ none

theorem forall₂_calls (ids : Ids) (calls : List FunctionCall) :
    List.Forall₂ Calls calls (nameCalls ids calls).1 := by
  induction calls generalizing ids with
  | nil => exact .nil
  | cons call calls ih => exact .cons ⟨rfl, rfl, rfl⟩ (ih _)

theorem contentOf_ne_empty {parts : List Part} {finish : Chat.FinishReason}
    (h : contentOf parts finish = "") : imagesOf parts ≠ [] ∨ callsOf parts ≠ [] := by
  unfold contentOf at h
  split at h
  · cases finish <;> exact absurd h (by decide)
  · next hsome =>
    by_contra hnothing
    rw [not_or, not_not, not_not] at hnothing
    exact hsome ⟨h, hnothing.1, List.isEmpty_iff.mpr hnothing.2⟩

theorem Candidate.choice_answers (c : Candidate) (position : Nat) (ids : Ids) :
    Answers c (c.choice position ids).1 := by
  have hcontent : (c.choice position ids).1.message.content =
      some (contentOf c.parts c.finish) := rfl
  have hcalls := forall₂_calls ids (callsOf c.parts)
  obtain ⟨shown, hshown, himages⟩ := shown_images c.parts
  exact {
    role := rfl
    finish := rfl
    content := by
      rintro ⟨p, hp, hspeaks⟩
      rw [hcontent, contentOf, if_neg, answerOf_eq]
      intro hmute
      exact hspeaks ((mute_iff c.parts).mp hmute p hp)
    placeholder := by
      intro hmute
      rw [hcontent, contentOf, if_pos ((mute_iff c.parts).mpr hmute)]
      change _ = some (if some c.finish = some .length then _ else _)
      cases c.finish <;> rfl
    reasoning := (Chat.nonEmpty?_getD _).trans (reasoningOf_eq c.parts)
    images := ⟨shown, hshown, (Chat.listed?_getD _).trans himages⟩
    calls := by
      change List.Forall₂ Calls _ ((Chat.listed? _).getD [])
      rw [Chat.listed?_getD]
      exact hcalls
    filled := ⟨Chat.nonEmpty?_ne_empty _, Chat.listed?_ne_nil _, Chat.listed?_ne_nil _⟩
    accompanied := by
      intro hempty
      rw [hcontent] at hempty
      rcases contentOf_ne_empty (Option.some.inj hempty) with hany | hany
      · left
        exact mt Chat.listed?_eq_none.mp hany
      · right
        refine mt Chat.listed?_eq_none.mp fun hnone => hany ?_
        rw [hnone] at hcalls
        exact List.forall₂_nil_right_iff.mp hcalls }

/-- The ids of the calls of choices are numbered on from candidate to candidate. -/
theorem ids_choicesFrom (position : Nat) (ids : Ids) (cs : List Candidate) :
    ((choicesFrom position ids cs).1.flatMap fun choice =>
        (choice.message.toolCalls.getD []).map (·.id)) =
      (List.range' ids.next (cs.flatMap fun c => callsOf c.parts).length).map
        ids.source.toolCall := by
  induction cs generalizing position ids with
  | nil => rfl
  | cons c cs ih =>
    have hfirst : ((c.choice position ids).1.message.toolCalls.getD []).map (·.id) =
        (List.range' ids.next (callsOf c.parts).length).map ids.source.toolCall := by
      rw [Candidate.choice, Chat.listed?_getD, map_id_nameCalls]
    have hrest := ih (position + 1) (c.choice position ids).2
    rw [c.ids_choice] at hrest
    rw [choicesFrom, List.flatMap_cons, hfirst, c.ids_choice, hrest, List.flatMap_cons,
      List.length_append, ← List.map_append, List.range'_append_1]

/-- Parts that differ in no more than what they think. -/
structure Part.SameButThought (p q : Part) : Prop where
  rest : q = { p with text := q.text }
  text : p.thought ≠ some true → q.text = p.text

/-- Candidates that differ in no more than what they think. -/
structure Candidate.SameButThoughts (c d : Candidate) : Prop where
  index : d.index = c.index
  finish : d.finishReason = c.finishReason
  parts : List.Forall₂ Part.SameButThought c.parts d.parts

/-- What a choice says aloud: all but its thoughts. -/
def aloud (choice : Choice) : Choice :=
  { choice with message := { choice.message with reasoning := none } }

theorem Part.SameButThought.views {p q : Part} (h : p.SameButThought q) :
    q.answer? = p.answer? ∧ q.images = p.images ∧ q.functionCall = p.functionCall := by
  obtain ⟨hrest, htext⟩ := h
  rw [hrest]
  refine ⟨?_, rfl, rfl⟩
  change (if p.isThought then none else q.text) = if p.isThought then none else p.text
  by_cases hthought : p.thought = some true
  · rw [Part.isThought, hthought]
    rfl
  · rw [htext hthought]

theorem views_of_sameButThought {ps qs : List Part} (h : List.Forall₂ Part.SameButThought ps qs) :
    answerOf qs = answerOf ps ∧ imagesOf qs = imagesOf ps ∧ callsOf qs = callsOf ps := by
  have hlists : qs.filterMap (·.answer?) = ps.filterMap (·.answer?) ∧
      qs.flatMap (·.images) = ps.flatMap (·.images) ∧
      qs.filterMap (·.functionCall) = ps.filterMap (·.functionCall) := by
    induction h with
    | nil => exact ⟨rfl, rfl, rfl⟩
    | cons hpart _ ih =>
      obtain ⟨hanswer, himage, hcall⟩ := hpart.views
      obtain ⟨hanswers, himages, hcalls⟩ := ih
      simp only [List.filterMap_cons, List.flatMap_cons, hanswer, himage, hcall, hanswers, himages,
        hcalls, and_self]
  obtain ⟨hanswers, himages, hcalls⟩ := hlists
  exact ⟨congrArg String.join hanswers, himages, hcalls⟩

theorem Candidate.SameButThoughts.aloud_choice {c d : Candidate} (h : c.SameButThoughts d)
    (position : Nat) (ids : Ids) :
    aloud (d.choice position ids).1 = aloud (c.choice position ids).1 ∧
      (d.choice position ids).2 = (c.choice position ids).2 := by
  obtain ⟨hanswer, himages, hcalls⟩ := views_of_sameButThought h.parts
  have hfinish : d.finish = c.finish := by
    rw [Candidate.finish, h.finish, Candidate.finish]
  have hindex : d.indexAt position = c.indexAt position := by
    rw [Candidate.indexAt, h.index, Candidate.indexAt]
  constructor
  · simp only [choice, contentOf, hanswer, himages, hcalls, hfinish, hindex]
    rfl
  · rw [ids_choice, ids_choice, hcalls]

theorem aloud_choicesFrom {cs ds : List Candidate}
    (h : List.Forall₂ Candidate.SameButThoughts cs ds) (position : Nat) (ids : Ids) :
    (choicesFrom position ids ds).1.map aloud = (choicesFrom position ids cs).1.map aloud := by
  induction h generalizing position ids with
  | nil => rfl
  | cons hcandidate _ ih =>
    obtain ⟨hchoice, hids⟩ := hcandidate.aloud_choice position ids
    rw [choicesFrom, choicesFrom, List.map_cons, List.map_cons, hchoice, hids, ih]

section Choices

variable {r : Response} (model : String) (now : Int64) (ids : Ids)

theorem choices_of_blank (h : r.candidates = []) :
    (r.toChat model now ids).1.choices = [emptyChoice r.blockReason?.isSome] := by
  rw [r.toChat_choices, h]
  rfl

theorem choices_of_candidates (h : r.candidates ≠ []) :
    (r.toChat model now ids).1.choices = (choicesFrom 0 (r.idsLeft ids) r.candidates).1 := by
  rw [r.toChat_choices, if_neg (mt List.isEmpty_iff.mp h)]

theorem length_choices : (r.toChat model now ids).1.choices.length = max 1 r.candidates.length := by
  by_cases h : r.candidates = []
  · rw [choices_of_blank model now ids h, h]
    rfl
  · have hpos := List.length_pos_iff.mpr h
    rw [choices_of_candidates model now ids h, length_choicesFrom]
    omega

theorem exists_choice {position : Nat} {c : Candidate} (h : r.candidates[position]? = some c) :
    ∃ choice, (r.toChat model now ids).1.choices[position]? = some choice ∧
      choice.index = c.index.getD (UInt32.ofNat position) ∧ Answers c choice := by
  have hsome : r.candidates ≠ [] := List.ne_nil_of_mem (List.mem_of_getElem? h)
  obtain ⟨next, -, hchoice⟩ := getElem?_choicesFrom h 0 (r.idsLeft ids)
  rw [Nat.zero_add] at hchoice
  rw [choices_of_candidates model now ids hsome]
  exact ⟨_, hchoice, rfl, c.choice_answers _ _⟩

theorem nodup_ids (h : Function.Injective ids.source.toolCall) :
    ((r.toChat model now ids).1.choices.flatMap fun choice =>
      (choice.message.toolCalls.getD []).map (·.id)).Nodup := by
  by_cases hsome : r.candidates = []
  · rw [choices_of_blank model now ids hsome]
    exact List.nodup_nil
  · rw [choices_of_candidates model now ids hsome, ids_choicesFrom]
    exact List.Nodup.map h List.nodup_range'

theorem aloud_choices {candidates : List Candidate}
    (h : List.Forall₂ Candidate.SameButThoughts r.candidates candidates) :
    ({ r with candidates }.toChat model now ids).1.choices.map aloud =
      (r.toChat model now ids).1.choices.map aloud := by
  have hempty : candidates.isEmpty = r.candidates.isEmpty := by
    rw [Bool.eq_iff_iff, List.isEmpty_iff_length_eq_zero, List.isEmpty_iff_length_eq_zero,
      h.length_eq]
  rw [Response.toChat_choices, Response.toChat_choices, hempty]
  split
  · rfl
  · exact aloud_choicesFrom h 0 (r.idsLeft ids)

end Choices

/-- A response becomes one choice for each candidate, in order, which answers with what its parts
hold; without candidates it becomes one choice with a placeholder. No two tool calls share an id if
the source never repeats one, and what candidates think changes nothing that is said aloud. -/
theorem toChat_answers (r : Response) (model : String) (now : Int64) (ids : Ids) :
    let choices := (r.toChat model now ids).1.choices
    choices.length = max 1 r.candidates.length ∧
    (∀ position c, r.candidates[position]? = some c → ∃ choice,
      choices[position]? = some choice ∧ choice.index = c.index.getD (UInt32.ofNat position) ∧
        Answers c choice) ∧
    (r.candidates = [] →
      choices = [⟨0, ⟨"assistant", some "[No content generated]", none, none, none⟩,
        some (if (r.promptFeedback.bind (·.blockReason)).isSome then .contentFilter else .stop)⟩]) ∧
    (Function.Injective ids.source.toolCall →
      (choices.flatMap fun choice => (choice.message.toolCalls.getD []).map (·.id)).Nodup) ∧
    ∀ candidates, List.Forall₂ Candidate.SameButThoughts r.candidates candidates →
      ({ r with candidates }.toChat model now ids).1.choices.map aloud = choices.map aloud := by
  refine ⟨length_choices model now ids, ?_, ?_, nodup_ids model now ids, ?_⟩
  · intro position c hc
    exact exists_choice model now ids hc
  · intro hnone
    exact choices_of_blank model now ids hnone
  · intro candidates hsame
    exact aloud_choices model now ids hsame

theorem sequential_injective (stem : String) :
    Function.Injective (IdSource.sequential stem).toolCall := by
  intro m n h
  have hdigits : Nat.toDigits 10 m = Nat.toDigits 10 n :=
    String.ofList_injective ((String.append_right_inj "call_").mp h)
  calc
    m = Nat.ofDigitChars 10 (Nat.toDigits 10 m) 0 := Nat.ofDigitChars_ten_toDigits.symm
    _ = Nat.ofDigitChars 10 (Nat.toDigits 10 n) 0 := by rw [hdigits]
    _ = n := Nat.ofDigitChars_ten_toDigits

/-- A candidate with a thought and data that is no base64. -/
def pondering (thought : String) : Candidate where
  content := some ⟨some "model", [{ (Item.text thought).part with thought := some true },
    (Item.data "image/png" "?").part]⟩
  finishReason := some "MAX_TOKENS"
  index := none

/-- Two calls of a function without its arguments, with an empty text and two pictures between
them. -/
def searching : Candidate where
  content := some ⟨none, [(Item.call "look" .null).part, (Item.text "").part,
    (Item.data "image/png" "AA").part, (Item.file "" "gs://a/b").part,
    (Item.call "look" .null).part]⟩
  finishReason := some "STOP"
  index := some 4

def searchResponse : Response where
  candidates := [pondering "Hm.", searching]
  usage := none
  modelVersion := none
  responseId := none
  promptFeedback := some ⟨some "SAFETY"⟩

theorem search_answers :
    let ids := Ids.ofSource (.sequential "r")
    let choices := (searchResponse.toChat "" 7 ids).1.choices
    let cutOff : Choice := ⟨0, ⟨"assistant", some "[Response truncated due to max tokens limit]",
      some "Hm.", none, none⟩, some .length⟩
    let found : Choice := ⟨4, ⟨"assistant", some "", none,
      some [⟨some "AA==", none, some "image/png", none⟩, ⟨none, some "gs://a/b", none, none⟩],
      some [⟨"call_1", "function", "look", "\x7b\x7d"⟩,
        ⟨"call_2", "function", "look", "\x7b\x7d"⟩]⟩, some .stop⟩
    choices = [cutOff, found] ∧ Answers (pondering "Hm.") cutOff ∧ Answers searching found ∧
    Function.Injective ids.source.toolCall ∧
    (choices.flatMap fun choice => (choice.message.toolCalls.getD []).map (·.id)).Nodup ∧
    ({ searchResponse with candidates := [pondering "Or not?", searching] }.toChat "" 7
      ids).1.choices.map aloud = choices.map aloud ∧
    ({ searchResponse with candidates := [] }.toChat "" 7 ids).1.choices =
      [⟨0, ⟨"assistant", some "[No content generated]", none, none, none⟩,
        some .contentFilter⟩] := by
  intro ids choices cutOff found
  have hinjective := sequential_injective "r"
  have hchoices : choices = [cutOff, found] := by decide
  obtain ⟨-, hanswers, -, hnodup, haloud⟩ := toChat_answers searchResponse "" 7 ids
  obtain ⟨-, -, hblocked, -, -⟩ := toChat_answers { searchResponse with candidates := [] } "" 7 ids
  have hanswer (position : Nat) {c : Candidate} {choice : Choice}
      (hc : searchResponse.candidates[position]? = some c)
      (hchoice : [cutOff, found][position]? = some choice) : Answers c choice := by
    obtain ⟨same, hsame, -, h⟩ := hanswers position c hc
    change choices[position]? = some same at hsame
    rw [hchoices, hchoice] at hsame
    cases hsame
    exact h
  have hthought : (pondering "Hm.").SameButThoughts (pondering "Or not?") :=
    ⟨rfl, rfl, .cons ⟨rfl, fun h => absurd rfl h⟩ (.cons ⟨rfl, fun _ => rfl⟩ .nil)⟩
  have hsearching : searching.SameButThoughts searching :=
    ⟨rfl, rfl, List.forall₂_same.mpr fun p _ => ⟨rfl, fun _ => rfl⟩⟩
  refine ⟨hchoices, ?_, ?_, hinjective, hnodup hinjective,
    haloud _ (.cons hthought (.cons hsearching .nil)), hblocked rfl⟩
  · exact hanswer 0 rfl rfl
  · exact hanswer 1 rfl rfl

end ChatDialect.Vertex
