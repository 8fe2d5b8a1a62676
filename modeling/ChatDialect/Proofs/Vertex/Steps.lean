import ChatDialect.Proofs.Chat.Feed
import ChatDialect.Vertex.Stream

/-! What one response makes a stream say. -/
namespace ChatDialect.Vertex

open Chat

/-- The response of a payload, if it is one. -/
def Response.ofText? (text : String) : Option Response :=
  if text = "[DONE]" then none else (codec.read (Utf8.ofString text)).toOption

/-- A payload without faults is the response that its tree decodes to. -/
theorem Response.ofText?_eq_some {text : String} {r : Response} (tree : Json.Tree)
    (hdone : text ≠ "[DONE]") (hread : Json.readDocument (Utf8.ofString text) = (tree, none))
    (hdecode : codec.decode (.text Json.nestingLimit) tree = .ok r) : ofText? text = some r := by
  simp [ofText?, hdone, Json.Codec.read, hread, hdecode, bind, Except.bind, Json.check,
    Except.toOption, pure, Except.pure]

namespace Stream

variable (s : Stream)

theorem payload_eq (text : String) :
    s.payload text = match Response.ofText? text with
      | some r => s.response r
      | none => (s, if text = "[DONE]" then .done else .skip) := by
  unfold payload Response.ofText?
  by_cases hdone : text = "[DONE]"
  · simp [hdone]
  · simp only [hdone, if_false]
    cases Response.codec.read (Utf8.ofString text) <;> rfl

/-- Payloads that are no responses may as well be left out. -/
theorem chunksFrom_payload (texts : List String) :
    chunksFrom payload s texts = chunksFrom response s (texts.filterMap Response.ofText?) := by
  induction texts generalizing s with
  | nil => rfl
  | cons text texts ih =>
    rw [chunksFrom_cons, payload_eq, ih]
    cases h : Response.ofText? text with
    | none =>
      rw [List.filterMap_cons_none h]
      by_cases hdone : text = "[DONE]" <;> simp [hdone]
    | some r => simp [h]

/-- What a candidate says as a choice, be it nothing. -/
def spoken (c : Candidate) (position : Nat) (ids : Ids) : ChunkChoice where
  index := c.indexAt position
  delta := {
    role := none
    content := Text.nonEmpty? (answerOf c.parts)
    reasoning := Text.nonEmpty? (reasoningOf c.parts)
    toolCalls := Chat.listed? (openCalls 0 ids (callsOf c.parts)).1
    images := Chat.listed? (imagesOf c.parts) }
  finishReason := statedFinish? c

/-- A choice that says nothing. -/
def silent (index : UInt32) : ChunkChoice := ⟨index, .empty, none⟩

/-- A candidate has the choice that it says, unless that is nothing. -/
theorem choice?_eq (c : Candidate) (position : Nat) (ids : Ids) :
    choice? c position ids =
      (if spoken c position ids = silent (c.indexAt position) then none
        else some (spoken c position ids), (openCalls 0 ids (callsOf c.parts)).2) := by
  have hsilent : spoken c position ids = silent (c.indexAt position) ↔
      (spoken c position ids).delta = Delta.empty ∧ statedFinish? c = none := by
    simp [spoken, silent]
  by_cases h : (spoken c position ids).delta = Delta.empty ∧ statedFinish? c = none
  · rw [if_pos (hsilent.mpr h)]
    exact if_pos h
  · rw [if_neg (mt hsilent.mp h)]
    exact if_neg h

/-- The choices of candidates are never silent. -/
theorem mem_choicesFrom {position : Nat} {ids : Ids} {cs : List Candidate} {choice : ChunkChoice}
    (h : choice ∈ (choicesFrom position ids cs).1) :
    choice ≠ silent choice.index ∧ choice.delta.role = none := by
  induction cs generalizing position ids with
  | nil => simp [choicesFrom] at h
  | cons c cs ih =>
    rw [choicesFrom, List.mem_append, choice?_eq] at h
    rcases h with h | h
    · split at h
      · simp at h
      · next hspoken =>
        obtain rfl : choice = spoken c position ids := by simpa using h
        exact ⟨hspoken, rfl⟩
    · exact ih h

/-- The choices of a response. -/
def choices (r : Response) : List ChunkChoice :=
  if r.candidates.isEmpty ∧ r.blockReason?.isSome then [blockedChoice]
  else (choicesFrom 0 s.ids r.candidates).1

theorem mem_choices {r : Response} {choice : ChunkChoice} (h : choice ∈ s.choices r) :
    choice ≠ silent choice.index ∧ choice.delta.role = none := by
  rw [choices] at h
  split at h
  · rw [List.mem_singleton.mp h]
    exact ⟨by decide, rfl⟩
  · exact mem_choicesFrom h

/-- The chunk of a response; one with neither choices nor usage has none. The first choices of a
stream announce the assistant, the later ones go out as they are. -/
def chunk? (r : Response) : Option Chunk :=
  if (s.choices r).isEmpty ∧ r.usage.isNone then none
  else some (.ofChoices (s.identify r).id s.created (s.identify r).model
    (if s.announced then s.choices r else (s.choices r).map announce) (r.usage.map (·.toChat)))

theorem chunk?_eq_none {r : Response} :
    s.chunk? r = none ↔ s.choices r = [] ∧ r.usage = none := by
  simp [chunk?]

/-- A step in full: at most one chunk goes out, and its choices are the announcement. -/
theorem response_eq (r : Response) :
    s.response r =
      ({ s.identify r with
          ids := (choicesFrom 0 s.ids r.candidates).2
          emitted := s.emitted || (s.chunk? r).isSome
          announced := s.announced || !(s.choices r).isEmpty },
        .chunks (s.chunk? r).toList) := by
  have hsame : (s.identify r).ids = s.ids ∧ (s.identify r).created = s.created ∧
      (s.identify r).emitted = s.emitted ∧ (s.identify r).announced = s.announced := by
    unfold identify
    split <;> exact ⟨rfl, rfl, rfl, rfl⟩
  obtain ⟨hids, hcreated, hemitted, hannounced⟩ := hsame
  have hchoices : s.choices r = if r.candidates.isEmpty ∧ r.blockReason?.isSome then
      [blockedChoice] else (choicesFrom 0 s.ids r.candidates).1 := rfl
  simp only [response, chunk?, hids, hcreated, hannounced]
  rw [← hchoices, ← hemitted, ← hannounced]
  cases s.choices r <;> cases (s.identify r).announced <;> cases r.usage <;>
    simp [Step.one, Step.skip]

theorem response_passed (r : Response) : (s.response r).2.passed = (s.chunk? r).toList := by
  rw [response_eq]
  rfl

theorem said_response (r : Response) :
    said (s.response r).2.passed =
      if s.announced then s.choices r else (s.choices r).map announce := by
  rw [response_passed, chunk?]
  split
  · next hnothing =>
    rw [List.isEmpty_iff.mp hnothing.1]
    simp
  · simp [said, Chunk.ofChoices]

end Stream

end ChatDialect.Vertex
