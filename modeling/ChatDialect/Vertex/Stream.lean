import ChatDialect.Chat.Step
import ChatDialect.Vertex.ToChat

/-!
Streams of the Vertex dialect as streams of chunks. Every payload is a response of its own and gives
one chunk at most, with one choice for each candidate that says something.
-/
namespace ChatDialect.Vertex

open Chat (ChunkChoice CallFragment Delta FinishReason Step)

structure Stream where
  model : String
  id : String
  created : Int64
  ids : Ids
  emitted : Bool
  announced : Bool

namespace Stream

/-- A stream that has seen nothing; its id is a new one until the provider gives another. -/
def new (model : String) (now : Int64) (ids : Ids) : Stream :=
  let (id, ids) := ids.newResponse
  { model, id, created := now, ids, emitted := false, announced := false }

/-- The calls as pieces that open them, numbered from `index`, with new ids. -/
def openCalls (index : Nat) (ids : Ids) : List FunctionCall → List CallFragment × Ids
  | [] => ([], ids)
  | call :: calls =>
    let (id, ids) := ids.newToolCall
    let (rest, ids) := openCalls (index + 1) ids calls
    (.opening (UInt32.ofNat index) id call.name (Chat.Arguments.print call.args) :: rest, ids)

/-- The reason of a candidate that states one. -/
def statedFinish? (c : Candidate) : Option FinishReason :=
  (c.finishReason.filter (· ≠ "FINISH_REASON_UNSPECIFIED")).map reasonOf

/-- The choice of a candidate; one that says nothing has none. -/
def choice? (c : Candidate) (position : Nat) (ids : Ids) : Option ChunkChoice × Ids :=
  let (calls, ids) := openCalls 0 ids (callsOf c.parts)
  let delta : Delta :=
    { role := none
      content := Text.nonEmpty? (answerOf c.parts)
      reasoning := Text.nonEmpty? (reasoningOf c.parts)
      toolCalls := Chat.listed? calls
      images := Chat.listed? (imagesOf c.parts) }
  let finish := statedFinish? c
  if delta = Delta.empty ∧ finish = none then (none, ids)
  else (some { index := c.indexAt position, delta, finishReason := finish }, ids)

/-- The choices of the candidates from a position on. -/
def choicesFrom (position : Nat) (ids : Ids) : List Candidate → List ChunkChoice × Ids
  | [] => ([], ids)
  | c :: cs =>
    let (choice, ids) := choice? c position ids
    let (rest, ids) := choicesFrom (position + 1) ids cs
    (choice.toList ++ rest, ids)

/-- The choice of a payload that refuses the prompt. -/
def blockedChoice : ChunkChoice where
  index := 0
  delta := .empty
  finishReason := some .contentFilter

def announce (c : ChunkChoice) : ChunkChoice :=
  { c with delta := { c.delta with role := some "assistant" } }

/-- Until a chunk goes out, a response may still name the stream and its model. -/
def identify (s : Stream) (r : Response) : Stream :=
  if s.emitted then s
  else { s with
    id := (r.responseId.filter (· ≠ "")).getD s.id
    model := if s.model = "" then r.modelVersion.getD "" else s.model }

/-- Takes one response. -/
def response (s : Stream) (r : Response) : Stream × Step :=
  let s := s.identify r
  let (choices, ids) := choicesFrom 0 s.ids r.candidates
  let s := { s with ids }
  let choices :=
    if r.candidates.isEmpty ∧ r.blockReason?.isSome then [blockedChoice] else choices
  let usage := r.usage.map (·.toChat)
  if choices.isEmpty ∧ usage.isNone then (s, .skip)
  else
    let first := !s.announced && !choices.isEmpty
    let choices := if first then choices.map announce else choices
    ({ s with emitted := true, announced := s.announced || first },
      .one (.ofChoices s.id s.created s.model choices usage))

/-- Takes one payload; one that is no response says nothing. -/
def payload (s : Stream) (text : String) : Stream × Step :=
  if text = "[DONE]" then (s, .done)
  else match Response.codec.read (Utf8.ofString text) with
    | .ok r => s.response r
    | .error _ => (s, .skip)

end Stream

end ChatDialect.Vertex
