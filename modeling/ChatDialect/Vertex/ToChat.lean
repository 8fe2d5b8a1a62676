import ChatDialect.Chat.Arguments
import ChatDialect.Chat.Response
import ChatDialect.Ids
import ChatDialect.Media.Url
import ChatDialect.Vertex.Reply

/-! Responses of the Vertex dialect as chat responses. -/
namespace ChatDialect.Vertex

open Chat (FinishReason)

def truncatedPlaceholder : String := "[Response truncated due to max tokens limit]"

def emptyPlaceholder : String := "[No content generated]"

/-- The content of an answer that has none. -/
def placeholder : FinishReason → String
  | .length => truncatedPlaceholder
  | _ => emptyPlaceholder

def reasonOf : String → FinishReason
  | "MAX_TOKENS" => .length
  | "SAFETY" => .contentFilter
  | "RECITATION" => .contentFilter
  | "BLOCKLIST" => .contentFilter
  | "PROHIBITED_CONTENT" => .contentFilter
  | "SPII" => .contentFilter
  | "IMAGE_SAFETY" => .contentFilter
  | "IMAGE_PROHIBITED_CONTENT" => .contentFilter
  | "TOOL_CALL" => .toolCalls
  | _ => .stop

/-- The text that a part says. -/
def Part.answer? (p : Part) : Option String := if p.isThought then none else p.text

/-- The text that a part thinks. -/
def Part.reasoning? (p : Part) : Option String := if p.isThought then p.text else none

/-- Inline data as an image; data that is no base64 is none. -/
def Blob.image? (b : Blob) : Option Chat.Image :=
  (Media.normalizeBase64 b.data).map fun data => .inline data (Text.nonEmpty? b.mimeType)

def FileUri.image (f : FileUri) : Chat.Image := .remote f.uri (Text.nonEmpty? f.mimeType)

/-- The images of a part: inline data, then a reference. -/
def Part.images (p : Part) : List Chat.Image :=
  (p.inlineData.bind (·.image?)).toList ++ (p.fileData.map (·.image)).toList

def answerOf (parts : List Part) : String := String.join (parts.filterMap (·.answer?))

def reasoningOf (parts : List Part) : String := String.join (parts.filterMap (·.reasoning?))

def imagesOf (parts : List Part) : List Chat.Image := parts.flatMap (·.images)

def callsOf (parts : List Part) : List FunctionCall := parts.filterMap (·.functionCall)

/-- The calls with new ids. -/
def nameCalls (ids : Ids) : List FunctionCall → List Chat.ToolCall × Ids
  | [] => ([], ids)
  | call :: calls =>
    let (id, ids) := ids.newToolCall
    let (rest, ids) := nameCalls ids calls
    (.ofFunction id call.name (Chat.Arguments.print call.args) :: rest, ids)

/-- The tokens counted for a modality, none if it does not occur. -/
def modalityTokens (details : List ModalityCount) (modality : String) : Option UInt64 :=
  match (details.filter fun d => Text.sameLetters d.modality modality).map (·.tokens) with
  | [] => none
  | n :: ns => some (ns.foldl (· + ·) n)

/-- Thoughts are billed as output, so they count as completion and once more as a detail of it. -/
def Usage.toChat (u : Usage) : Chat.Usage :=
  let completion := u.candidateTokens + u.thoughtTokens.getD 0
  let promptAudio := modalityTokens u.promptDetails "AUDIO"
  let audio := modalityTokens u.candidateDetails "AUDIO"
  let image := modalityTokens u.candidateDetails "IMAGE"
  { promptTokens := u.promptTokens
    completionTokens := completion
    totalTokens := u.totalTokens.getD (u.promptTokens + completion)
    promptDetails :=
      if u.cachedTokens.isSome || promptAudio.isSome then
        some { cachedTokens := u.cachedTokens, audioTokens := promptAudio }
      else none
    completionDetails :=
      if u.thoughtTokens.isSome || audio.isSome || image.isSome then
        some { reasoningTokens := u.thoughtTokens, audioTokens := audio, imageTokens := image }
      else none }

/-- What a choice says: the answer, or a placeholder if there is nothing else either. -/
def contentOf (parts : List Part) (finish : FinishReason) : String :=
  if answerOf parts = "" ∧ imagesOf parts = [] ∧ (callsOf parts).isEmpty then placeholder finish
  else answerOf parts

def Candidate.finish (c : Candidate) : FinishReason := (c.finishReason.map reasonOf).getD .stop

/-- The index of the candidate at a position. -/
def Candidate.indexAt (c : Candidate) (position : Nat) : UInt32 :=
  c.index.getD (UInt32.ofNat position)

def Candidate.choice (c : Candidate) (position : Nat) (ids : Ids) : Chat.Choice × Ids :=
  let (calls, ids) := nameCalls ids (callsOf c.parts)
  ({ index := c.indexAt position
     message := {
       role := "assistant"
       content := some (contentOf c.parts c.finish)
       reasoning := Text.nonEmpty? (reasoningOf c.parts)
       images := Chat.listed? (imagesOf c.parts)
       toolCalls := Chat.listed? calls }
     finishReason := some c.finish }, ids)

/-- The choices of the candidates from a position on. -/
def choicesFrom (position : Nat) (ids : Ids) : List Candidate → List Chat.Choice × Ids
  | [] => ([], ids)
  | c :: cs =>
    let (choice, ids) := c.choice position ids
    let (rest, ids) := choicesFrom (position + 1) ids cs
    (choice :: rest, ids)

/-- The choice of a response without candidates. -/
def emptyChoice (blocked : Bool) : Chat.Choice where
  index := 0
  message := {
    role := "assistant", content := some emptyPlaceholder, reasoning := none, images := none,
    toolCalls := none }
  finishReason := some (if blocked then .contentFilter else .stop)

/-- The chat response, at a given time; the tool calls get new ids, and so does a response without
an id. -/
def Response.toChat (r : Response) (model : String) (now : Int64) (ids : Ids) :
    Chat.Response × Ids :=
  let (id, ids) := match r.responseId with
    | some id => (id, ids)
    | none => ids.newResponse
  let (choices, ids) := choicesFrom 0 ids r.candidates
  ({ id
     object := "chat.completion"
     created := now
     model := targetModel model (r.modelVersion.getD "")
     choices := if choices.isEmpty then [emptyChoice r.blockReason?.isSome] else choices
     usage := r.usage.map (·.toChat) }, ids)

end ChatDialect.Vertex
