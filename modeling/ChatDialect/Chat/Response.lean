import ChatDialect.Chat.Message

/-! Chat responses of the canonical dialect. -/
namespace ChatDialect.Chat

open Json (Codec Field Fields)

/-- Why a model stopped. -/
inductive FinishReason where
  | stop
  | length
  | contentFilter
  | toolCalls
  deriving DecidableEq, Repr

namespace FinishReason

def name : FinishReason → String
  | .stop => "stop"
  | .length => "length"
  | .contentFilter => "content_filter"
  | .toolCalls => "tool_calls"

/-- Reads a reason; an unknown one is an ordinary stop. -/
def ofName : String → FinishReason
  | "length" => .length
  | "content_filter" => .contentFilter
  | "tool_calls" => .toolCalls
  | "function_call" => .toolCalls
  | _ => .stop

def codec : Codec FinishReason where
  decode src t := do
    let s ← Codec.string.decode src t
    return ofName s
  encode r := some (.str r.name)

end FinishReason

structure PromptDetails where
  cachedTokens : Option UInt64
  audioTokens : Option UInt64
  deriving DecidableEq, Repr

def PromptDetails.codec : Codec PromptDetails :=
  .record
    (.cons (.optional "cached_tokens" .uint64) <|
      .cons (.optional "audio_tokens" .uint64) .nil)
    (fun (cachedTokens, audioTokens, ()) => { cachedTokens, audioTokens })
    (fun d => (d.cachedTokens, d.audioTokens, ()))

structure CompletionDetails where
  reasoningTokens : Option UInt64
  audioTokens : Option UInt64
  imageTokens : Option UInt64
  deriving DecidableEq, Repr

def CompletionDetails.codec : Codec CompletionDetails :=
  .record
    (.cons (.optional "reasoning_tokens" .uint64) <|
      .cons (.optional "audio_tokens" .uint64) <|
      .cons (.optional "image_tokens" .uint64) .nil)
    (fun (reasoningTokens, audioTokens, imageTokens, ()) =>
      { reasoningTokens, audioTokens, imageTokens })
    (fun d => (d.reasoningTokens, d.audioTokens, d.imageTokens, ()))

/-- Tokens spent. -/
structure Usage where
  promptTokens : UInt64
  completionTokens : UInt64
  totalTokens : UInt64
  promptDetails : Option PromptDetails
  completionDetails : Option CompletionDetails
  deriving DecidableEq, Repr

def Usage.codec : Codec Usage :=
  .record
    (.cons (.withDefault "prompt_tokens" 0 .uint64) <|
      .cons (.withDefault "completion_tokens" 0 .uint64) <|
      .cons (.withDefault "total_tokens" 0 .uint64) <|
      .cons (.optional "prompt_tokens_details" PromptDetails.codec) <|
      .cons (.optional "completion_tokens_details" CompletionDetails.codec) .nil)
    (fun (promptTokens, completionTokens, totalTokens, promptDetails, completionDetails, ()) =>
      { promptTokens, completionTokens, totalTokens, promptDetails, completionDetails })
    (fun u => (u.promptTokens, u.completionTokens, u.totalTokens, u.promptDetails,
      u.completionDetails, ()))

/-- A generated image: its bytes in base64, or where it is. -/
structure Image where
  b64Json : Option String
  url : Option String
  mimeType : Option String
  revisedPrompt : Option String
  deriving DecidableEq, Repr

namespace Image

def codec : Codec Image :=
  .record
    (.cons (.optional "b64_json" .string) <|
      .cons (.optional "url" .string) <|
      .cons (.optional "mime_type" .string) <|
      .cons (.optional "revised_prompt" .string) .nil)
    (fun (b64Json, url, mimeType, revisedPrompt, ()) => { b64Json, url, mimeType, revisedPrompt })
    (fun i => (i.b64Json, i.url, i.mimeType, i.revisedPrompt, ()))

def inline (data : String) (mimeType : Option String) : Image :=
  { b64Json := some data, url := none, mimeType, revisedPrompt := none }

def remote (url : String) (mimeType : Option String) : Image :=
  { b64Json := none, url := some url, mimeType, revisedPrompt := none }

end Image

/-- A list as an optional field, which is left out when the list is empty. -/
def listed? {α : Type} (xs : List α) : Option (List α) := if xs.isEmpty then none else some xs

/-- What the model says in one choice. -/
structure Reply where
  role : String
  content : Option String
  reasoning : Option String
  images : Option (List Image)
  toolCalls : Option (List ToolCall)
  deriving DecidableEq, Repr

def Reply.codec : Codec Reply :=
  .record
    (.cons (.required "role" .string) <|
      .cons (.nullable "content" .string) <|
      .cons (.optional "reasoning_content" .string) <|
      .cons (.optional "images" (.list Image.codec)) <|
      .cons (.optional "tool_calls" (.list ToolCall.codec)) .nil)
    (fun (role, content, reasoning, images, toolCalls, ()) =>
      { role, content, reasoning, images, toolCalls })
    (fun r => (r.role, r.content, r.reasoning, r.images, r.toolCalls, ()))

structure Choice where
  index : UInt32
  message : Reply
  finishReason : Option FinishReason
  deriving DecidableEq, Repr

def Choice.codec : Codec Choice :=
  .record
    (.cons (.required "index" .uint32) <|
      .cons (.required "message" Reply.codec) <|
      .cons (.nullableInPlace "finish_reason" FinishReason.codec) .nil)
    (fun (index, message, finishReason, ()) => { index, message, finishReason })
    (fun c => (c.index, c.message, c.finishReason, ()))

structure Response where
  id : String
  object : String
  created : Int64
  model : String
  choices : List Choice
  usage : Option Usage
  deriving DecidableEq, Repr

def Response.codec : Codec Response :=
  .record
    (.cons (.required "id" .string) <|
      .cons (.required "object" .string) <|
      .cons (.withDefault "created" 0 .int64) <|
      .cons (.required "model" .string) <|
      .cons (.required "choices" (.list Choice.codec)) <|
      .cons (.optionalInPlace "usage" Usage.codec) .nil)
    (fun (id, object, created, model, choices, usage, ()) =>
      { id, object, created, model, choices, usage })
    (fun r => (r.id, r.object, r.created, r.model, r.choices, r.usage, ()))

end ChatDialect.Chat
