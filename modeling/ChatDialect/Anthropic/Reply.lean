import ChatDialect.Json.Tagged

/-! Responses of the Anthropic Messages dialect. -/
namespace ChatDialect.Anthropic

open Json (Codec Field Fields Variant)

structure Usage where
  inputTokens : UInt64
  outputTokens : UInt64
  cacheCreationTokens : Option UInt64
  cacheReadTokens : Option UInt64
  deriving DecidableEq, Repr

namespace Usage

def zero : Usage :=
  { inputTokens := 0, outputTokens := 0, cacheCreationTokens := none, cacheReadTokens := none }

def codec : Codec Usage :=
  .record
    (.cons (.withDefault "input_tokens" 0 .uint64) <|
      .cons (.withDefault "output_tokens" 0 .uint64) <|
      .cons (.optionalInPlace "cache_creation_input_tokens" .uint64) <|
      .cons (.optionalInPlace "cache_read_input_tokens" .uint64) .nil)
    (fun (inputTokens, outputTokens, cacheCreationTokens, cacheReadTokens, ()) =>
      { inputTokens, outputTokens, cacheCreationTokens, cacheReadTokens })
    (fun u => (u.inputTokens, u.outputTokens, u.cacheCreationTokens, u.cacheReadTokens, ()))

end Usage

/-- A block of a response; `unsupported` stands for every type that is not known here. -/
inductive ReplyBlock where
  | text (text : String)
  | toolUse (id name : String) (input : Json)
  | thinking (thinking : String)
  | unsupported

namespace ReplyBlock

def isUnsupported : ReplyBlock → Bool
  | .unsupported => true
  | _ => false

def codec : Codec ReplyBlock :=
  .tagged
    [.of "text" (.cons (.required "text" .string) .nil)
        (fun (s, ()) => .text s)
        (fun
          | .text s => some (s, ())
          | _ => none),
      .of "tool_use"
        (.cons (.required "id" .string) <|
          .cons (.required "name" .string) <|
          .cons (.withDefault "input" .null .value) .nil)
        (fun (id, name, input, ()) => .toolUse id name input)
        (fun
          | .toolUse id name input => some (id, name, input, ())
          | _ => none),
      .of "thinking" (.cons (.withDefault "thinking" "" .string) .nil)
        (fun (s, ()) => .thinking s)
        (fun
          | .thinking s => some (s, ())
          | _ => none)]
    (some (.unit "Unsupported" .unsupported isUnsupported))

end ReplyBlock

structure Response where
  id : String
  kind : String
  role : String
  content : List ReplyBlock
  model : String
  stopReason : Option String
  stopSequence : Option String
  usage : Usage

def Response.codec : Codec Response :=
  .record
    (.cons (.withDefault "id" "" .string) <|
      .cons (.withDefault "type" "" .string) <|
      .cons (.withDefault "role" "" .string) <|
      .cons (.withDefault "content" [] (.list ReplyBlock.codec)) <|
      .cons (.withDefault "model" "" .string) <|
      .cons (.nullable "stop_reason" .string) <|
      .cons (.nullable "stop_sequence" .string) <|
      .cons (.withDefault "usage" Usage.zero Usage.codec) .nil)
    (fun (id, kind, role, content, model, stopReason, stopSequence, usage, ()) =>
      { id, kind, role, content, model, stopReason, stopSequence, usage })
    (fun r => (r.id, r.kind, r.role, r.content, r.model, r.stopReason, r.stopSequence, r.usage, ()))

end ChatDialect.Anthropic
