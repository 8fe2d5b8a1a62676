import ChatDialect.Anthropic.Reply

/-! Events of a streamed response of the Anthropic Messages dialect. -/
namespace ChatDialect.Anthropic

open Json (Codec Field Fields Variant)

/-- The message that a stream announces. -/
structure StreamMessage where
  id : String
  model : String
  usage : Option Usage
  deriving DecidableEq, Repr

def StreamMessage.codec : Codec StreamMessage :=
  .record
    (.cons (.withDefault "id" "" .string) <|
      .cons (.withDefault "model" "" .string) <|
      .cons (.nullable "usage" Usage.codec) .nil)
    (fun (id, model, usage, ()) => { id, model, usage })
    (fun m => (m.id, m.model, m.usage, ()))

/-- The block that a stream begins. -/
inductive StreamBlock where
  | toolUse (id name : String)
  | other
  deriving DecidableEq, Repr

def StreamBlock.codec : Codec StreamBlock :=
  .tagged
    [.of "tool_use" (.cons (.required "id" .string) <| .cons (.required "name" .string) .nil)
      (fun (id, name, ()) => .toolUse id name)
      (fun
        | .toolUse id name => some (id, name, ())
        | _ => none)]
    (some (.unit "Other" .other (· == .other)))

/-- What a stream adds to a block. -/
inductive BlockDelta where
  | text (text : String)
  | inputJson (partialJson : String)
  | thinking (thinking : String)
  | other
  deriving DecidableEq, Repr

def BlockDelta.codec : Codec BlockDelta :=
  .tagged
    [.of "text_delta" (.cons (.required "text" .string) .nil)
        (fun (s, ()) => .text s)
        (fun
          | .text s => some (s, ())
          | _ => none),
      .of "input_json_delta" (.cons (.required "partial_json" .string) .nil)
        (fun (s, ()) => .inputJson s)
        (fun
          | .inputJson s => some (s, ())
          | _ => none),
      .of "thinking_delta" (.cons (.required "thinking" .string) .nil)
        (fun (s, ()) => .thinking s)
        (fun
          | .thinking s => some (s, ())
          | _ => none)]
    (some (.unit "Other" .other (· == .other)))

/-- How a streamed message ends. -/
structure MessageDelta where
  stopReason : Option String
  stopSequence : Option String
  deriving DecidableEq, Repr

def MessageDelta.codec : Codec MessageDelta :=
  .record
    (.cons (.nullable "stop_reason" .string) <|
      .cons (.nullable "stop_sequence" .string) .nil)
    (fun (stopReason, stopSequence, ()) => { stopReason, stopSequence })
    (fun d => (d.stopReason, d.stopSequence, ()))

structure DeltaUsage where
  inputTokens : Option UInt64
  outputTokens : UInt64
  cacheReadTokens : Option UInt64
  deriving DecidableEq, Repr

def DeltaUsage.codec : Codec DeltaUsage :=
  .record
    (.cons (.nullable "input_tokens" .uint64) <|
      .cons (.withDefault "output_tokens" 0 .uint64) <|
      .cons (.nullable "cache_read_input_tokens" .uint64) .nil)
    (fun (inputTokens, outputTokens, cacheReadTokens, ()) =>
      { inputTokens, outputTokens, cacheReadTokens })
    (fun u => (u.inputTokens, u.outputTokens, u.cacheReadTokens, ()))

/-- An event; `unknown` stands for every type that is not known here. -/
inductive Event where
  | messageStart (message : StreamMessage)
  | blockStart (index : UInt64) (block : StreamBlock)
  | blockDelta (index : UInt64) (delta : BlockDelta)
  | blockStop (index : UInt64)
  | messageDelta (delta : MessageDelta) (usage : Option DeltaUsage)
  | messageStop
  | ping
  | unknown
  deriving DecidableEq, Repr

namespace Event

def name : Event → String
  | .messageStart _ => "message_start"
  | .blockStart _ _ => "content_block_start"
  | .blockDelta _ _ => "content_block_delta"
  | .blockStop _ => "content_block_stop"
  | .messageDelta _ _ => "message_delta"
  | .messageStop => "message_stop"
  | .ping => "ping"
  | .unknown => "unknown"

def codec : Codec Event :=
  .tagged
    [.of "message_start" (.cons (.required "message" StreamMessage.codec) .nil)
        (fun (message, ()) => .messageStart message)
        (fun
          | .messageStart message => some (message, ())
          | _ => none),
      .of "content_block_start"
        (.cons (.required "index" .uint64) <|
          .cons (.required "content_block" StreamBlock.codec) .nil)
        (fun (index, block, ()) => .blockStart index block)
        (fun
          | .blockStart index block => some (index, block, ())
          | _ => none),
      .of "content_block_delta"
        (.cons (.required "index" .uint64) <|
          .cons (.required "delta" BlockDelta.codec) .nil)
        (fun (index, delta, ()) => .blockDelta index delta)
        (fun
          | .blockDelta index delta => some (index, delta, ())
          | _ => none),
      .of "content_block_stop" (.cons (.required "index" .uint64) .nil)
        (fun (index, ()) => .blockStop index)
        (fun
          | .blockStop index => some (index, ())
          | _ => none),
      .of "message_delta"
        (.cons (.required "delta" MessageDelta.codec) <|
          .cons (.nullable "usage" DeltaUsage.codec) .nil)
        (fun (delta, usage, ()) => .messageDelta delta usage)
        (fun
          | .messageDelta delta usage => some (delta, usage, ())
          | _ => none),
      .unit "message_stop" .messageStop (· == .messageStop),
      .unit "ping" .ping (· == .ping)]
    (some (.unit "Unknown" .unknown (· == .unknown)))

end Event

end ChatDialect.Anthropic
