import ChatDialect.Chat.Response

/-! Chunks of a streamed response of the canonical dialect. -/
namespace ChatDialect.Chat

open Json (Codec Field Fields)

structure FunctionFragment where
  name : Option String
  arguments : Option String
  deriving DecidableEq, Repr

def FunctionFragment.codec : Codec FunctionFragment :=
  .record
    (.cons (.optionalInPlace "name" .string) <|
      .cons (.optionalInPlace "arguments" .string) .nil)
    (fun (name, arguments, ()) => { name, arguments })
    (fun f => (f.name, f.arguments, ()))

/-- A piece of a tool call; pieces with one index belong together. -/
structure CallFragment where
  index : UInt32
  id : Option String
  kind : Option String
  function : Option FunctionFragment
  deriving DecidableEq, Repr

namespace CallFragment

def codec : Codec CallFragment :=
  .record
    (.cons (.required "index" .uint32) <|
      .cons (.optionalInPlace "id" .string) <|
      .cons (.optionalInPlace "type" .string) <|
      .cons (.optionalInPlace "function" FunctionFragment.codec) .nil)
    (fun (index, id, kind, function, ()) => { index, id, kind, function })
    (fun c => (c.index, c.id, c.kind, c.function, ()))

/-- The piece that opens a call. -/
def opening (index : UInt32) (id name arguments : String) : CallFragment :=
  { index, id := some id, kind := some "function",
    function := some { name := some name, arguments := some arguments } }

/-- A piece that goes on with the arguments. -/
def continuing (index : UInt32) (arguments : String) : CallFragment :=
  { index, id := none, kind := none,
    function := some { name := none, arguments := some arguments } }

end CallFragment

/-- What a chunk adds to a choice. -/
structure Delta where
  role : Option String
  content : Option String
  reasoning : Option String
  toolCalls : Option (List CallFragment)
  images : Option (List Image)
  deriving DecidableEq, Repr

namespace Delta

def empty : Delta :=
  { role := none, content := none, reasoning := none, toolCalls := none, images := none }

def codec : Codec Delta :=
  .record
    (.cons (.optionalInPlace "role" .string) <|
      .cons (.optionalInPlace "content" .string) <|
      .cons (.optionalInPlace "reasoning_content" .string) <|
      .cons (.optionalInPlace "tool_calls" (.list CallFragment.codec)) <|
      .cons (.optionalInPlace "images" (.list Image.codec)) .nil)
    (fun (role, content, reasoning, toolCalls, images, ()) =>
      { role, content, reasoning, toolCalls, images })
    (fun d => (d.role, d.content, d.reasoning, d.toolCalls, d.images, ()))

end Delta

structure ChunkChoice where
  index : UInt32
  delta : Delta
  finishReason : Option FinishReason
  deriving DecidableEq, Repr

def ChunkChoice.codec : Codec ChunkChoice :=
  .record
    (.cons (.required "index" .uint32) <|
      .cons (.required "delta" Delta.codec) <|
      .cons (.nullableInPlace "finish_reason" FinishReason.codec) .nil)
    (fun (index, delta, finishReason, ()) => { index, delta, finishReason })
    (fun c => (c.index, c.delta, c.finishReason, ()))

structure Chunk where
  id : String
  object : String
  created : Int64
  model : String
  choices : List ChunkChoice
  usage : Option Usage
  deriving DecidableEq, Repr

namespace Chunk

def codec : Codec Chunk :=
  .record
    (.cons (.required "id" .string) <|
      .cons (.required "object" .string) <|
      .cons (.withDefault "created" 0 .int64) <|
      .cons (.required "model" .string) <|
      .cons (.required "choices" (.list ChunkChoice.codec)) <|
      .cons (.optionalInPlace "usage" Usage.codec) .nil)
    (fun (id, object, created, model, choices, usage, ()) =>
      { id, object, created, model, choices, usage })
    (fun c => (c.id, c.object, c.created, c.model, c.choices, c.usage, ()))

/-- A chunk of a stream. -/
def ofChoices (id : String) (created : Int64) (model : String) (choices : List ChunkChoice)
    (usage : Option Usage) : Chunk :=
  { id, object := "chat.completion.chunk", created, model, choices, usage }

end Chunk

end ChatDialect.Chat
