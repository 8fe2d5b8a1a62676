import ChatDialect.Json.Tagged

/-! Requests of the Anthropic Messages dialect. -/
namespace ChatDialect.Anthropic

open Json (Codec Field Fields Variant)

/-- A block of the system prompt. -/
inductive SystemBlock where
  | text (text : String)
  deriving DecidableEq, Repr

def SystemBlock.codec : Codec SystemBlock :=
  .tagged
    [.of "text" (.cons (.required "text" .string) .nil)
      (fun (s, ()) => .text s)
      (fun | .text s => some (s, ()))]
    none

inductive Role where
  | user
  | assistant
  deriving DecidableEq, Repr

namespace Role

def name : Role → String
  | .user => "user"
  | .assistant => "assistant"

def ofName? : String → Option Role
  | "user" => some .user
  | "assistant" => some .assistant
  | _ => none

def codec : Codec Role := .name ofName? name

end Role

/-- Where the bytes of an image or a document come from. -/
inductive MediaSource where
  | base64 (mediaType data : String)
  | url (url : String)
  deriving DecidableEq, Repr

def MediaSource.codec : Codec MediaSource :=
  .tagged
    [.of "base64"
        (.cons (.required "media_type" .string) <| .cons (.required "data" .string) .nil)
        (fun (mediaType, data, ()) => .base64 mediaType data)
        (fun
          | .base64 mediaType data => some (mediaType, data, ())
          | _ => none),
      .of "url" (.cons (.required "url" .string) .nil)
        (fun (u, ()) => .url u)
        (fun
          | .url u => some (u, ())
          | _ => none)]
    none

inductive ContentBlock where
  | text (text : String)
  | image (source : MediaSource)
  | document (source : MediaSource)
  | toolUse (id name : String) (input : Json)

def ContentBlock.codec : Codec ContentBlock :=
  .tagged
    [.of "text" (.cons (.required "text" .string) .nil)
        (fun (s, ()) => .text s)
        (fun
          | .text s => some (s, ())
          | _ => none),
      .of "image" (.cons (.required "source" MediaSource.codec) .nil)
        (fun (source, ()) => .image source)
        (fun
          | .image source => some (source, ())
          | _ => none),
      .of "document" (.cons (.required "source" MediaSource.codec) .nil)
        (fun (source, ()) => .document source)
        (fun
          | .document source => some (source, ())
          | _ => none),
      .of "tool_use"
        (.cons (.required "id" .string) <|
          .cons (.required "name" .string) <|
          .cons (.required "input" .value) .nil)
        (fun (id, name, input, ()) => .toolUse id name input)
        (fun
          | .toolUse id name input => some (id, name, input, ())
          | _ => none)]
    none

structure Message where
  role : Role
  content : List ContentBlock

def Message.codec : Codec Message :=
  .record
    (.cons (.required "role" Role.codec) <|
      .cons (.required "content" (.list ContentBlock.codec)) .nil)
    (fun (role, content, ()) => { role, content })
    (fun m => (m.role, m.content, ()))

structure Tool where
  name : String
  description : Option String
  inputSchema : Json

def Tool.codec : Codec Tool :=
  .record
    (.cons (.required "name" .string) <|
      .cons (.optionalInPlace "description" .string) <|
      .cons (.required "input_schema" .value) .nil)
    (fun (name, description, inputSchema, ()) => { name, description, inputSchema })
    (fun t => (t.name, t.description, t.inputSchema, ()))

structure Metadata where
  userId : Option String
  deriving DecidableEq, Repr

def Metadata.codec : Codec Metadata :=
  .record (.cons (.optionalInPlace "user_id" .string) .nil)
    (fun (userId, ()) => { userId })
    (fun m => (m.userId, ()))

structure Request where
  model : String
  maxTokens : UInt64
  messages : List Message
  system : List SystemBlock
  stream : Option Bool
  temperature : Option Double
  topP : Option Double
  tools : Option (List Tool)
  toolChoice : Option Json
  stopSequences : Option (List String)
  metadata : Option Metadata

def Request.codec : Codec Request :=
  .record
    (.cons (.required "model" .string) <|
      .cons (.required "max_tokens" .uint64) <|
      .cons (.required "messages" (.list Message.codec)) <|
      .cons
        { Field.withDefault "system" [] (.list SystemBlock.codec) with omitted := List.isEmpty } <|
      .cons (.optionalInPlace "stream" .bool) <|
      .cons (.optionalInPlace "temperature" .double) <|
      .cons (.optionalInPlace "top_p" .double) <|
      .cons (.optionalInPlace "tools" (.list Tool.codec)) <|
      .cons (.optionalInPlace "tool_choice" .value) <|
      .cons (.optionalInPlace "stop_sequences" (.list .string)) <|
      .cons (.optionalInPlace "metadata" Metadata.codec) .nil)
    (fun (model, maxTokens, messages, system, stream, temperature, topP, tools, toolChoice,
        stopSequences, metadata, ()) =>
      { model, maxTokens, messages, system, stream, temperature, topP, tools, toolChoice,
        stopSequences, metadata })
    (fun r => (r.model, r.maxTokens, r.messages, r.system, r.stream, r.temperature, r.topP, r.tools,
      r.toolChoice, r.stopSequences, r.metadata, ()))

end ChatDialect.Anthropic
