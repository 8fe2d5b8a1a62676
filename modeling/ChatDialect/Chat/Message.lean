import ChatDialect.Json.Tagged
import ChatDialect.Text.Ascii

/-!
Messages of the canonical dialect. The content blocks of a message never fail to read: a block of
an unknown type, or without a usable payload, is ignored.
-/
namespace ChatDialect.Chat

open Json (Codec Field Fields)

inductive Role where
  | system
  | developer
  | user
  | assistant
  | tool
  deriving DecidableEq, Repr

namespace Role

def name : Role → String
  | .system => "system"
  | .developer => "developer"
  | .user => "user"
  | .assistant => "assistant"
  | .tool => "tool"

def ofName? : String → Option Role
  | "system" => some .system
  | "developer" => some .developer
  | "user" => some .user
  | "assistant" => some .assistant
  | "tool" => some .tool
  | _ => none

def codec : Codec Role := .name ofName? name

/-- System and developer messages carry instructions and are no turns of the conversation. -/
def isInstruction : Role → Bool
  | .system => true
  | .developer => true
  | _ => false

end Role

/-- A reference to an image or a video. -/
structure MediaUrl where
  url : String
  detail : Option String
  format : Option String
  deriving DecidableEq, Repr

namespace MediaUrl

def codec : Codec MediaUrl :=
  .record
    (.cons (.required "url" .string) <|
      .cons (.optional "detail" .string) <|
      .cons (.optional "format" .string) .nil)
    (fun (url, detail, format, ()) => { url, detail, format })
    (fun m => (m.url, m.detail, m.format, ()))

/-- Reads the payload of a block, which may be the bare URL. -/
def ofJson? : Json → Option MediaUrl
  | .str url => some { url, detail := none, format := none }
  | .obj fields => codec.ofJson? (.obj fields)
  | _ => none

end MediaUrl

structure Audio where
  data : String
  format : String
  deriving DecidableEq, Repr

def Audio.codec : Codec Audio :=
  .record
    (.cons (.required "data" .string) <|
      .cons (.withDefault "format" "" .string) .nil)
    (fun (data, format, ()) => { data, format })
    (fun a => (a.data, a.format, ()))

structure FileRef where
  fileId : Option String
  fileData : Option String
  filename : Option String
  format : Option String
  deriving DecidableEq, Repr

namespace FileRef

def codec : Codec FileRef :=
  .record
    (.cons (.optional "file_id" .string) <|
      .cons (.optional "file_data" .string) <|
      .cons (.optional "filename" .string) <|
      .cons (.optional "format" .string) .nil)
    (fun (fileId, fileData, filename, format, ()) => { fileId, fileData, filename, format })
    (fun f => (f.fileId, f.fileData, f.filename, f.format, ()))

/-- Where the file is: its data if given, else its id; an empty one is none. -/
def url? (f : FileRef) : Option String := (f.fileData.or f.fileId).filter (· ≠ "")

end FileRef

/-- A block of message content. -/
inductive Block where
  | text (text : String)
  | image (url : MediaUrl)
  | audio (audio : Audio)
  | video (url : MediaUrl)
  | file (file : FileRef)
  | ignored (kind : String)
  deriving DecidableEq, Repr

namespace Block

def decoded? (kind : String) (j : Json) : Option Block :=
  if kind = "text" then (j.get? "text").bind fun v => v.str?.map .text
  else if kind = "image_url" then (j.get? "image_url").bind fun v => (MediaUrl.ofJson? v).map .image
  else if kind = "video_url" then (j.get? "video_url").bind fun v => (MediaUrl.ofJson? v).map .video
  else if kind = "input_audio" then
    (j.get? "input_audio").bind fun v => (Audio.codec.ofJson? v).map .audio
  else if kind = "file" then (j.get? "file").bind fun v => (FileRef.codec.ofJson? v).map .file
  else none

/-- The type that a block states. -/
def kindOf (j : Json) : String := j.textAt "type"

def ofJson (j : Json) : Block := (decoded? (kindOf j) j).getD (.ignored (kindOf j))

/-- The written form of a block; an ignored one has none. -/
def encode : Block → Option Json
  | .text s => some (.obj [("type", .str "text"), ("text", .str s)])
  | .image m => (MediaUrl.codec.encode m).map fun j =>
      .obj [("type", .str "image_url"), ("image_url", j)]
  | .audio a => (Audio.codec.encode a).map fun j =>
      .obj [("type", .str "input_audio"), ("input_audio", j)]
  | .video m => (MediaUrl.codec.encode m).map fun j =>
      .obj [("type", .str "video_url"), ("video_url", j)]
  | .file f => (FileRef.codec.encode f).map fun j =>
      .obj [("type", .str "file"), ("file", j)]
  | .ignored _ => none

def codec : Codec Block := .buffered (fun j => some (ofJson j.normalize)) encode

end Block

/-- What a message says: a text, blocks, or something else that is kept but says nothing. -/
inductive Content where
  | text (text : String)
  | blocks (blocks : List Block)
  | other (value : Json)

namespace Content

def ofJson : Json → Content
  | .str s => .text s
  | .arr items => .blocks (items.map Block.ofJson)
  | j => .other j

def encode : Content → Option Json
  | .text s => some (.str s)
  | .blocks bs => (bs.mapM Block.encode).map .arr
  | .other value => some value

def codec : Codec Content := .buffered (fun j => some (ofJson j.normalize)) encode

/-- The text of a block, unless it is empty. -/
def blockText? : Block → Option String
  | .text s => Text.nonEmpty? s
  | _ => none

/-- The pieces of text in order, without empty ones. -/
def fragments : Option Content → List String
  | some (.text s) => (Text.nonEmpty? s).toList
  | some (.blocks bs) => bs.filterMap blockText?
  | some (.other _) => []
  | none => []

/-- The pieces of text with a separator between them. -/
def joined (content : Option Content) (separator : String) : String :=
  separator.intercalate (fragments content)

end Content

/-- A call of a function; its arguments are a JSON text. -/
structure FunctionCall where
  name : String
  arguments : String
  deriving DecidableEq, Repr

namespace FunctionCall

/-- The arguments as text: a string as it is, nothing for `null`, any other value written out. -/
def argumentsOf : Json → String
  | .str s => s
  | .null => ""
  | j => j.text

def arguments.codec : Codec String where
  decode src t := do
    let j ← Codec.value.decode src t
    return argumentsOf j
  encode s := some (.str s)

def codec : Codec FunctionCall :=
  .record
    (.cons (.required "name" .string) <|
      .cons (.withDefault "arguments" "" arguments.codec) .nil)
    (fun (name, arguments, ()) => { name, arguments })
    (fun c => (c.name, c.arguments, ()))

end FunctionCall

structure ToolCall where
  id : String
  kind : String
  function : FunctionCall
  deriving DecidableEq, Repr

namespace ToolCall

def codec : Codec ToolCall :=
  .record
    (.cons (.withDefault "id" "" .string) <|
      .cons (.withDefault "type" "function" .string) <|
      .cons (.required "function" FunctionCall.codec) .nil)
    (fun (id, kind, function, ()) => { id, kind, function })
    (fun c => (c.id, c.kind, c.function, ()))

/-- A call of a function under an id. -/
def ofFunction (id name arguments : String) : ToolCall :=
  { id, kind := "function", function := { name, arguments } }

end ToolCall

structure Message where
  role : Role
  content : Option Content
  toolCalls : Option (List ToolCall)
  toolCallId : Option String
  name : Option String

namespace Message

def codec : Codec Message :=
  .record
    (.cons (.required "role" Role.codec) <|
      .cons (.optional "content" Content.codec) <|
      .cons (.optional "tool_calls" (.list ToolCall.codec)) <|
      .cons (.optional "tool_call_id" .string) <|
      .cons (.optional "name" .string) .nil)
    (fun (role, content, toolCalls, toolCallId, name, ()) =>
      { role, content, toolCalls, toolCallId, name })
    (fun m => (m.role, m.content, m.toolCalls, m.toolCallId, m.name, ()))

/-- A message that says a text. -/
def ofText (role : Role) (text : String) : Message :=
  { role, content := some (.text text), toolCalls := none, toolCallId := none, name := none }

end Message

end ChatDialect.Chat
