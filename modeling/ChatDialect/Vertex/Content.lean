import ChatDialect.Json.Tagged

/-! Content of the Vertex dialect: turns made of parts. -/
namespace ChatDialect.Vertex

open Json (Codec Field Fields)

/-- Bytes in base64. -/
structure Blob where
  mimeType : String
  data : String
  deriving DecidableEq, Repr

def Blob.codec : Codec Blob :=
  .record
    (.cons (.withDefault "mimeType" "" .string) <|
      .cons (.withDefault "data" "" .string) .nil)
    (fun (mimeType, data, ()) => { mimeType, data })
    (fun b => (b.mimeType, b.data, ()))

/-- A reference to a file. -/
structure FileUri where
  mimeType : String
  uri : String
  deriving DecidableEq, Repr

def FileUri.codec : Codec FileUri :=
  .record
    (.cons (.withDefault "mimeType" "" .string) <|
      .cons (.required "fileUri" .string) .nil)
    (fun (mimeType, uri, ()) => { mimeType, uri })
    (fun f => (f.mimeType, f.uri, ()))

structure FunctionCall where
  name : String
  args : Json

def FunctionCall.codec : Codec FunctionCall :=
  .record
    (.cons (.withDefault "name" "" .string) <|
      .cons (.withDefault "args" .null .value) .nil)
    (fun (name, args, ()) => { name, args })
    (fun c => (c.name, c.args, ()))

/-- A part carries one payload as a rule; `thought` marks text as reasoning. -/
structure Part where
  text : Option String
  thought : Option Bool
  inlineData : Option Blob
  fileData : Option FileUri
  functionCall : Option FunctionCall
  functionResponse : Option Json
  thoughtSignature : Option String

namespace Part

def empty : Part :=
  { text := none, thought := none, inlineData := none, fileData := none, functionCall := none,
    functionResponse := none, thoughtSignature := none }

def codec : Codec Part :=
  .record
    (.cons (.optional "text" .string) <|
      .cons (.optional "thought" .bool) <|
      .cons (.optional "inlineData" Blob.codec) <|
      .cons (.optional "fileData" FileUri.codec) <|
      .cons (.optional "functionCall" FunctionCall.codec) <|
      .cons (.optional "functionResponse" .value) <|
      .cons (.optional "thoughtSignature" .string) .nil)
    (fun (text, thought, inlineData, fileData, functionCall, functionResponse, thoughtSignature,
        ()) =>
      ⟨text, thought, inlineData, fileData, functionCall, functionResponse, thoughtSignature⟩)
    (fun p => (p.text, p.thought, p.inlineData, p.fileData, p.functionCall, p.functionResponse,
      p.thoughtSignature, ()))

def ofText (s : String) : Part := { empty with text := some s }

def ofBlob (mimeType data : String) : Part := { empty with inlineData := some ⟨mimeType, data⟩ }

def ofFile (mimeType uri : String) : Part := { empty with fileData := some ⟨mimeType, uri⟩ }

def ofCall (name : String) (args : Json) : Part := { empty with functionCall := some ⟨name, args⟩ }

def isThought (p : Part) : Bool := p.thought.getD false

end Part

structure Content where
  role : Option String
  parts : List Part

def Content.codec : Codec Content :=
  .record
    (.cons (.optional "role" .string) <|
      .cons (.withDefault "parts" [] (.list Part.codec)) .nil)
    (fun (role, parts, ()) => { role, parts })
    (fun c => (c.role, c.parts, ()))

end ChatDialect.Vertex
