import ChatDialect.Anthropic.FromChat
import ChatDialect.Anthropic.Stream
import ChatDialect.Failure
import ChatDialect.Sse.Buffers
import ChatDialect.Sse.Relay
import ChatDialect.Vertex.Images
import ChatDialect.Vertex.Stream

/-! Whole payloads between the canonical dialect and the dialects of the providers. -/
namespace ChatDialect

open Json (Codec)

/-- Reads a whole payload. -/
def Payload.read {α : Type} (payload : Payload) (c : Codec α) (body : List UInt8) :
    Except Failure α :=
  (c.read body).mapError (.parse payload)

/-- Writes a whole payload. -/
def writeBody {α : Type} (c : Codec α) (x : α) : Except Failure (List UInt8) :=
  match c.write x with
  | some bytes => .ok bytes
  | none => .error .unwritable

namespace Provider

/-- A chat request for a provider; `model` takes the place of the model asked for unless empty. -/
def writeRequest (p : Provider) (body : List UInt8) (model : String) :
    Except Failure (List UInt8) := do
  let r ← Payload.chatRequest.read Chat.Request.codec body
  match p with
  | .anthropic => writeBody Anthropic.Request.codec (Anthropic.Request.ofChat r model)
  | .vertex => writeBody Vertex.Request.codec (Vertex.Request.ofChat r model)

/-- A response of a provider as a chat response. -/
def readResponse (p : Provider) (body : List UInt8) (model : String) (now : Int64) (ids : Ids) :
    Except Failure (List UInt8) :=
  match p with
  | .anthropic => do
    let r ← Payload.anthropicResponse.read Anthropic.Response.codec body
    writeBody Chat.Response.codec (r.toChat model now)
  | .vertex => do
    let r ← Payload.vertexResponse.read Vertex.Response.codec body
    writeBody Chat.Response.codec (r.toChat model now ids).1

/-- An image request for a provider. -/
def writeImageRequest (p : Provider) (body : List UInt8) (model : String) :
    Except Failure (List UInt8) :=
  match p with
  | .anthropic => .error (.noImages p)
  | .vertex => do
    let r ← Payload.imageRequest.read Chat.ImageRequest.codec body
    let model := targetModel model (r.model.getD "")
    if Vertex.isGeminiModel model then
      writeBody Vertex.Request.codec (Vertex.Request.ofChat (Vertex.imageChat r model) model)
    else writeBody Vertex.PredictRequest.codec (Vertex.PredictRequest.ofChat r)

/-- A response of a provider to an image request. -/
def readImageResponse (p : Provider) (body : List UInt8) (model : String) (now : Int64) :
    Except Failure (List UInt8) :=
  match p with
  | .anthropic => .error (.noImages p)
  | .vertex =>
    if Vertex.isGeminiModel model then do
      let r ← Payload.vertexResponse.read Vertex.Response.codec body
      writeBody Chat.ImagesResponse.codec (r.toImages now)
    else do
      let r ← Payload.vertexImageResponse.read Vertex.PredictResponse.codec body
      writeBody Chat.ImagesResponse.codec (r.toChat now)

/-- The provider of a name. -/
def find (name : String) : Except Failure Provider :=
  match ofName? name with
  | some p => .ok p
  | none => .error (.unknownProvider name)

end Provider

/-- A stream of a provider that is being read. -/
inductive ProviderStream where
  | anthropic (s : Anthropic.Stream)
  | vertex (s : Vertex.Stream)

namespace ProviderStream

/-- A new stream, which takes one id. -/
def new (p : Provider) (model : String) (now : Int64) (ids : Ids) : ProviderStream :=
  match p with
  | .anthropic => .anthropic (.new model now ids)
  | .vertex => .vertex (.new model now ids)

def payload : Sse.Translator ProviderStream
  | .anthropic s, text => let (s, step) := s.payload text; (.anthropic s, step)
  | .vertex s, text => let (s, step) := s.payload text; (.vertex s, step)

/-- Relays a stream of a provider as a stream of chunks. -/
def relay (s : ProviderStream) (input : Sse.Input) (sink : Sse.Sink) : Sse.Run :=
  Sse.relay payload s input sink

/-- Relays a stream of a provider that comes in buffers. -/
def relayBuffers (s : ProviderStream) (arrivals : List Sse.Arrival) : List Sse.Item :=
  Sse.relayBuffers payload s [] arrivals

end ProviderStream
end ChatDialect
