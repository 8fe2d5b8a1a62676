import ChatDialect.Json.Tree
import ChatDialect.Provider

/-! What can go wrong in a conversion. -/
namespace ChatDialect

/-- A whole payload that is read. -/
inductive Payload where
  | chatRequest
  | imageRequest
  | anthropicResponse
  | vertexResponse
  | vertexImageResponse
  deriving DecidableEq, Repr

def Payload.describe : Payload → String
  | .chatRequest => "canonical chat request"
  | .imageRequest => "canonical image request"
  | .anthropicResponse => "Anthropic messages response"
  | .vertexResponse => "Vertex generateContent response"
  | .vertexImageResponse => "Vertex image prediction response"

inductive Failure where
  /-- A payload cannot be read. -/
  | parse (payload : Payload) (fault : Json.Fault)
  /-- A value has no written form. -/
  | unwritable
  | unknownProvider (name : String)
  /-- A provider makes no images. -/
  | noImages (provider : Provider)
  /-- Reading or writing fails with a text. -/
  | io (text : String)
  /-- A configuration file cannot be read. -/
  | config
  /-- A configuration file is no configuration. -/
  | toml
  deriving DecidableEq, Repr

def Failure.message : Failure → String
  | .parse payload _ => "Failed to parse " ++ payload.describe
  | .unwritable => "JSON error"
  | .unknownProvider name => "Unknown provider '" ++ name ++ "'"
  | .noImages provider => "Unsupported conversion: " ++ provider.name ++ " does not generate images"
  | .io text => "IO error: " ++ text
  | .config => "Configuration error"
  | .toml => "TOML parse error"

end ChatDialect
