import ChatDialect.Anthropic.Prompt
import ChatDialect.Chat.Arguments
import ChatDialect.Chat.Request
import ChatDialect.Ids
import ChatDialect.Media.Kind

/-!
Chat requests as requests of the Anthropic dialect. Instructions become blocks of the system
prompt, one a message; messages of tools become plain text of the user.
-/
namespace ChatDialect.Anthropic

open Media (Location classify)

/-- The limit of a request that sets none. -/
def defaultMaxTokens : UInt64 := 4096

/-- Inline data and web addresses have a source; references to local files have none. -/
def mediaSource? (url : String) : Option MediaSource :=
  match classify url with
  | .inline data => some (.base64 data.mimeType data.data)
  | .remote url =>
    if (Text.afterIgnoringCase? "file://".toList url.toList).isSome then none else some (.url url)
  | .unsupported => none

/-- The media type of a file: the one its data states, else the one of its name. -/
def fileType (url : String) (format : Option String) : String :=
  match classify url with
  | .inline data => data.mimeType
  | _ => Media.ofFile url format

/-- Only PDF files are documents. -/
def document? (file : Chat.FileRef) : Option ContentBlock := do
  let url ← file.url?
  if fileType url file.format = "application/pdf" then (mediaSource? url).map .document else none

def ofBlock? : Chat.Block → Option ContentBlock
  | .text s => (Text.nonEmpty? s).map .text
  | .image m => (mediaSource? m.url).map .image
  | .file f => document? f
  | .audio _ => none
  | .video _ => none
  | .ignored _ => none

def ofContent : Option Chat.Content → List ContentBlock
  | some (.text s) => ((Text.nonEmpty? s).map .text).toList
  | some (.blocks blocks) => blocks.filterMap ofBlock?
  | some (.other _) => []
  | none => []

def ofToolCall (call : Chat.ToolCall) : ContentBlock :=
  .toolUse call.id call.function.name (Chat.Arguments.parse call.function.arguments)

def ofRole : Chat.Role → Role
  | .assistant => .assistant
  | _ => .user

/-- What a message says in the turn it becomes: calls of tools come last, and only the assistant
makes them. -/
def turnContent (m : Chat.Message) : List ContentBlock :=
  match m.role with
  | .tool => (Chat.Content.fragments m.content).map .text
  | .assistant => ofContent m.content ++ (m.toolCalls.getD []).map ofToolCall
  | _ => ofContent m.content

/-- The turn of a message; one without content has none. -/
def turn? (m : Chat.Message) : Option Message :=
  let content := turnContent m
  if content.isEmpty then none else some { role := ofRole m.role, content }

/-- The block of the system prompt that an instruction becomes. -/
def systemBlock? (m : Chat.Message) : Option SystemBlock :=
  (Text.nonEmpty? (Chat.Content.joined m.content "\n")).map .text

def turnsOf (messages : List Chat.Message) : List Message :=
  (messages.filter (!·.role.isInstruction)).filterMap turn?

def systemOf (messages : List Chat.Message) : List SystemBlock :=
  (messages.filter (·.role.isInstruction)).filterMap systemBlock?

/-- The schema of a function that states none. -/
def openSchema : Json := .obj [("properties", .obj []), ("type", .str "object")]

def ofTool (tool : Chat.Tool) : Tool where
  name := tool.function.name
  description := tool.function.description
  inputSchema := tool.function.parameters.getD openSchema

/-- The request for a model. Temperature and nucleus share are never sent together. -/
def Request.ofChat (r : Chat.Request) (model : String) : Request where
  model := targetModel model r.model
  maxTokens := (r.maxCompletionTokens.or r.maxTokens).getD defaultMaxTokens
  messages := turnsOf r.messages
  system := systemOf r.messages
  stream := r.stream
  temperature := r.temperature
  topP := if r.temperature.isSome then none else r.topP
  tools := r.tools.map (·.map ofTool)
  toolChoice := r.toolChoice
  stopSequences := r.stop.map (·.toList)
  metadata := r.user.map fun user => { userId := some user }

end ChatDialect.Anthropic
