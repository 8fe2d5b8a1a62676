import ChatDialect.Chat.Arguments
import ChatDialect.Chat.Request
import ChatDialect.Ids
import ChatDialect.Media.Kind
import ChatDialect.Vertex.OfJsonSchema
import ChatDialect.Vertex.Prompt

/-!
Chat requests as requests of the Vertex dialect. There is one place for instructions, which holds
the first text of the last one that has any; messages of tools become plain text of the user.
-/
namespace ChatDialect.Vertex

open Media (classify)

/-- Inline data becomes a blob; a remote reference becomes a file of the type that its format
states, or its URL. -/
def mediaPart? (url : String) (format : Option String) : Option Part :=
  match classify url with
  | .inline data => some (.ofBlob data.mimeType data.data)
  | .remote uri => some (.ofFile (Media.ofFile uri format) uri)
  | .unsupported => none

/-- The type of a video whose format is given: a whole type, or the name of a format. -/
def videoType (format : String) : String :=
  if Text.contains format '/' then format else Media.ofVideoFormat format

def ofBlock? : Chat.Block → Option Part
  | .text s => (Text.nonEmpty? s).map .ofText
  | .image m => mediaPart? m.url m.format
  | .file f => f.url?.bind fun url => mediaPart? url f.format
  | .video m => mediaPart? m.url (m.format.map videoType)
  | .audio a => (Media.normalizeBase64 a.data).map (.ofBlob (Media.ofAudioFormat a.format))
  | .ignored _ => none

def ofContent : Option Chat.Content → List Part
  | some (.text s) => ((Text.nonEmpty? s).map .ofText).toList
  | some (.blocks blocks) => blocks.filterMap ofBlock?
  | some (.other _) => []
  | none => []

def ofToolCall (call : Chat.ToolCall) : Part :=
  .ofCall call.function.name (Chat.Arguments.parse call.function.arguments)

def roleName : Chat.Role → String
  | .assistant => "model"
  | _ => "user"

/-- What a message says in the turn it becomes: calls of tools come last, and only the assistant
makes them. -/
def turnParts (m : Chat.Message) : List Part :=
  match m.role with
  | .tool => (Chat.Content.fragments m.content).map .ofText
  | .assistant => ofContent m.content ++ (m.toolCalls.getD []).map ofToolCall
  | _ => ofContent m.content

/-- The turn of a message; one without parts has none. -/
def turn? (m : Chat.Message) : Option Content :=
  let parts := turnParts m
  if parts.isEmpty then none else some { role := some (roleName m.role), parts }

def turnsOf (messages : List Chat.Message) : List Content :=
  (messages.filter (!·.role.isInstruction)).filterMap turn?

/-- The instruction that stays. -/
def systemOf (messages : List Chat.Message) : Option Content :=
  let texts := (messages.filter (·.role.isInstruction)).filterMap fun m =>
    (Chat.Content.fragments m.content).head?
  texts.getLast?.map fun text => { role := none, parts := [.ofText text] }

/-- The form in which a modality is sent. -/
def modalityName (s : String) : String := Text.upper (Text.trim s)

/-- Joins lists of modalities into one without repetitions, in the order of first sight. -/
def collectModalities (lists : List (List String)) : List String :=
  lists.flatten.foldl
    (fun seen s =>
      let name := modalityName s
      if name = "" ∨ name ∈ seen then seen else seen ++ [name])
    []

/-- The budget for thinking that an effort grants. -/
def thinkingBudget? (effort : String) : Option UInt32 :=
  match Text.lower effort with
  | "none" => some 0
  | "low" => some 1024
  | "medium" => some 8192
  | "high" => some 24576
  | _ => none

def thinkingConfig? (effort : String) : Option ThinkingConfig :=
  (thinkingBudget? effort).map fun budget => { budget, includeThoughts := 0 < budget }

/-- The media type that a response format asks for. -/
def formatMimeType? (format : Chat.ResponseFormat) : Option String :=
  if format.kind = "json_object" ∨ format.kind = "json_schema" then some "application/json"
  else none

def formatSchema? (format : Chat.ResponseFormat) : Option Schema :=
  if format.kind = "json_schema" then
    (format.jsonSchema.bind (·.schema)).map Schema.translate
  else none

/-- Whether a model makes images, which excludes a media type for its text. -/
def makesImages (model : String) : Bool := Text.hasInfix "image".toList model.toList

/-- The settings of a request; the overrides in its extensions win over the canonical ones. -/
def configOf (r : Chat.Request) (model : String) : GenerationConfig :=
  let overrides := r.extraBody.bind (·.generationConfig)
  let modalities := collectModalities [
    r.modalities.getD [],
    (r.extraBody.bind (·.modalities)).getD [],
    (overrides.bind (·.responseModalities)).getD []]
  let ownMimeType :=
    if makesImages model then none else overrides.bind (·.responseMimeType)
  { temperature := (overrides.bind (·.temperature)).or r.temperature
    topP := r.topP
    topK := overrides.bind (·.topK)
    candidateCount := r.n
    maxOutputTokens := r.maxCompletionTokens.or r.maxTokens
    seed := (overrides.bind (·.seed)).or r.seed
    frequencyPenalty := r.frequencyPenalty
    presencePenalty := r.presencePenalty
    stopSequences := r.stop.map (·.toList)
    responseMimeType := (r.responseFormat.bind formatMimeType?).or ownMimeType
    responseSchema := r.responseFormat.bind formatSchema?
    responseModalities := if modalities.isEmpty then none else some modalities
    imageConfig := (overrides.bind (·.imageConfig)).map fun hint =>
      { aspectRatio := hint.aspectRatio, imageSize := hint.imageSize }
    thinkingConfig := r.reasoningEffort.bind thinkingConfig? }

def declaration (tool : Chat.Tool) : FunctionDeclaration where
  name := tool.function.name
  description := tool.function.description
  parameters := Schema.translateParameters tool.function.parameters

/-- All functions in one tool; other kinds of tools are left out. -/
def toolsOf (tools : Option (List Chat.Tool)) : Option (List Tool) :=
  let declarations := ((tools.getD []).filter (·.kind = "function")).map declaration
  if declarations.isEmpty then none else some [{ declarations }]

/-- The calling mode that a choice of tools asks for. -/
def callingConfig? : Json → Option CallingConfig
  | .str "auto" => some { mode := "AUTO", allowedNames := none }
  | .str "none" => some { mode := "NONE", allowedNames := none }
  | .str "required" => some { mode := "ANY", allowedNames := none }
  | .obj fields => do
    let function ← (Json.obj fields).get? "function"
    let name ← function.get? "name"
    let name ← name.str?
    return { mode := "ANY", allowedNames := some [name] }
  | _ => none

/-- The request for a model, whose name is not part of it. -/
def Request.ofChat (r : Chat.Request) (model : String) : Request :=
  let config := configOf r (targetModel model r.model)
  { contents := turnsOf r.messages
    systemInstruction := systemOf r.messages
    generationConfig := if config.isEmpty then none else some config
    tools := toolsOf r.tools
    toolConfig := (r.toolChoice.bind callingConfig?).map fun calling => { calling } }

end ChatDialect.Vertex
