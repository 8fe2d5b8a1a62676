import ChatDialect.Chat.Message

/-! Chat requests of the canonical dialect. -/
namespace ChatDialect.Chat

open Json (Codec Field Fields)

structure FunctionSpec where
  name : String
  description : Option String
  parameters : Option Json
  strict : Option Bool

def FunctionSpec.codec : Codec FunctionSpec :=
  .record
    (.cons (.required "name" .string) <|
      .cons (.optional "description" .string) <|
      .cons (.optional "parameters" .value) <|
      .cons (.optional "strict" .bool) .nil)
    (fun (name, description, parameters, strict, ()) => { name, description, parameters, strict })
    (fun f => (f.name, f.description, f.parameters, f.strict, ()))

structure Tool where
  kind : String
  function : FunctionSpec

def Tool.codec : Codec Tool :=
  .record
    (.cons (.withDefault "type" "function" .string) <|
      .cons (.required "function" FunctionSpec.codec) .nil)
    (fun (kind, function, ()) => { kind, function })
    (fun t => (t.kind, t.function, ()))

/-- Where generation stops: one text or several. -/
inductive Stop where
  | single (text : String)
  | many (texts : List String)
  deriving DecidableEq, Repr

namespace Stop

def toList : Stop → List String
  | .single text => [text]
  | .many texts => texts

def ofJson? : Json → Option Stop
  | .str text => some (.single text)
  | .arr items => (items.mapM Json.str?).map .many
  | _ => none

def encode : Stop → Option Json
  | .single text => some (.str text)
  | .many texts => some (.arr (texts.map .str))

def codec : Codec Stop := .buffered ofJson? encode

end Stop

structure SchemaFormat where
  name : Option String
  schema : Option Json
  strict : Option Bool

def SchemaFormat.codec : Codec SchemaFormat :=
  .record
    (.cons (.optional "name" .string) <|
      .cons (.optional "schema" .value) <|
      .cons (.optional "strict" .bool) .nil)
    (fun (name, schema, strict, ()) => { name, schema, strict })
    (fun s => (s.name, s.schema, s.strict, ()))

structure ResponseFormat where
  kind : String
  jsonSchema : Option SchemaFormat

def ResponseFormat.codec : Codec ResponseFormat :=
  .record
    (.cons (.required "type" .string) <|
      .cons (.optional "json_schema" SchemaFormat.codec) .nil)
    (fun (kind, jsonSchema, ()) => { kind, jsonSchema })
    (fun f => (f.kind, f.jsonSchema, ()))

structure StreamOptions where
  includeUsage : Bool
  deriving DecidableEq, Repr

def StreamOptions.codec : Codec StreamOptions :=
  .record
    (.cons (.withDefault "include_usage" false .bool) .nil)
    (fun (includeUsage, ()) => { includeUsage })
    (fun o => (o.includeUsage, ()))

/-- The shape wished for an image. -/
structure ImageHint where
  aspectRatio : Option String
  imageSize : Option String
  deriving DecidableEq, Repr

def ImageHint.codec : Codec ImageHint :=
  .record
    (.cons ((Field.optional "aspect_ratio" .string).orNamed "aspectRatio") <|
      .cons ((Field.optional "image_size" .string).orNamed "imageSize") .nil)
    (fun (aspectRatio, imageSize, ()) => { aspectRatio, imageSize })
    (fun h => (h.aspectRatio, h.imageSize, ()))

/-- Generation settings that take the place of the canonical ones. -/
structure GenerationOverrides where
  temperature : Option Double
  seed : Option Int64
  topK : Option UInt32
  responseMimeType : Option String
  responseModalities : Option (List String)
  imageConfig : Option ImageHint

namespace GenerationOverrides

def none : GenerationOverrides :=
  { temperature := .none, seed := .none, topK := .none, responseMimeType := .none,
    responseModalities := .none, imageConfig := .none }

def codec : Codec GenerationOverrides :=
  .record
    (.cons (.optional "temperature" .double) <|
      .cons (.optional "seed" .int64) <|
      .cons ((Field.optional "top_k" .uint32).orNamed "topK") <|
      .cons ((Field.optional "response_mime_type" .string).orNamed "responseMimeType") <|
      .cons ((Field.optional "response_modalities" (.list .string)).orNamed "responseModalities") <|
      .cons ((Field.optional "image_config" ImageHint.codec).orNamed "imageConfig") .nil)
    (fun (temperature, seed, topK, responseMimeType, responseModalities, imageConfig, ()) =>
      { temperature, seed, topK, responseMimeType, responseModalities, imageConfig })
    (fun g => (g.temperature, g.seed, g.topK, g.responseMimeType, g.responseModalities,
      g.imageConfig, ()))

end GenerationOverrides

/-- Extensions that travel with a request; the ones without a meaning here are kept. -/
structure ExtraBody where
  generationConfig : Option GenerationOverrides
  modalities : Option (List String)
  other : List (String × Json)

namespace ExtraBody

def codec : Codec ExtraBody :=
  .openRecord
    (.cons (.optional "generation_config" GenerationOverrides.codec) <|
      .cons (.optional "modalities" (.list .string)) .nil)
    (fun (generationConfig, modalities, ()) other => { generationConfig, modalities, other })
    (fun e => ((e.generationConfig, e.modalities, ()), e.other))

end ExtraBody

structure Request where
  model : String
  messages : List Message
  temperature : Option Double
  topP : Option Double
  maxTokens : Option UInt64
  maxCompletionTokens : Option UInt64
  n : Option UInt32
  seed : Option Int64
  frequencyPenalty : Option Double
  presencePenalty : Option Double
  stop : Option Stop
  responseFormat : Option ResponseFormat
  modalities : Option (List String)
  reasoningEffort : Option String
  tools : Option (List Tool)
  toolChoice : Option Json
  stream : Option Bool
  streamOptions : Option StreamOptions
  user : Option String
  extraBody : Option ExtraBody

namespace Request

def codec : Codec Request :=
  .record
    (.cons (.withDefault "model" "" .string) <|
      .cons (.required "messages" (.list Message.codec)) <|
      .cons (.optionalInPlace "temperature" .double) <|
      .cons (.optionalInPlace "top_p" .double) <|
      .cons (.optionalInPlace "max_tokens" .uint64) <|
      .cons (.optionalInPlace "max_completion_tokens" .uint64) <|
      .cons (.optionalInPlace "n" .uint32) <|
      .cons (.optionalInPlace "seed" .int64) <|
      .cons (.optionalInPlace "frequency_penalty" .double) <|
      .cons (.optionalInPlace "presence_penalty" .double) <|
      .cons (.optionalInPlace "stop" Stop.codec) <|
      .cons (.optionalInPlace "response_format" ResponseFormat.codec) <|
      .cons (.optionalInPlace "modalities" (.list .string)) <|
      .cons (.optionalInPlace "reasoning_effort" .string) <|
      .cons (.optionalInPlace "tools" (.list Tool.codec)) <|
      .cons (.optionalInPlace "tool_choice" .value) <|
      .cons (.optionalInPlace "stream" .bool) <|
      .cons (.optionalInPlace "stream_options" StreamOptions.codec) <|
      .cons (.optionalInPlace "user" .string) <|
      .cons (.optionalInPlace "extra_body" ExtraBody.codec) .nil)
    (fun (model, messages, temperature, topP, maxTokens, maxCompletionTokens, n, seed,
        frequencyPenalty, presencePenalty, stop, responseFormat, modalities, reasoningEffort,
        tools, toolChoice, stream, streamOptions, user, extraBody, ()) =>
      { model, messages, temperature, topP, maxTokens, maxCompletionTokens, n, seed,
        frequencyPenalty, presencePenalty, stop, responseFormat, modalities, reasoningEffort,
        tools, toolChoice, stream, streamOptions, user, extraBody })
    (fun r => (r.model, r.messages, r.temperature, r.topP, r.maxTokens, r.maxCompletionTokens, r.n,
      r.seed, r.frequencyPenalty, r.presencePenalty, r.stop, r.responseFormat, r.modalities,
      r.reasoningEffort, r.tools, r.toolChoice, r.stream, r.streamOptions, r.user, r.extraBody, ()))

/-- A request that only has messages. -/
def ofMessages (model : String) (messages : List Message) : Request :=
  { model, messages, temperature := none, topP := none, maxTokens := none,
    maxCompletionTokens := none, n := none, seed := none, frequencyPenalty := none,
    presencePenalty := none, stop := none, responseFormat := none, modalities := none,
    reasoningEffort := none, tools := none, toolChoice := none, stream := none,
    streamOptions := none, user := none, extraBody := none }

end Request

end ChatDialect.Chat
