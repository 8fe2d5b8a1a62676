import ChatDialect.Vertex.Content
import ChatDialect.Vertex.Schema

/-! Requests of the Vertex dialect. -/
namespace ChatDialect.Vertex

open Json (Codec Field Fields)

structure ImageConfig where
  aspectRatio : Option String
  imageSize : Option String
  deriving DecidableEq, Repr

def ImageConfig.codec : Codec ImageConfig :=
  .record
    (.cons (.optionalInPlace "aspectRatio" .string) <|
      .cons (.optionalInPlace "imageSize" .string) .nil)
    (fun (aspectRatio, imageSize, ()) => { aspectRatio, imageSize })
    (fun c => (c.aspectRatio, c.imageSize, ()))

structure ThinkingConfig where
  budget : UInt32
  includeThoughts : Bool
  deriving DecidableEq, Repr

def ThinkingConfig.codec : Codec ThinkingConfig :=
  .record
    (.cons (.required "thinkingBudget" .uint32) <|
      .cons (.required "includeThoughts" .bool) .nil)
    (fun (budget, includeThoughts, ()) => { budget, includeThoughts })
    (fun c => (c.budget, c.includeThoughts, ()))

structure GenerationConfig where
  temperature : Option Double
  topP : Option Double
  topK : Option UInt32
  candidateCount : Option UInt32
  maxOutputTokens : Option UInt64
  seed : Option Int64
  frequencyPenalty : Option Double
  presencePenalty : Option Double
  stopSequences : Option (List String)
  responseMimeType : Option String
  responseSchema : Option Schema
  responseModalities : Option (List String)
  imageConfig : Option ImageConfig
  thinkingConfig : Option ThinkingConfig

namespace GenerationConfig

/-- Whether nothing is set. -/
def isEmpty (c : GenerationConfig) : Bool :=
  c.temperature.isNone && c.topP.isNone && c.topK.isNone && c.candidateCount.isNone &&
    c.maxOutputTokens.isNone && c.seed.isNone && c.frequencyPenalty.isNone &&
    c.presencePenalty.isNone && c.stopSequences.isNone && c.responseMimeType.isNone &&
    c.responseSchema.isNone && c.responseModalities.isNone && c.imageConfig.isNone &&
    c.thinkingConfig.isNone

def codec : Codec GenerationConfig :=
  .record
    (.cons (.optionalInPlace "temperature" .double) <|
      .cons (.optionalInPlace "topP" .double) <|
      .cons (.optionalInPlace "topK" .uint32) <|
      .cons (.optionalInPlace "candidateCount" .uint32) <|
      .cons (.optionalInPlace "maxOutputTokens" .uint64) <|
      .cons (.optionalInPlace "seed" .int64) <|
      .cons (.optionalInPlace "frequencyPenalty" .double) <|
      .cons (.optionalInPlace "presencePenalty" .double) <|
      .cons (.optionalInPlace "stopSequences" (.list .string)) <|
      .cons (.optionalInPlace "responseMimeType" .string) <|
      .cons (.optionalInPlace "responseSchema" Schema.codec) <|
      .cons (.optionalInPlace "responseModalities" (.list .string)) <|
      .cons (.optionalInPlace "imageConfig" ImageConfig.codec) <|
      .cons (.optionalInPlace "thinkingConfig" ThinkingConfig.codec) .nil)
    (fun (temperature, topP, topK, candidateCount, maxOutputTokens, seed, frequencyPenalty,
        presencePenalty, stopSequences, responseMimeType, responseSchema, responseModalities,
        imageConfig, thinkingConfig, ()) =>
      ⟨temperature, topP, topK, candidateCount, maxOutputTokens, seed, frequencyPenalty,
        presencePenalty, stopSequences, responseMimeType, responseSchema, responseModalities,
        imageConfig, thinkingConfig⟩)
    (fun c => (c.temperature, c.topP, c.topK, c.candidateCount, c.maxOutputTokens, c.seed,
      c.frequencyPenalty, c.presencePenalty, c.stopSequences, c.responseMimeType,
      c.responseSchema, c.responseModalities, c.imageConfig, c.thinkingConfig, ()))

end GenerationConfig

structure FunctionDeclaration where
  name : String
  description : Option String
  parameters : Schema

def FunctionDeclaration.codec : Codec FunctionDeclaration :=
  .record
    (.cons (.required "name" .string) <|
      .cons (.optionalInPlace "description" .string) <|
      .cons (.required "parameters" Schema.codec) .nil)
    (fun (name, description, parameters, ()) => { name, description, parameters })
    (fun f => (f.name, f.description, f.parameters, ()))

structure Tool where
  declarations : List FunctionDeclaration

def Tool.codec : Codec Tool :=
  .record (.cons (.required "functionDeclarations" (.list FunctionDeclaration.codec)) .nil)
    (fun (declarations, ()) => { declarations })
    (fun t => (t.declarations, ()))

structure CallingConfig where
  mode : String
  allowedNames : Option (List String)
  deriving DecidableEq, Repr

def CallingConfig.codec : Codec CallingConfig :=
  .record
    (.cons (.required "mode" .string) <|
      .cons (.optionalInPlace "allowedFunctionNames" (.list .string)) .nil)
    (fun (mode, allowedNames, ()) => { mode, allowedNames })
    (fun c => (c.mode, c.allowedNames, ()))

structure ToolConfig where
  calling : CallingConfig
  deriving DecidableEq, Repr

def ToolConfig.codec : Codec ToolConfig :=
  .record (.cons (.required "functionCallingConfig" CallingConfig.codec) .nil)
    (fun (calling, ()) => { calling })
    (fun c => (c.calling, ()))

structure Request where
  contents : List Content
  systemInstruction : Option Content
  generationConfig : Option GenerationConfig
  tools : Option (List Tool)
  toolConfig : Option ToolConfig

def Request.codec : Codec Request :=
  .record
    (.cons (.required "contents" (.list Content.codec)) <|
      .cons (.optionalInPlace "systemInstruction" Content.codec) <|
      .cons (.optionalInPlace "generationConfig" GenerationConfig.codec) <|
      .cons (.optionalInPlace "tools" (.list Tool.codec)) <|
      .cons (.optionalInPlace "toolConfig" ToolConfig.codec) .nil)
    (fun (contents, systemInstruction, generationConfig, tools, toolConfig, ()) =>
      { contents, systemInstruction, generationConfig, tools, toolConfig })
    (fun r => (r.contents, r.systemInstruction, r.generationConfig, r.tools, r.toolConfig, ()))

end ChatDialect.Vertex
