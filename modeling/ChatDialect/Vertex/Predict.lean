import ChatDialect.Json.Tagged

/-! Image predictions of Vertex: requests and responses. -/
namespace ChatDialect.Vertex

open Json (Codec Field Fields)

structure PredictInstance where
  prompt : String
  deriving DecidableEq, Repr

def PredictInstance.codec : Codec PredictInstance :=
  .record (.cons (.required "prompt" .string) .nil)
    (fun (prompt, ()) => { prompt })
    (fun i => (i.prompt, ()))

structure PredictParameters where
  sampleCount : UInt32
  aspectRatio : String
  safetyFilterLevel : String
  personGeneration : String
  deriving DecidableEq, Repr

def PredictParameters.codec : Codec PredictParameters :=
  .record
    (.cons (.required "sampleCount" .uint32) <|
      .cons (.required "aspectRatio" .string) <|
      .cons (.required "safetyFilterLevel" .string) <|
      .cons (.required "personGeneration" .string) .nil)
    (fun (sampleCount, aspectRatio, safetyFilterLevel, personGeneration, ()) =>
      { sampleCount, aspectRatio, safetyFilterLevel, personGeneration })
    (fun p => (p.sampleCount, p.aspectRatio, p.safetyFilterLevel, p.personGeneration, ()))

structure PredictRequest where
  instances : List PredictInstance
  parameters : PredictParameters
  deriving DecidableEq, Repr

def PredictRequest.codec : Codec PredictRequest :=
  .record
    (.cons (.required "instances" (.list PredictInstance.codec)) <|
      .cons (.required "parameters" PredictParameters.codec) .nil)
    (fun (instances, parameters, ()) => { instances, parameters })
    (fun r => (r.instances, r.parameters, ()))

structure Prediction where
  bytesBase64 : Option String
  mimeType : Option String
  deriving DecidableEq, Repr

def Prediction.codec : Codec Prediction :=
  .record
    (.cons (.nullable "bytesBase64Encoded" .string) <|
      .cons (.nullable "mimeType" .string) .nil)
    (fun (bytesBase64, mimeType, ()) => { bytesBase64, mimeType })
    (fun p => (p.bytesBase64, p.mimeType, ()))

structure PredictResponse where
  predictions : List Prediction
  deriving DecidableEq, Repr

def PredictResponse.codec : Codec PredictResponse :=
  .record (.cons (.withDefault "predictions" [] (.list Prediction.codec)) .nil)
    (fun (predictions, ()) => { predictions })
    (fun r => (r.predictions, ()))

end ChatDialect.Vertex
