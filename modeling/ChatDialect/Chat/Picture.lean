import ChatDialect.Chat.Response

/-! Requests for images, and the answers to them, in the canonical dialect. -/
namespace ChatDialect.Chat

open Json (Codec Field Fields)

structure ImageRequest where
  prompt : String
  model : Option String
  n : Option Int64
  size : Option String
  quality : Option String
  responseFormat : Option String
  user : Option String
  deriving DecidableEq, Repr

def ImageRequest.codec : Codec ImageRequest :=
  .record
    (.cons (.required "prompt" .string) <|
      .cons (.optional "model" .string) <|
      .cons (.optional "n" .int64) <|
      .cons (.optional "size" .string) <|
      .cons (.optional "quality" .string) <|
      .cons (.optional "response_format" .string) <|
      .cons (.optional "user" .string) .nil)
    (fun (prompt, model, n, size, quality, responseFormat, user, ()) =>
      { prompt, model, n, size, quality, responseFormat, user })
    (fun r => (r.prompt, r.model, r.n, r.size, r.quality, r.responseFormat, r.user, ()))

structure ImagesResponse where
  created : Int64
  data : List Image
  deriving DecidableEq, Repr

def ImagesResponse.codec : Codec ImagesResponse :=
  .record
    (.cons (.required "created" .int64) <|
      .cons (.required "data" (.list Image.codec)) .nil)
    (fun (created, data, ()) => { created, data })
    (fun r => (r.created, r.data, ()))

end ChatDialect.Chat
