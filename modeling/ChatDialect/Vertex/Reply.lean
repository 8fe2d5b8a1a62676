import ChatDialect.Vertex.Content

/-! Responses of the Vertex dialect, which are also the payloads of its streams. -/
namespace ChatDialect.Vertex

open Json (Codec Field Fields)

structure Candidate where
  content : Option Content
  finishReason : Option String
  index : Option UInt32

namespace Candidate

def codec : Codec Candidate :=
  .record
    (.cons (.nullable "content" Content.codec) <|
      .cons (.nullable "finishReason" .string) <|
      .cons (.nullable "index" .uint32) .nil)
    (fun (content, finishReason, index, ()) => { content, finishReason, index })
    (fun c => (c.content, c.finishReason, c.index, ()))

def parts (c : Candidate) : List Part := (c.content.map (·.parts)).getD []

end Candidate

structure PromptFeedback where
  blockReason : Option String
  deriving DecidableEq, Repr

def PromptFeedback.codec : Codec PromptFeedback :=
  .record (.cons (.nullable "blockReason" .string) .nil)
    (fun (blockReason, ()) => { blockReason })
    (fun f => (f.blockReason, ()))

structure ModalityCount where
  modality : String
  tokens : UInt64
  deriving DecidableEq, Repr

def ModalityCount.codec : Codec ModalityCount :=
  .record
    (.cons (.withDefault "modality" "" .string) <|
      .cons (.withDefault "tokenCount" 0 .uint64) .nil)
    (fun (modality, tokens, ()) => { modality, tokens })
    (fun c => (c.modality, c.tokens, ()))

structure Usage where
  promptTokens : UInt64
  candidateTokens : UInt64
  totalTokens : Option UInt64
  thoughtTokens : Option UInt64
  cachedTokens : Option UInt64
  promptDetails : List ModalityCount
  candidateDetails : List ModalityCount
  deriving DecidableEq, Repr

def Usage.codec : Codec Usage :=
  .record
    (.cons (.withDefault "promptTokenCount" 0 .uint64) <|
      .cons (.withDefault "candidatesTokenCount" 0 .uint64) <|
      .cons (.nullable "totalTokenCount" .uint64) <|
      .cons (.nullable "thoughtsTokenCount" .uint64) <|
      .cons (.nullable "cachedContentTokenCount" .uint64) <|
      .cons (.withDefault "promptTokensDetails" [] (.list ModalityCount.codec)) <|
      .cons (.withDefault "candidatesTokensDetails" [] (.list ModalityCount.codec)) .nil)
    (fun (promptTokens, candidateTokens, totalTokens, thoughtTokens, cachedTokens, promptDetails,
        candidateDetails, ()) =>
      { promptTokens, candidateTokens, totalTokens, thoughtTokens, cachedTokens, promptDetails,
        candidateDetails })
    (fun u => (u.promptTokens, u.candidateTokens, u.totalTokens, u.thoughtTokens, u.cachedTokens,
      u.promptDetails, u.candidateDetails, ()))

structure Response where
  candidates : List Candidate
  usage : Option Usage
  modelVersion : Option String
  responseId : Option String
  promptFeedback : Option PromptFeedback

namespace Response

def codec : Codec Response :=
  .record
    (.cons (.withDefault "candidates" [] (.list Candidate.codec)) <|
      .cons (.nullable "usageMetadata" Usage.codec) <|
      .cons (.nullable "modelVersion" .string) <|
      .cons (.nullable "responseId" .string) <|
      .cons (.nullable "promptFeedback" PromptFeedback.codec) .nil)
    (fun (candidates, usage, modelVersion, responseId, promptFeedback, ()) =>
      { candidates, usage, modelVersion, responseId, promptFeedback })
    (fun r => (r.candidates, r.usage, r.modelVersion, r.responseId, r.promptFeedback, ()))

/-- Why the prompt was refused, if it was. -/
def blockReason? (r : Response) : Option String := r.promptFeedback.bind (·.blockReason)

end Response

end ChatDialect.Vertex
