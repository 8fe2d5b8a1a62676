import ChatDialect.Chat.Chunk

/-! What a stream of a provider says at one payload. -/
namespace ChatDialect.Chat

/-- Chunks to pass on, none if the payload says nothing; or the end of the stream. -/
inductive Step where
  | chunks (chunks : List Chunk)
  | done
  deriving DecidableEq, Repr

namespace Step

def skip : Step := .chunks []

def one (c : Chunk) : Step := .chunks [c]

end Step

end ChatDialect.Chat
