import ChatDialect.Chat.Step
import ChatDialect.Text.Ascii
import ChatDialect.Text.Blank

/-! Lines of a stream of server-sent events, and the frames of the chunks sent on. -/
namespace ChatDialect.Sse

open Chat (Chunk Step)

/-- The payload of a data line; other lines have none. -/
def dataPayload? (line : String) : Option String :=
  (Text.after? ['d', 'a', 't', 'a', ':'] (Text.trimChars line.toList)).map fun rest =>
    String.ofList (Text.trimChars rest)

/-- The payload that the bytes of a line carry, unless it is empty. -/
def payload? (line : List UInt8) : Option String := (dataPayload? (Utf8.lossy line)).filter (· ≠ "")

def frameHead : List UInt8 := Utf8.ofString "data: "

def frameEnd : List UInt8 := [10, 10]

/-- A chunk as one event. -/
def frame? (c : Chunk) : Option (List UInt8) :=
  (Chunk.codec.write c).map fun text => frameHead ++ text ++ frameEnd

/-- The event that ends every stream. -/
def terminator : List UInt8 := frameHead ++ Utf8.ofString "[DONE]" ++ frameEnd

/-- What a line turns into. -/
inductive Outcome where
  | events (events : List (List UInt8))
  | done
  deriving DecidableEq, Repr

/-- A translator: what it makes of a payload in a state, and the state after. -/
abbrev Translator (σ : Type) := σ → String → σ × Step

/-- Takes one line; one without a payload turns into nothing. -/
def takeLine {σ : Type} (translate : Translator σ) (s : σ) (line : List UInt8) : σ × Outcome :=
  match payload? line with
  | none => (s, .events [])
  | some text =>
    match translate s text with
    | (s, .done) => (s, .done)
    | (s, .chunks chunks) => (s, .events (chunks.filterMap frame?))

/-- The lines that are complete, each with its line feed, and what is left over. -/
def cutLines : List UInt8 → List (List UInt8) × List UInt8
  | [] => ([], [])
  | b :: bs =>
    match cutLines bs with
    | (lines, rest) =>
      if b = 10 then ([b] :: lines, rest)
      else match lines with
        | [] => ([], b :: rest)
        | line :: lines => ((b :: line) :: lines, rest)

end ChatDialect.Sse
