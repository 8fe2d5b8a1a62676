import ChatDialect.Sse.Line

/-! Relaying a stream that comes in buffers, whose ends need not be ends of lines. -/
namespace ChatDialect.Sse

/-- What comes: a buffer, or a fault. -/
inductive Arrival where
  | buffer (bytes : List UInt8)
  | fault (text : String)
  deriving DecidableEq, Repr

/-- What goes out: an event, or the fault that ends the stream. -/
inductive Item where
  | event (bytes : List UInt8)
  | fault (text : String)
  deriving DecidableEq, Repr

/-- Takes lines in order: the events they turn into, and the state after, none once the stream is
done. -/
def takeLines {σ : Type} (translate : Translator σ) :
    σ → List (List UInt8) → List (List UInt8) × Option σ
  | s, [] => ([], some s)
  | s, line :: lines =>
    match takeLine translate s line with
    | (_, .done) => ([], none)
    | (s, .events events) =>
      let (rest, s) := takeLines translate s lines
      (events ++ rest, s)

/-- Ends the stream; what is pending is a last line. -/
def closeBuffers {σ : Type} (translate : Translator σ) (s : σ) (pending : List UInt8) : List Item :=
  match pending with
  | [] => [.event terminator]
  | _ =>
    match takeLine translate s pending with
    | (_, .done) => [.event terminator]
    | (_, .events events) => events.map .event ++ [.event terminator]

/-- Relays what comes from a state, with the beginning of a line pending. -/
def relayBuffers {σ : Type} (translate : Translator σ) :
    σ → List UInt8 → List Arrival → List Item
  | s, pending, [] => closeBuffers translate s pending
  | _, _, .fault text :: _ => [.fault text]
  | s, pending, .buffer bytes :: arrivals =>
    let (lines, pending) := cutLines (pending ++ bytes)
    match takeLines translate s lines with
    | (events, none) => events.map .event ++ [.event terminator]
    | (events, some s) => events.map .event ++ relayBuffers translate s pending arrivals

end ChatDialect.Sse
