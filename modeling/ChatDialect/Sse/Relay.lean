import ChatDialect.Sse.Line

/-!
Relaying a stream from a reader to a writer. Every event is flushed before the next line is read,
and the first fault of the reader or the writer ends the run.
-/
namespace ChatDialect.Sse

/-- What a reader gives: bytes, then the end or a fault. -/
structure Input where
  bytes : List UInt8
  fault : Option String
  deriving DecidableEq, Repr

/-- Faults of a writer by the number of the write or flush. A write with a fault writes nothing. -/
structure Sink where
  writeFault : Nat → Option String
  flushFault : Nat → Option String

def Sink.sound : Sink := ⟨fun _ => none, fun _ => none⟩

/-- What a run does: it asks for a line, writes bytes, or flushes them. -/
inductive Action where
  | read
  | write (bytes : List UInt8)
  | flush
  deriving DecidableEq, Repr

/-- The actions of a run that were done, and its outcome: the number of chunks, or the text of the
fault that ended it. -/
structure Run where
  actions : List Action
  outcome : Except String Nat

namespace Run

def output (r : Run) : List UInt8 :=
  r.actions.flatMap fun
    | .write bytes => bytes
    | _ => []

def flushes (r : Run) : Nat := r.actions.countP fun
  | .flush => true
  | _ => false

/-- A run that goes on with another after some actions. -/
def after (actions : List Action) (r : Run) : Run := { r with actions := actions ++ r.actions }

end Run

/-- Writes and flushes events, of which `n` are written already. -/
def emit (sink : Sink) (n : Nat) : List (List UInt8) → Run
  | [] => ⟨[], .ok n⟩
  | e :: es =>
    match sink.writeFault n with
    | some text => ⟨[], .error text⟩
    | none =>
      match sink.flushFault n with
      | some text => ⟨[.write e], .error text⟩
      | none => (emit sink (n + 1) es).after [.write e, .flush]

/-- Ends the stream after `n` chunks. -/
def finish (sink : Sink) (n : Nat) : Run :=
  match emit sink n [terminator] with
  | ⟨actions, .ok _⟩ => ⟨actions, .ok n⟩
  | r => r

/-- The lines that a reader hands out. What is left over at the end is a line, but not before a
fault. -/
def Input.lines (input : Input) : List (List UInt8) :=
  match cutLines input.bytes, input.fault with
  | (lines, []), _ => lines
  | (lines, _), some _ => lines
  | (lines, rest), none => lines ++ [rest]

def relayLines {σ : Type} (translate : Translator σ) (sink : Sink) (fault : Option String) :
    σ → Nat → List (List UInt8) → Run
  | _, n, [] =>
    match fault with
    | some text => ⟨[.read], .error text⟩
    | none => (finish sink n).after [.read]
  | s, n, line :: lines =>
    match takeLine translate s line with
    | (_, .done) => (finish sink n).after [.read]
    | (s, .events events) =>
      match emit sink n events with
      | ⟨actions, .ok n⟩ => (relayLines translate sink fault s n lines).after (.read :: actions)
      | r => r.after [.read]

/-- Relays a stream from a state. -/
def relay {σ : Type} (translate : Translator σ) (s : σ) (input : Input) (sink : Sink) : Run :=
  relayLines translate sink input.fault s 0 input.lines

end ChatDialect.Sse
