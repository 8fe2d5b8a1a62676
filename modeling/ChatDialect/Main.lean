import ChatDialect.CommandLine.Job
import Std.Time.DateTime.Timestamp

/-! The program: files, the standard streams, the clock and random numbers. -/
namespace ChatDialect

open CommandLine

/-- The code of a path that leads through something other than a directory. -/
def notADirectory : UInt32 := 20

def look (path : String) : IO FileEntry := do
  match ← (IO.FS.readBinFile path).toBaseIO with
  | .ok content => return .file content.toList
  | .error (.noFileOrDirectory ..) => return .absent
  | .error (.inappropriateType _ code _) =>
    return if code = notADirectory then .absent else .unreadable
  | .error _ => return .unreadable

def readNumber (size : USize) : IO Nat := do
  let bytes ← IO.getRandomBytes size
  return bytes.foldl (fun n b => n * 256 + b.toNat) 0

def now : IO Int64 := do
  let t ← Std.Time.Timestamp.now
  return .ofInt t.toSecondsSinceUnixEpoch.val

def blockSize : USize := 65536

partial def readAll (input : IO.FS.Stream) (sofar : ByteArray) : IO ByteArray := do
  let bytes ← input.read blockSize
  if bytes.isEmpty then return sofar else readAll input (sofar ++ bytes)

/-- Writes bytes and sends them on at once. -/
def send (output : IO.FS.Stream) (bytes : List UInt8) : IO Unit := do
  output.write bytes.toByteArray
  output.flush

/-- Relays a stream as it comes, with the beginning of a line pending. -/
partial def relay (input output : IO.FS.Stream) (s : ProviderStream) (pending : List UInt8) :
    IO Unit := do
  let bytes ← input.read blockSize
  if bytes.isEmpty then
    for item in Sse.closeBuffers ProviderStream.payload s pending do
      match item with
      | .event event => send output event
      | .fault _ => pure ()
  else
    let (lines, pending) := Sse.cutLines (pending ++ bytes.toList)
    match Sse.takeLines ProviderStream.payload s lines with
    | (events, none) => (events ++ [Sse.terminator]).forM (send output)
    | (events, some s) => do
      events.forM (send output)
      relay input output s pending

def openInput (path : Option String) : IO IO.FS.Stream :=
  match path with
  | none => IO.getStdin
  | some path => return .ofHandle (← IO.FS.Handle.mk path .read)

/-- Carries a job out. -/
def work (j : Job) : IO UInt32 := do
  let input ← openInput j.input
  let output ← IO.getStdout
  let ids := Ids.ofSource (.universal (← readNumber 16))
  match j.stream? (← now) ids with
  | some s =>
    relay input output s []
    return 0
  | none =>
    let body ← readAll input .empty
    match j.run body.toList (← now) ids with
    | (bytes, .ok _) =>
      send output bytes
      return 0
    | (_, .error failure) =>
      IO.eprintln ("Error: " ++ failure.message)
      return 1

/-- Exit status 2 is for arguments that make no sense, and 1 for any other failure. -/
def execute (arguments : List String) : IO UInt32 := do
  let homes := ⟨← IO.getEnv "HOME", ← IO.getEnv "XDG_CONFIG_HOME"⟩
  match ← Plan.ofArguments look homes arguments with
  | .print text =>
    IO.print text
    return 0
  | .refuse misuse =>
    IO.eprintln ("error: " ++ misuse.message)
    return 2
  | .fail problem =>
    IO.eprintln ("Error: " ++ problem.message)
    return 1
  | .work j =>
    try work j catch e =>
      IO.eprintln ("Error: " ++ (Failure.io e.toString).message)
      return 1

end ChatDialect

def main (arguments : List String) : IO UInt32 := ChatDialect.execute arguments
