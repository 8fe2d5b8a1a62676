import ChatDialect.CommandLine.Help

/-! From the arguments of a command line to what the program writes. -/
namespace ChatDialect.CommandLine

/-- Why a program that was asked properly does nothing. -/
inductive Problem where
  | noCommand
  | noProvider
  | failure (f : Failure)
  deriving DecidableEq, Repr

def Problem.message : Problem → String
  | .noCommand => "no subcommand given; see --help"
  | .noProvider => "no provider given; pass --provider or set one in config"
  | .failure f => f.message

/-- A conversion with all its choices made. -/
structure Job where
  command : Command
  provider : Provider
  model : String
  /-- The file to read in the place of the standard input. -/
  input : Option String
  deriving DecidableEq, Repr

namespace Job

/-- The provider that is named, else the one of the settings. -/
def chooseProvider (named : Option String) (s : Settings) : Except Problem Provider :=
  match named with
  | some name => (Provider.find name).mapError .failure
  | none =>
    match s.defaultProvider with
    | .ok (some p) => .ok p
    | .ok none => .error .noProvider
    | .error f => .error (.failure f)

/-- The job of an invocation under the settings that were found. -/
def ofInvocation (i : Invocation) (c : Command) (found : Except Failure Settings) :
    Except Problem Job := do
  let s ← found.mapError .failure
  let p ← chooseProvider i.provider s
  return ⟨c, p, s.resolveModel i.model, i.input⟩

/-- The stream to relay, for a job that has one. -/
def stream? (j : Job) (now : Int64) (ids : Ids) : Option ProviderStream :=
  if j.command = .stream then some (.new j.provider j.model now ids) else none

/-- What a job makes of a whole input, and whether it comes to a good end. -/
def run (j : Job) (body : List UInt8) (now : Int64) (ids : Ids) :
    List UInt8 × Except Failure Unit :=
  let whole : Except Failure (List UInt8) → List UInt8 × Except Failure Unit
    | .ok bytes => (bytes ++ [10], .ok ())
    | .error f => ([], .error f)
  match j.command with
  | .request => whole (j.provider.writeRequest body j.model)
  | .response => whole (j.provider.readResponse body j.model now ids)
  | .imageRequest => whole (j.provider.writeImageRequest body j.model)
  | .imageResponse => whole (j.provider.readImageResponse body j.model now)
  | .stream =>
    let r := (ProviderStream.new j.provider j.model now ids).relay ⟨body, none⟩ .sound
    (r.output, match r.outcome with
      | .ok _ => .ok ()
      | .error text => .error (.io text))

end Job

/-- What the program does for its arguments. -/
inductive Plan where
  /-- It writes a text. -/
  | print (text : String)
  | refuse (m : Misuse)
  | fail (p : Problem)
  | work (j : Job)
  deriving DecidableEq, Repr

namespace Plan

variable {m : Type → Type} [Monad m]

/-- The plan for arguments, where `look` shows what lies at a path. -/
def ofArguments (look : String → m FileEntry) (homes : Homes) (arguments : List String) :
    m Plan :=
  match Invocation.ofArguments arguments with
  | .error (.help topic) => return .print (helpText topic)
  | .error .version => return .print versionText
  | .error (.misuse misuse) => return .refuse misuse
  | .ok i =>
    if i.showPaths then return .print (pathsText homes)
    else match i.command with
      | none => return .fail .noCommand
      | some c => do
        let found ← Settings.find look homes i.config
        match Job.ofInvocation i c found with
        | .ok j => return .work j
        | .error problem => return .fail problem

end Plan

/-- What a run of the program leaves behind: its exit status, and what it wrote. -/
structure Outcome where
  status : Nat
  output : List UInt8
  deriving DecidableEq, Repr

/-- What surrounds a run of the program. -/
structure Surroundings where
  look : String → FileEntry
  homes : Homes
  body : List UInt8
  now : Int64
  ids : Ids

/-- Carries out a plan: status 2 is for arguments without sense, and 1 for any other failure. -/
def Plan.run (w : Surroundings) : Plan → Outcome
  | .print text => ⟨0, Utf8.ofString text⟩
  | .refuse _ => ⟨2, []⟩
  | .fail _ => ⟨1, []⟩
  | .work j =>
    let body : Option (List UInt8) := match j.input with
      | none => some w.body
      | some path => (w.look path).content?
    match body with
    | none => ⟨1, []⟩
    | some body =>
      match j.run body w.now w.ids with
      | (output, .ok _) => ⟨0, output⟩
      | (output, .error _) => ⟨1, output⟩

/-- Runs the program. -/
def run (w : Surroundings) (arguments : List String) : Outcome :=
  Plan.run w (Id.run (Plan.ofArguments (fun path => pure (w.look path)) w.homes arguments))

end ChatDialect.CommandLine
