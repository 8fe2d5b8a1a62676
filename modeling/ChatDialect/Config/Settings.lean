import ChatDialect.Config.Files
import ChatDialect.Config.Toml
import ChatDialect.Gateway
import ChatDialect.Keyed

/-! Settings: where they are looked for, how they are read, and what they decide. -/
namespace ChatDialect

structure Settings where
  /-- The provider to use when none is named. -/
  provider : Option String
  /-- The models to use in the place of others, in ascending order of the names replaced. -/
  models : List (String × String)
  /-- Whether skipped lines of a stream are worth a note. -/
  logSkipped : Bool
  deriving DecidableEq, Repr

/-- The directories that settings are looked for in. -/
structure Homes where
  home : Option String
  config : Option String
  deriving DecidableEq, Repr

namespace Settings

def standard : Settings := ⟨none, [], true⟩

/-- The key that a date or time goes by where a table is asked for. -/
def timeKey : String := "$__toml_private_datetime"

/-- Texts under their keys. -/
def texts? : Toml.Entries → Option (List (String × String))
  | [] => some []
  | (key, .str s) :: rest => (texts? rest).map ((key, s) :: ·)
  | _ :: _ => none

def models? : Toml.Item → Option (List (String × String))
  | .table _ entries => (texts? entries).map Keyed.ofList
  | .time text => some [(timeKey, text)]
  | _ => none

/-- Whether skipped lines are logged: the first setting of the stream, by name or by position. -/
def logSkipped? : Toml.Item → Option Bool
  | .table _ entries =>
    match entries.lookup "log_skipped" with
    | none => some true
    | some (.bool b) => some b
    | some _ => none
  | .array [] => some true
  | .array (.bool b :: _) => some b
  | .time _ => some true
  | _ => none

/-- An entry that may be missing. -/
def entry? {α : Type} (read : Toml.Item → Option α) (missing : α) (key : String)
    (entries : Toml.Entries) : Option α :=
  match entries.lookup key with
  | none => some missing
  | some item => read item

def provider? : Toml.Item → Option (Option String)
  | .str s => some (some s)
  | _ => none

/-- Settings from the entries of a document; unknown entries are ignored. -/
def ofEntries? (entries : Toml.Entries) : Option Settings := do
  let provider ← entry? provider? none "provider" entries
  let models ← entry? models? [] "models" entries
  let logSkipped ← entry? logSkipped? true "stream" entries
  return ⟨provider, models, logSkipped⟩

def ofString (text : String) : Except Failure Settings :=
  match Toml.parse? text >>= ofEntries? with
  | some s => .ok s
  | none => .error .toml

/-- Settings from what lies at a path. -/
def ofFile (entry : FileEntry) : Except Failure Settings :=
  match entry.content? >>= Utf8.toString? with
  | some text => ofString text
  | none => .error .config

/-- The name that files and directories of settings go by. -/
def programName : String := "relay-translate"

/-- A path below a directory. -/
def below (directory path : String) : String :=
  if directory = "" ∨ directory.toList.getLast? = some '/' then directory ++ path
  else directory ++ "/" ++ path

/-- Where settings are looked for, first things first. -/
def searchPaths (homes : Homes) : List String :=
  let stored := programName ++ "/config.toml"
  [programName ++ ".toml"]
    ++ homes.config.toList.map (below · stored)
    ++ homes.home.toList.flatMap fun home =>
      [below home (".config/" ++ stored), below home ("." ++ programName ++ ".toml")]

variable {m : Type → Type} [Monad m]

/-- The settings at the first of some paths where there is something. -/
def findFirst (look : String → m FileEntry) : List String → m (Except Failure Settings)
  | [] => return .ok standard
  | path :: paths => do
    let entry ← look path
    if entry.isPresent then return ofFile entry else findFirst look paths

/-- The settings at the path that is given, else where settings are looked for. -/
def find (look : String → m FileEntry) (homes : Homes) (given : Option String) :
    m (Except Failure Settings) :=
  match given with
  | some path => ofFile <$> look path
  | none => findFirst look (searchPaths homes)

/-- The model to use for another; one without a replacement stands for itself. -/
def resolveModel (s : Settings) (requested : String) : String :=
  (s.models.lookup requested).getD requested

def defaultProvider (s : Settings) : Except Failure (Option Provider) :=
  match s.provider with
  | none => .ok none
  | some name => some <$> Provider.find name

end Settings
end ChatDialect
