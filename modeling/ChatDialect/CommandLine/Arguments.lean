/-!
The arguments of a command line: options, and a command that more options may follow. An option
with a value takes it from its own argument (`--model=m`, `-mm`, `-m=m`) or from the next one,
unless that begins as an option does.
-/
namespace ChatDialect.CommandLine

/-- The conversion to carry out. -/
inductive Command where
  | request
  | response
  | stream
  | imageRequest
  | imageResponse
  deriving DecidableEq, Repr

namespace Command

def all : List Command := [.request, .response, .stream, .imageRequest, .imageResponse]

def name : Command → String
  | .request => "request"
  | .response => "response"
  | .stream => "stream"
  | .imageRequest => "image-request"
  | .imageResponse => "image-response"

def ofName? (name : String) : Option Command := all.find? (·.name == name)

end Command

/-- An option with a value. -/
inductive Setting where
  | config
  | input
  | provider
  | model
  deriving DecidableEq, Repr

namespace Setting

def all : List Setting := [.config, .input, .provider, .model]

def name : Setting → String
  | .config => "config"
  | .input => "input"
  | .provider => "provider"
  | .model => "model"

def letter? : Setting → Option Char
  | .config => some 'c'
  | .input => some 'i'
  | .provider => none
  | .model => some 'm'

/-- Whether the value is a path, which cannot be empty. -/
def isPath : Setting → Bool
  | .config => true
  | .input => true
  | .provider => false
  | .model => false

end Setting

/-- An option. -/
inductive Flag where
  | setting (s : Setting)
  | showPaths
  | help
  | version
  deriving DecidableEq, Repr

/-- What help is asked about. -/
inductive Topic where
  | program
  | command (c : Command)
  | help
  deriving DecidableEq, Repr

inductive Misuse where
  | unknown (argument : String)
  | missingValue (s : Setting)
  | needlessValue (name : String)
  | repeated (name : String)
  deriving DecidableEq, Repr

/-- What keeps arguments from being an invocation. -/
inductive Stop where
  | help (topic : Topic)
  | version
  | misuse (m : Misuse)
  deriving DecidableEq, Repr

/-- Where an argument stands: in front of the command or behind it. -/
inductive Place where
  | front
  | behind (c : Command)
  deriving DecidableEq, Repr

namespace Place

def topic : Place → Topic
  | .front => .program
  | .behind c => .command c

/-- The option of a long name. -/
def flag? (p : Place) (name : String) : Option Flag :=
  match Setting.all.find? (·.name == name) with
  | some s => some (.setting s)
  | none =>
    if name = "help" then some .help
    else if p ≠ .front then none
    else if name = "version" then some .version
    else if name = "show-config-paths" then some .showPaths
    else none

/-- The option of a letter. -/
def letterFlag? (p : Place) (letter : Char) : Option Flag :=
  match Setting.all.find? (·.letter? == some letter) with
  | some s => some (.setting s)
  | none =>
    if letter = 'h' then some .help
    else if letter = 'V' ∧ p = .front then some .version
    else none

end Place

/-- An option that waits: for its value, or with its value to be taken before the next option. -/
structure Pending where
  setting : Setting
  value : Option String
  deriving DecidableEq, Repr

/-- What the arguments at one place have said so far. -/
structure Options where
  values : List (Setting × String)
  showPaths : Bool
  pending : Option Pending
  deriving DecidableEq, Repr

namespace Options

def empty : Options := ⟨[], false, none⟩

/-- Takes the value of an option, which may be given once. -/
def assign (o : Options) (s : Setting) (value : String) : Except Stop Options :=
  if (o.values.lookup s).isSome then .error (.misuse (.repeated s.name))
  else if s.isPath ∧ value = "" then .error (.misuse (.missingValue s))
  else .ok { o with values := (s, value) :: o.values }

/-- Takes the value that waits. -/
def settle (o : Options) : Except Stop Options :=
  match o.pending with
  | none => .ok o
  | some ⟨s, none⟩ => .error (.misuse (.missingValue s))
  | some ⟨s, some value⟩ => assign { o with pending := none } s value

/-- Takes an option, with its value if that is in the same argument. -/
def take (o : Options) (p : Place) (name : String) (flag : Flag) (value : Option String) :
    Except Stop Options :=
  match flag, value with
  | .setting s, some value => do
    let o ← o.settle
    o.assign s value
  | .setting s, none => do
    let o ← o.settle
    return { o with pending := some ⟨s, none⟩ }
  | _, some _ => .error (.misuse (.needlessValue name))
  | .help, none => do
    let _ ← o.settle
    .error (.help p.topic)
  | .version, none => do
    let _ ← o.settle
    .error .version
  | .showPaths, none => do
    let o ← o.settle
    if o.showPaths then .error (.misuse (.repeated name)) else .ok { o with showPaths := true }

/-- The setting that waits for its value. -/
def awaiting? (o : Options) : Option Setting :=
  match o.pending with
  | some ⟨s, none⟩ => some s
  | _ => none

end Options

/-- The parts of an argument before and after its first sign of equality. -/
def splitValue (cs : List Char) : String × Option String :=
  let name := cs.takeWhile (· != '=')
  match cs.dropWhile (· != '=') with
  | [] => (String.ofList name, none)
  | _ :: value => (String.ofList name, some (String.ofList value))

/-- The value behind a letter in the same argument. -/
def valueBehind? : List Char → Option String
  | [] => none
  | '=' :: cs => some (String.ofList cs)
  | cs => some (String.ofList cs)

/-- What an argument is by its form. -/
inductive Form where
  /-- Two dashes: no option follows. -/
  | last
  | long (name : String) (value : Option String)
  | short (letter : Char) (behind : List Char)
  | plain
  deriving DecidableEq, Repr

def Form.ofString (argument : String) : Form :=
  match argument.toList with
  | ['-', '-'] => .last
  | '-' :: '-' :: cs => let (name, value) := splitValue cs; .long name value
  | '-' :: c :: cs => .short c cs
  | _ => .plain

/-- Help about a topic by the names that follow the word `help`. -/
def helpTopic : List String → Stop
  | [] => .help .program
  | name :: rest =>
    match Command.ofName? name, rest with
    | some c, [] => .help (.command c)
    | some _, other :: _ => .misuse (.unknown other)
    | none, [] => if name = "help" then .help .help else .misuse (.unknown name)
    | none, other :: _ => .misuse (.unknown (if name = "help" then other else name))

/-- Takes the arguments at one place: the options, and the command with what follows it. -/
def takeAll (p : Place) :
    Options → List String → Except Stop (Options × Option (Command × List String))
  | o, [] => .ok (o, none)
  | o, argument :: rest =>
    match Form.ofString argument with
    | .last =>
      match rest with
      | [] => .ok (o, none)
      | other :: _ => .error (.misuse (.unknown other))
    | .long name value =>
      match p.flag? name with
      | none => .error (.misuse (.unknown argument))
      | some flag => do
        let o ← o.take p name flag value
        takeAll p o rest
    | .short letter behind =>
      match p.letterFlag? letter with
      | none => .error (.misuse (.unknown argument))
      | some (.setting s) => do
        let o ← o.take p s.name (.setting s) (valueBehind? behind)
        takeAll p o rest
      | some flag => do
        let o ← o.take p argument flag none
        takeAll p o rest
    | .plain =>
      match o.awaiting? with
      | some s => takeAll p { o with pending := some ⟨s, some argument⟩ } rest
      | none =>
        match p, Command.ofName? argument with
        | .front, some c => .ok (o, some (c, rest))
        | .front, none =>
          .error (if argument = "help" then helpTopic rest else .misuse (.unknown argument))
        | .behind _, _ => .error (.misuse (.unknown argument))

/-- What the program is asked to do. -/
structure Invocation where
  config : Option String
  input : Option String
  provider : Option String
  model : String
  showPaths : Bool
  command : Option Command
  deriving DecidableEq, Repr

/-- The invocation of options in front of the command and behind it, of which the latter count
more. -/
def Invocation.ofOptions (front behind : Options) (command : Option Command) : Invocation :=
  let values := behind.values ++ front.values
  { config := values.lookup .config
    input := values.lookup .input
    provider := values.lookup .provider
    model := (values.lookup .model).getD ""
    showPaths := front.showPaths
    command := command }

/-- The invocation that arguments stand for. -/
def Invocation.ofArguments (arguments : List String) : Except Stop Invocation := do
  let (front, command) ← takeAll .front .empty arguments
  match command with
  | none =>
    let front ← front.settle
    return .ofOptions front .empty none
  | some (c, rest) =>
    let (behind, _) ← takeAll (.behind c) .empty rest
    let behind ← behind.settle
    let front ← front.settle
    return .ofOptions front behind (some c)

end ChatDialect.CommandLine
