import ChatDialect.Text.Ascii

/-! Files by their paths, as a configuration is looked for among them. -/
namespace ChatDialect

/-- What lies at a path. -/
inductive FileEntry where
  | absent
  /-- Something that has no content to read, such as a directory. -/
  | unreadable
  | file (content : List UInt8)
  deriving DecidableEq, Repr

namespace FileEntry

def isPresent : FileEntry → Bool
  | .absent => false
  | _ => true

def content? : FileEntry → Option (List UInt8)
  | .file content => some content
  | _ => none

end FileEntry

/-- The files below a working directory, each by the names that lead to it. -/
structure FileTree where
  files : List (List String × List UInt8)

namespace FileTree

/-- The steps of a path. -/
def steps (path : String) : List String :=
  (Text.splitAll (· == '/') path.toList).map String.ofList

/-- Whether a step stays where it is. -/
def isIdle (step : String) : Bool := step == "" || step == "."

def ofPaths (entries : List (String × List UInt8)) : FileTree :=
  ⟨entries.map fun (path, content) => ((steps path).filter (!isIdle ·), content)⟩

/-- Whether names lead to a directory: the working directory, or one with a file below it. -/
def isDirectory (t : FileTree) (names : List String) : Bool :=
  names.isEmpty ||
    t.files.any fun (file, _) => names.isPrefixOf file && decide (names.length < file.length)

def entry (t : FileTree) (names : List String) : FileEntry :=
  match t.files.lookup names with
  | some content => .file content
  | none => if t.isDirectory names then .unreadable else .absent

/-- Follows steps from a place; each needs a directory to start from. -/
def walk (t : FileTree) : (names : List String) → List String → FileEntry
  | names, [] => t.entry names
  | names, step :: rest =>
    if !t.isDirectory names then .absent
    else if isIdle step then walk t names rest
    else if step = ".." then
      if names.isEmpty then .absent else walk t names.dropLast rest
    else walk t (names ++ [step]) rest

/-- What lies at a path. Nothing outside the tree can be seen. -/
def find (t : FileTree) (path : String) : FileEntry :=
  if path = "" ∨ path.toList.head? = some '/' then .absent else t.walk [] (steps path)

end FileTree
end ChatDialect
