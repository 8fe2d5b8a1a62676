import ChatDialect.Text.Ascii
import ChatDialect.Text.Base64
import ChatDialect.Text.Blank
import ChatDialect.Text.Utf8

/-! URLs of media: inline data, remote references, and all others. -/
namespace ChatDialect.Media

open Text

def octetStream : String := "application/octet-stream"

/-- The type and the base64 text of a data URL. -/
structure DataUrl where
  mimeType : String
  data : String
  deriving DecidableEq, Repr

/-- Where the bytes of a content block are. -/
inductive Location where
  | inline (data : DataUrl)
  | remote (url : String)
  | unsupported
  deriving DecidableEq, Repr

def dataScheme : List Char := ['d', 'a', 't', 'a', ':']

def remoteSchemes : List (List Char) :=
  ["http://".toList, "https://".toList, "file://".toList]

/-- Whether a parameter of a data URL says that its data is base64. -/
def isBase64Mark (cs : List Char) : Bool :=
  (trimChars cs).map Char.toLower == ['b', 'a', 's', 'e', '6', '4']

/-- Reads a data URL whose header carries the base64 mark after its type. -/
def DataUrl.parse? (url : List Char) : Option DataUrl := do
  let rest ← afterIgnoringCase? dataScheme url
  let (header, data) ← splitFirst (· == ',') rest
  match splitAll (· == ';') header with
  | [] => none
  | kind :: params =>
    if params.any isBase64Mark then
      let kind := trimChars kind
      some {
        mimeType := if kind.isEmpty then octetStream else String.ofList kind
        data := String.ofList data }
    else none

def isData (url : List Char) : Bool := (afterIgnoringCase? dataScheme url).isSome

def isRemote (url : List Char) : Bool :=
  remoteSchemes.any fun scheme => (afterIgnoringCase? scheme url).isSome

/-- Tells where a URL leads, blanks around it ignored. -/
def classify (url : String) : Location :=
  let url := trimChars url.toList
  if isData url then
    match DataUrl.parse? url with
    | some data => .inline data
    | none => .unsupported
  else if isRemote url then .remote (String.ofList url)
  else .unsupported

/-- The padded form of base64 text, if it is base64 text. -/
def normalizeBase64 (data : String) : Option String :=
  (Base64.decode? (trimChars data.toList)).map fun bytes => String.ofList (Base64.encode bytes)

end ChatDialect.Media
