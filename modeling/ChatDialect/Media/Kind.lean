import ChatDialect.Media.Url

/-! Media types by file extension and by format name. -/
namespace ChatDialect.Media

open Text

def extensions : List (String × String) := [
  ("png", "image/png"), ("jpg", "image/jpeg"), ("jpeg", "image/jpeg"), ("gif", "image/gif"),
  ("webp", "image/webp"), ("heic", "image/heic"), ("heif", "image/heif"),
  ("mp4", "video/mp4"), ("mov", "video/quicktime"), ("mpeg", "video/mpeg"),
  ("mpg", "video/mpeg"), ("avi", "video/x-msvideo"), ("wmv", "video/x-ms-wmv"),
  ("flv", "video/x-flv"), ("webm", "video/webm"), ("3gp", "video/3gpp"), ("3gpp", "video/3gpp"),
  ("mp3", "audio/mp3"), ("wav", "audio/wav"), ("aac", "audio/aac"), ("ogg", "audio/ogg"),
  ("flac", "audio/flac"), ("aiff", "audio/aiff"), ("m4a", "audio/mp4"),
  ("pdf", "application/pdf"), ("txt", "text/plain"), ("html", "text/html"), ("htm", "text/html"),
  ("css", "text/css"), ("csv", "text/csv"), ("md", "text/markdown"), ("xml", "text/xml"),
  ("rtf", "text/rtf"), ("json", "application/json"), ("js", "text/javascript"),
  ("py", "text/x-python")]

/-- The type of files with an extension, letter case ignored. -/
def ofExtension? (extension : String) : Option String := extensions.lookup (lower extension)

/-- The type that the end of a URL's path suggests; query and fragment are ignored. -/
def ofUrl? (url : String) : Option String := do
  let cs := url.toList
  let path := match splitFirst (fun c => c == '?' || c == '#') cs with
    | some (path, _) => path
    | none => cs
  let file := match splitLast (· == '/') path with
    | some (_, file) => file
    | none => path
  let (_, extension) ← splitLast (· == '.') file
  ofExtension? (String.ofList extension)

/-- The type that a format states: a whole type, or an extension; a blank one states nothing. -/
def stated? (format : Option String) : Option String := do
  let format ← format
  let format := trim format
  if format = "" then none
  else if contains format '/' then some format
  else ofExtension? format

/-- The type of a file: what its format states, else what its URL suggests. -/
def ofFile (url : String) (format : Option String) : String :=
  ((stated? format).or (ofUrl? url)).getD octetStream

def audioFormats : List (String × String) := [
  ("wav", "audio/wav"), ("x-wav", "audio/wav"), ("mp3", "audio/mp3"), ("mpeg", "audio/mpeg"),
  ("aac", "audio/aac"), ("ogg", "audio/ogg"), ("opus", "audio/ogg"), ("flac", "audio/flac"),
  ("aiff", "audio/aiff"), ("aif", "audio/aiff"), ("m4a", "audio/mp4"), ("webm", "audio/webm"),
  ("pcm", "audio/pcm"), ("pcm16", "audio/pcm")]

def ofAudioFormat (format : String) : String :=
  (audioFormats.lookup (lower (trim format))).getD "audio/wav"

def videoFormats : List (String × String) := [
  ("mp4", "video/mp4"), ("mov", "video/quicktime"), ("quicktime", "video/quicktime"),
  ("mpeg", "video/mpeg"), ("mpg", "video/mpeg"), ("avi", "video/x-msvideo"),
  ("wmv", "video/x-ms-wmv"), ("flv", "video/x-flv"), ("webm", "video/webm"),
  ("3gp", "video/3gpp"), ("3gpp", "video/3gpp")]

def ofVideoFormat (format : String) : String :=
  (videoFormats.lookup (lower (trim format))).getD "video/mp4"

end ChatDialect.Media
