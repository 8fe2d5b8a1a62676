import ChatDialect.CommandLine.Arguments
import ChatDialect.Config.Settings

/-! What the program says about itself. -/
namespace ChatDialect.CommandLine

def version : String := "0.1.0"

def versionText : String := Settings.programName ++ " " ++ version ++ "\n"

def Command.describe : Command → String
  | .request => "Canonical chat request -> provider request"
  | .response => "Provider response -> canonical chat completion"
  | .stream => "Provider SSE stream (stdin) -> canonical SSE stream (stdout)"
  | .imageRequest => "Canonical image request -> provider request"
  | .imageResponse => "Provider image reply -> canonical images response"

/-- A row of a table: a name, and what is said about it. -/
abbrev Row := String × String

def commandRows : List Row :=
  Command.all.map (fun c => (c.name, c.describe)) ++
    [("help", "Print this message or the help of the given subcommand(s)")]

def settingRows : List Row :=
  [("-c, --config <CONFIG>", "Path to config file (TOML)"),
    ("-i, --input <INPUT>", "Read the payload from this file instead of stdin"),
    ("    --provider <PROVIDER>", "Provider name (overrides config)"),
    ("-m, --model <MODEL>", "Target model id (defaults to the one in the payload) [default: ]")]

def pathsRow : Row := ("    --show-config-paths", "Print config search paths and exit")

def helpRow : Row := ("-h, --help", "Print help")

def versionRow : Row := ("-V, --version", "Print version")

/-- A table with a title, its second column aligned. -/
def table (title : String) (rows : List Row) : String :=
  let width := rows.foldl (fun w row => max w row.1.length) 0
  title ++ ":\n" ++ String.join (rows.map fun (name, text) =>
    "  " ++ name ++ "".pushn ' ' (width - name.length) ++ "  " ++ text ++ "\n")

def helpText : Topic → String
  | .program =>
    "Translate OpenAI-shaped payloads to and from Anthropic and Vertex\n\nUsage: "
      ++ Settings.programName ++ " [OPTIONS] [COMMAND]\n\n" ++ table "Commands" commandRows ++ "\n"
      ++ table "Options" (settingRows ++ [pathsRow, helpRow, versionRow])
  | .command c =>
    c.describe ++ "\n\nUsage: " ++ Settings.programName ++ " " ++ c.name ++ " [OPTIONS]\n\n"
      ++ table "Options" (settingRows ++ [helpRow])
  | .help =>
    "Print this message or the help of the given subcommand(s)\n\nUsage: " ++ Settings.programName
      ++ " help [COMMAND]...\n\n"
      ++ table "Arguments" [("[COMMAND]...", "Print help for the subcommand(s)")]

def Misuse.message : Misuse → String
  | .unknown argument => "unexpected argument '" ++ argument ++ "' found"
  | .missingValue s => "a value is required for '--" ++ s.name ++ "' but none was supplied"
  | .needlessValue name => "unexpected value for '--" ++ name ++ "' found; no more were expected"
  | .repeated name => "the argument '--" ++ name ++ "' cannot be used multiple times"

/-- The paths of settings, numbered. -/
def pathsText (homes : Homes) : String :=
  "Config search paths:\n" ++ String.join ((Settings.searchPaths homes).mapIdx fun i path =>
    "  " ++ (i + 1).repr ++ ". " ++ path ++ "\n")

end ChatDialect.CommandLine
