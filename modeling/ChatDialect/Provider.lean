import ChatDialect.Text.Ascii
import ChatDialect.Text.Blank

/-! The providers, and the names they go by. -/
namespace ChatDialect

inductive Provider where
  | anthropic
  | vertex
  deriving DecidableEq, Repr

namespace Provider

def all : List Provider := [.anthropic, .vertex]

def name : Provider → String
  | .anthropic => "anthropic"
  | .vertex => "vertex"

def aliases : Provider → List String
  | .anthropic => ["claude"]
  | .vertex => ["vertex_ai", "gemini", "google"]

def makesImages : Provider → Bool
  | .anthropic => false
  | .vertex => true

def answersTo (key : String) (p : Provider) : Bool := p.name == key || p.aliases.contains key

/-- The provider with a name or alias, letter case and the blanks around it ignored. -/
def ofName? (name : String) : Option Provider :=
  all.find? (answersTo (Text.lower (Text.trim name)))

end Provider
end ChatDialect
