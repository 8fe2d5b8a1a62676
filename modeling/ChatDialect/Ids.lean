/-! Ids of responses and tool calls, drawn from a source that numbers them. -/
namespace ChatDialect

/-- The ids of a source by number: one counter serves both kinds. -/
structure IdSource where
  response : Nat → String
  toolCall : Nat → String

/-- A source and the number of the next id. -/
structure Ids where
  source : IdSource
  next : Nat

namespace Ids

def ofSource (source : IdSource) : Ids := ⟨source, 0⟩

def newResponse (ids : Ids) : String × Ids :=
  (ids.source.response ids.next, { ids with next := ids.next + 1 })

def newToolCall (ids : Ids) : String × Ids :=
  (ids.source.toolCall ids.next, { ids with next := ids.next + 1 })

end Ids

/-- Ids that show their number. -/
def IdSource.sequential (stem : String) : IdSource where
  response n := stem ++ "-" ++ n.repr
  toolCall n := "call_" ++ n.repr

/-- Thirty-two hexadecimal digits for a number below `2 ^ 122`, the marks of a random universal
identifier between them. -/
def universalDigits (n : Nat) : String :=
  let value := (n >>> 74 % 0x1000000000000) <<< 80 + 4 <<< 76 + (n >>> 62 % 0x1000) <<< 64 +
    2 <<< 62 + n % 0x4000000000000000
  let digits := Nat.toDigits 16 value
  String.ofList (List.replicate (32 - digits.length) '0' ++ digits)

/-- Ids that continue from a random number. -/
def IdSource.universal (seed : Nat) : IdSource where
  response n := "chatcmpl-" ++ universalDigits (seed + n)
  toolCall n := "call_" ++ universalDigits (seed + n)

/-- The model to name: the one chosen by the caller, else the one asked for. -/
def targetModel (chosen requested : String) : String := if chosen = "" then requested else chosen

end ChatDialect
