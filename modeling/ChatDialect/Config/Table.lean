/-! Tables of a TOML document: each is defined once, by a header, by dotted keys, or inline. -/
namespace ChatDialect.Toml

/-- How a table came to be: by its header, on the way to the header of another, by a dotted key, or
inline. -/
inductive Origin where
  | header
  | passed
  | dotted
  | inline
  deriving DecidableEq, Repr

inductive Item where
  | str (s : String)
  | bool (b : Bool)
  | integer (n : Int)
  | float (text : String)
  | time (text : String)
  | array (items : List Item)
  | table (origin : Origin) (entries : List (String × Item))
  | tables (tables : List (List (String × Item)))

abbrev Entries := List (String × Item)

namespace Entries

/-- Puts an item under a key. -/
def set (key : String) (item : Item) : Entries → Entries
  | [] => [(key, item)]
  | (k, x) :: rest => if k = key then (key, item) :: rest else (k, x) :: set key item rest

/-- A change of the table at a path. A dotted path leads through tables that have no header; any
other one also leads through the last table of a list. -/
def alter (dotted : Bool) (f : Origin → Entries → Option Entries) :
    List String → Origin → Entries → Option Entries
  | [], origin, es => f origin es
  | key :: path, _, es =>
    match es.lookup key with
    | none => do
      let origin := if dotted then .dotted else .passed
      let inner ← alter dotted f path origin []
      return set key (.table origin inner) es
    | some (.table origin inner) =>
      if origin = .inline ∨ dotted ∧ origin = .header then none
      else do
        let inner ← alter dotted f path origin inner
        return set key (.table origin inner) es
    | some (.tables ts) =>
      match ts.getLast? with
      | none => none
      | some last => do
        let last ← alter dotted f path .header last
        return set key (.tables (ts.dropLast ++ [last])) es
    | some _ => none

/-- A new entry under a dotted key. A key with dots only adds to a table that such keys made. -/
def define (path : List String) (key : String) (item : Item) (es : Entries) : Option Entries :=
  alter true
    (fun origin es =>
      if !path.isEmpty ∧ origin ≠ .dotted then none
      else if (es.lookup key).isSome then none
      else some (es ++ [(key, item)]))
    path .header es

/-- The table of a header. -/
def openTable (path : List String) (key : String) (es : Entries) : Option Entries :=
  alter false
    (fun _ es => match es.lookup key with
      | none => some (es ++ [(key, .table .header [])])
      | some (.table .passed inner) => some (set key (.table .header inner) es)
      | some _ => none)
    path .header es

/-- One more table in the list of a header. -/
def openListed (path : List String) (key : String) (es : Entries) : Option Entries :=
  alter false
    (fun _ es => match es.lookup key with
      | none => some (es ++ [(key, .tables [[]])])
      | some (.tables ts) => some (set key (.tables (ts ++ [[]])) es)
      | some _ => none)
    path .header es

end Entries
end ChatDialect.Toml
