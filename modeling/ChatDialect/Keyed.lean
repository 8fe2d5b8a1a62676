/-! Lists of entries kept in ascending order of their keys. -/
namespace ChatDialect.Keyed

variable {β : Type}

/-- Puts a value under a key, in the place of the value that was there. -/
def insert (key : String) (value : β) : List (String × β) → List (String × β)
  | [] => [(key, value)]
  | (k, v) :: rest =>
    if key < k then (key, value) :: (k, v) :: rest
    else if key = k then (key, value) :: rest
    else (k, v) :: insert key value rest

/-- Ascending order of the keys; of two values under one key the last stays. -/
def ofList (entries : List (String × β)) : List (String × β) :=
  entries.foldl (fun acc entry => insert entry.1 entry.2 acc) []

/-- Strictly ascending keys. -/
def Sorted (entries : List (String × β)) : Prop := entries.Pairwise fun a b => a.1 < b.1

end ChatDialect.Keyed
