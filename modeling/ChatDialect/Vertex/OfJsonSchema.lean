import ChatDialect.Text.Blank
import ChatDialect.Vertex.Schema

/-!
Schemas of JSON Schema as schemas of the Vertex dialect. Keywords that have no counterpart are left
out, malformed ones count as absent, and a union with `null` becomes a nullable schema.
-/
namespace ChatDialect.Vertex.Schema

/-- The fields of an object. -/
abbrev Members := List (String × Json)

def stringAt (m : Members) (key : String) : Option String := (m.lookup key).bind Json.str?

/-- The texts of a list; items that are no texts are left out. -/
def stringsAt (m : Members) (key : String) : Option (List String) :=
  ((m.lookup key).bind Json.arr?).map (·.filterMap Json.str?)

def doubleAt (m : Members) (key : String) : Option Double :=
  ((m.lookup key).bind Json.num?).map Number.toDouble

/-- A bound as a number or as the text of one. -/
def count? : Json → Option UInt64
  | .num n => n.toUInt64?
  | .str s => (Text.natBelow? UInt64.size (Text.trimChars s.toList)).map Nat.toUInt64
  | _ => none

def countAt (m : Members) (key : String) : Option UInt64 := (m.lookup key).bind count?

/-- The kinds that a list of type names gives, unknown names left out. -/
def kindsOf (names : List Json) : List SchemaKind :=
  (names.filterMap Json.str?).filterMap SchemaKind.parse?

/-- The kind among several: the first that is not null, else the first. -/
def mainKind (kinds : List SchemaKind) : Option SchemaKind :=
  (kinds.find? (· ≠ .null)).or kinds.head?

def kindAt (m : Members) : Option SchemaKind :=
  match m.lookup "type" with
  | some (.str name) => SchemaKind.parse? name
  | some (.arr names) => mainKind (kindsOf names)
  | _ => none

/-- Whether the list of type names has `null` in it. -/
def listsNull (m : Members) : Bool :=
  match m.lookup "type" with
  | some (.arr names) => (kindsOf names).contains .null
  | _ => false

def nullableAt (m : Members) : Option Bool :=
  if listsNull m then some true else (m.lookup "nullable").bind Json.bool?

/-- The values allowed: those of `enum`, else the one of `const`. -/
def enumAt (m : Members) : Option (List Json) :=
  ((m.lookup "enum").bind Json.arr?).or ((m.lookup "const").map fun j => [j])

def keywordsOf (m : Members) : Keywords where
  kind := kindAt m
  format := stringAt m "format"
  title := stringAt m "title"
  description := stringAt m "description"
  nullable := nullableAt m
  enumValues := enumAt m
  propertyOrdering := stringsAt m "propertyOrdering"
  required := stringsAt m "required"
  minimum := doubleAt m "minimum"
  maximum := doubleAt m "maximum"
  minLength := countAt m "minLength"
  maxLength := countAt m "maxLength"
  minItems := countAt m "minItems"
  maxItems := countAt m "maxItems"
  minProperties := countAt m "minProperties"
  maxProperties := countAt m "maxProperties"
  pattern := stringAt m "pattern"
  fallback := m.lookup "default"
  sample := m.lookup "example"

/-- What a value is to the schema around it: a schema, a list of schemas, or named schemas. -/
structure Parts where
  whole : Schema
  items : List Schema
  named : List (String × Schema)

def Parts.none : Parts := ⟨.empty, [], []⟩

def propertiesAt (m : Members) (parts : List (String × Parts)) : Option (List (String × Schema)) :=
  match m.lookup "properties", parts.lookup "properties" with
  | some (.obj _), some p => some p.named
  | _, _ => .none

/-- The schema of items; of a tuple the first one. -/
def itemsAt (m : Members) (parts : List (String × Parts)) : Option Schema :=
  match m.lookup "items", parts.lookup "items" with
  | some (.obj _), some p => some p.whole
  | some (.arr _), some p => p.items.head?
  | _, _ => .none

/-- The keyword that holds the variants of a union. -/
def unionKey (m : Members) : String := if (m.lookup "anyOf").isSome then "anyOf" else "oneOf"

/-- The variants of a union with their schemas. -/
def variantsAt (m : Members) (parts : List (String × Parts)) : Option (List (Json × Schema)) :=
  match m.lookup (unionKey m), parts.lookup (unionKey m) with
  | some (.arr variants), some p => some (variants.zip p.items)
  | _, _ => .none

/-- Whether a variant only allows `null`. -/
def isNullVariant (j : Json) : Bool := (j.get? "type").bind Json.str? == some "null"

/-- Joins a schema with the variants of its union: a single variant that is not null takes the place
of a schema without a kind, and more stay a union. -/
def joinVariants (s : Schema) (variants : List (Json × Schema)) : Schema :=
  let schemas := (variants.filter (!isNullVariant ·.1)).map (·.2)
  let nullable := if variants.any (isNullVariant ·.1) then some true else s.keywords.nullable
  match schemas, s.keywords.kind with
  | [inner], .none => { inner with keywords := { inner.keywords with
      nullable := nullable.or inner.keywords.nullable
      title := s.keywords.title.or inner.keywords.title
      description := s.keywords.description.or inner.keywords.description
      fallback := s.keywords.fallback.or inner.keywords.fallback } }
  | schemas, _ => { s with
      keywords := { s.keywords with nullable }
      anyOf := if schemas.isEmpty then s.anyOf else some schemas }

/-- Properties make a schema without a kind an object, and items make it an array. -/
def inferKind (s : Schema) : Schema :=
  match s.keywords.kind with
  | some _ => s
  | .none =>
    if s.properties.isSome then { s with keywords := { s.keywords with kind := some .object } }
    else if s.items.isSome then { s with keywords := { s.keywords with kind := some .array } }
    else s

/-- The schema of an object of JSON Schema whose fields are given, with their parts. -/
def assemble (m : Members) (parts : List (String × Parts)) : Schema :=
  let s : Schema :=
    { keywords := keywordsOf m, properties := propertiesAt m parts, items := itemsAt m parts,
      anyOf := .none }
  match variantsAt m parts with
  | some variants => inferKind (joinVariants s variants)
  | .none => inferKind s

mutual
def parts : Json → Parts
  | .arr items => { Parts.none with items := partsOfItems items }
  | .obj fields =>
    let ps := partsOfFields fields
    { whole := assemble fields ps, items := [], named := ps.map fun p => (p.1, p.2.whole) }
  | .null => .none
  | .bool _ => .none
  | .num _ => .none
  | .str _ => .none

def partsOfItems : List Json → List Schema
  | [] => []
  | x :: xs => (parts x).whole :: partsOfItems xs

def partsOfFields : List (String × Json) → List (String × Parts)
  | [] => []
  | (k, x) :: xs => (k, parts x) :: partsOfFields xs
end

/-- The schema of a value of JSON Schema; one that is no object allows everything. -/
def translate (j : Json) : Schema := (parts j).whole

/-- The schema of the parameters of a function, which are an object. -/
def translateParameters (parameters : Option Json) : Schema :=
  let s := (parameters.map translate).getD .empty
  { s with keywords := { s.keywords with kind := s.keywords.kind.or (some .object) } }

end ChatDialect.Vertex.Schema
