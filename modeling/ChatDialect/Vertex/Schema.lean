import ChatDialect.Json.Tagged
import ChatDialect.Text.Ascii

/-! The schemas of the Vertex dialect. -/
namespace ChatDialect.Vertex

open Json (Codec Field Fields Source Tree Fault)

inductive SchemaKind where
  | string
  | number
  | integer
  | boolean
  | array
  | object
  | null
  deriving DecidableEq, Repr

namespace SchemaKind

def name : SchemaKind → String
  | .string => "STRING"
  | .number => "NUMBER"
  | .integer => "INTEGER"
  | .boolean => "BOOLEAN"
  | .array => "ARRAY"
  | .object => "OBJECT"
  | .null => "NULL"

def ofName? : String → Option SchemaKind
  | "STRING" => some .string
  | "NUMBER" => some .number
  | "INTEGER" => some .integer
  | "BOOLEAN" => some .boolean
  | "ARRAY" => some .array
  | "OBJECT" => some .object
  | "NULL" => some .null
  | _ => none

def codec : Codec SchemaKind := .name ofName? name

/-- The kind of a type name of JSON Schema, letter case ignored. -/
def parse? (s : String) : Option SchemaKind := ofName? (Text.upper s)

end SchemaKind

/-- The keywords of a schema that hold no schemas. -/
structure Keywords where
  kind : Option SchemaKind
  format : Option String
  title : Option String
  description : Option String
  nullable : Option Bool
  enumValues : Option (List Json)
  propertyOrdering : Option (List String)
  required : Option (List String)
  minimum : Option Double
  maximum : Option Double
  minLength : Option UInt64
  maxLength : Option UInt64
  minItems : Option UInt64
  maxItems : Option UInt64
  minProperties : Option UInt64
  maxProperties : Option UInt64
  pattern : Option String
  fallback : Option Json
  sample : Option Json

def Keywords.none : Keywords :=
  { kind := .none, format := .none, title := .none, description := .none, nullable := .none,
    enumValues := .none, propertyOrdering := .none, required := .none, minimum := .none,
    maximum := .none, minLength := .none, maxLength := .none, minItems := .none,
    maxItems := .none, minProperties := .none, maxProperties := .none, pattern := .none,
    fallback := .none, sample := .none }

structure Schema where
  keywords : Keywords
  properties : Option (List (String × Schema))
  items : Option Schema
  anyOf : Option (List Schema)

namespace Schema

def empty : Schema := { keywords := .none, properties := none, items := none, anyOf := none }

/-- A field that is written when there is a value. -/
def entry (name : String) (value : Option Json) : List (String × Json) :=
  match value with
  | some j => [(name, j)]
  | none => []

def ofCount (n : UInt64) : Json := .num (.int (.ofUInt64 n))

def ofTexts (texts : List String) : Json := .arr (texts.map .str)

mutual
def toJson : Schema → Json
  | ⟨k, properties, items, anyOf⟩ => .obj <|
    entry "type" (k.kind.map fun kind => .str kind.name) ++
    entry "format" (k.format.map .str) ++
    entry "title" (k.title.map .str) ++
    entry "description" (k.description.map .str) ++
    entry "nullable" (k.nullable.map .bool) ++
    entry "enum" (k.enumValues.map .arr) ++
    entry "properties" (match properties with
      | some ps => some (.obj (toJsonNamed ps))
      | none => none) ++
    entry "propertyOrdering" (k.propertyOrdering.map ofTexts) ++
    entry "required" (k.required.map ofTexts) ++
    entry "items" (match items with
      | some s => some s.toJson
      | none => none) ++
    entry "anyOf" (match anyOf with
      | some ss => some (.arr (toJsonAll ss))
      | none => none) ++
    entry "minimum" (k.minimum.map fun x => .num (.float x)) ++
    entry "maximum" (k.maximum.map fun x => .num (.float x)) ++
    entry "minLength" (k.minLength.map ofCount) ++
    entry "maxLength" (k.maxLength.map ofCount) ++
    entry "minItems" (k.minItems.map ofCount) ++
    entry "maxItems" (k.maxItems.map ofCount) ++
    entry "minProperties" (k.minProperties.map ofCount) ++
    entry "maxProperties" (k.maxProperties.map ofCount) ++
    entry "pattern" (k.pattern.map .str) ++
    entry "default" k.fallback ++
    entry "example" k.sample

def toJsonNamed : List (String × Schema) → List (String × Json)
  | [] => []
  | (name, s) :: rest => (name, s.toJson) :: toJsonNamed rest

def toJsonAll : List Schema → List Json
  | [] => []
  | s :: rest => s.toJson :: toJsonAll rest
end

/-- A schema whose inner schemas are read by `inner`. -/
def layout (inner : Codec Schema) : Codec Schema :=
  .record
    (.cons (.optionalInPlace "type" SchemaKind.codec) <|
      .cons (.optionalInPlace "format" .string) <|
      .cons (.optionalInPlace "title" .string) <|
      .cons (.optionalInPlace "description" .string) <|
      .cons (.optionalInPlace "nullable" .bool) <|
      .cons (.optionalInPlace "enum" (.list .value)) <|
      .cons (.optionalInPlace "properties" (.keyed inner)) <|
      .cons (.optionalInPlace "propertyOrdering" (.list .string)) <|
      .cons (.optionalInPlace "required" (.list .string)) <|
      .cons (.optionalInPlace "items" inner) <|
      .cons (.optionalInPlace "anyOf" (.list inner)) <|
      .cons (.optionalInPlace "minimum" .double) <|
      .cons (.optionalInPlace "maximum" .double) <|
      .cons (.optionalInPlace "minLength" .uint64) <|
      .cons (.optionalInPlace "maxLength" .uint64) <|
      .cons (.optionalInPlace "minItems" .uint64) <|
      .cons (.optionalInPlace "maxItems" .uint64) <|
      .cons (.optionalInPlace "minProperties" .uint64) <|
      .cons (.optionalInPlace "maxProperties" .uint64) <|
      .cons (.optionalInPlace "pattern" .string) <|
      .cons (.optionalInPlace "default" .value) <|
      .cons (.optionalInPlace "example" .value) .nil)
    (fun (kind, format, title, description, nullable, enumValues, properties, propertyOrdering,
        required, items, anyOf, minimum, maximum, minLength, maxLength, minItems, maxItems,
        minProperties, maxProperties, pattern, fallback, sample, ()) =>
      ⟨⟨kind, format, title, description, nullable, enumValues, propertyOrdering, required, minimum,
          maximum, minLength, maxLength, minItems, maxItems, minProperties, maxProperties, pattern,
          fallback, sample⟩, properties, items, anyOf⟩)
    (fun ⟨k, properties, items, anyOf⟩ =>
      (k.kind, k.format, k.title, k.description, k.nullable, k.enumValues, properties,
        k.propertyOrdering, k.required, items, anyOf, k.minimum, k.maximum, k.minLength,
        k.maxLength, k.minItems, k.maxItems, k.minProperties, k.maxProperties, k.pattern,
        k.fallback, k.sample, ()))

/-- Schemas nested less than `depth` deep. -/
def codecAt : (depth : Nat) → Codec Schema
  | 0 => { decode := fun _ _ => .error .malformed, encode := fun s => some s.toJson }
  | depth + 1 => { decode := (layout (codecAt depth)).decode, encode := fun s => some s.toJson }

/-- Each nested schema lies in an object of its own, so the limit of the text comes first. -/
def codec : Codec Schema := codecAt (Json.nestingLimit + 1)

end Schema

end ChatDialect.Vertex
