import Mathlib
import ChatDialect.Vertex.OfJsonSchema

/-! Which keywords of JSON Schema a translated schema carries. An object without a union, or with
one that stays a union, keeps all of them. A union with a single variant that is not `null` puts
the variant in the place of an object without a kind, and of the object's own keywords only the
title, the description and the default survive. -/
namespace ChatDialect.Vertex.Schema

/-- The keywords that have a counterpart, apart from the type, its nullability and unions. -/
inductive Keyword where
  | format
  | title
  | description
  | enumValues
  | properties
  | required
  | propertyOrdering
  | items
  | minimum
  | maximum
  | minLength
  | maxLength
  | minItems
  | maxItems
  | minProperties
  | maxProperties
  | pattern
  | fallback
  | sample
  deriving DecidableEq, Repr

/-- What a keyword says. -/
inductive Keyword.Value where
  | text (s : String)
  | texts (texts : List String)
  | bound (x : Double)
  | count (n : UInt64)
  | values (values : List Json)
  | schema (s : Schema)
  | named (schemas : List (String × Schema))

namespace Keyword

def name : Keyword → String
  | format => "format"
  | title => "title"
  | description => "description"
  | enumValues => "enum"
  | properties => "properties"
  | required => "required"
  | propertyOrdering => "propertyOrdering"
  | items => "items"
  | minimum => "minimum"
  | maximum => "maximum"
  | minLength => "minLength"
  | maxLength => "maxLength"
  | minItems => "minItems"
  | maxItems => "maxItems"
  | minProperties => "minProperties"
  | maxProperties => "maxProperties"
  | pattern => "pattern"
  | fallback => "default"
  | sample => "example"

/-- The schema of items, or of the first item of a tuple. -/
def itemSchema? : Json → Option Schema
  | .obj fields => some (translate (.obj fields))
  | .arr tuple => tuple.head?.map translate
  | _ => none

/-- What a well-formed value of the keyword says; the schemas in it are translated. A count is a
number or the digits of one. -/
def read : Keyword → Json → Option Value
  | format | title | description | pattern => fun
    | .str s => some (.text s)
    | _ => none
  | required | propertyOrdering => fun
    | .arr texts => some (.texts (texts.filterMap Json.str?))
    | _ => none
  | minimum | maximum => fun
    | .num n => some (.bound n.toDouble)
    | _ => none
  | minLength | maxLength | minItems | maxItems | minProperties | maxProperties => fun
    | .num (.int n) => if 0 ≤ n.val then some (.count n.val.toNat.toUInt64) else none
    | .str s =>
      (Text.natBelow? UInt64.size (Text.trimChars s.toList)).map fun n => .count n.toUInt64
    | _ => none
  | enumValues => fun
    | .arr values => some (.values values)
    | _ => none
  | properties => fun
    | .obj fields => some (.named (fields.map fun p => (p.1, translate p.2)))
    | _ => none
  | items => fun j => (itemSchema? j).map .schema
  | fallback | sample => fun j => some (.values [j])

/-- What an object says under the keyword; a constant is an enumeration of one value. -/
def own? (m : Members) (k : Keyword) : Option Value :=
  let constant := if k = enumValues then (m.lookup "const").map fun j => .values [j] else none
  ((m.lookup k.name).bind k.read).or constant

/-- The keywords of an object that the variant in its place does not hide. -/
def Prevails (k : Keyword) : Prop := k = title ∨ k = description ∨ k = fallback

instance (k : Keyword) : Decidable k.Prevails := inferInstanceAs (Decidable (_ ∨ _))

end Keyword

/-- What a schema says under a keyword. -/
def value? (s : Schema) : Keyword → Option Keyword.Value
  | .format => s.keywords.format.map .text
  | .title => s.keywords.title.map .text
  | .description => s.keywords.description.map .text
  | .enumValues => s.keywords.enumValues.map .values
  | .properties => s.properties.map .named
  | .required => s.keywords.required.map .texts
  | .propertyOrdering => s.keywords.propertyOrdering.map .texts
  | .items => s.items.map .schema
  | .minimum => s.keywords.minimum.map .bound
  | .maximum => s.keywords.maximum.map .bound
  | .minLength => s.keywords.minLength.map .count
  | .maxLength => s.keywords.maxLength.map .count
  | .minItems => s.keywords.minItems.map .count
  | .maxItems => s.keywords.maxItems.map .count
  | .minProperties => s.keywords.minProperties.map .count
  | .maxProperties => s.keywords.maxProperties.map .count
  | .pattern => s.keywords.pattern.map .text
  | .fallback => s.keywords.fallback.map fun j => .values [j]
  | .sample => s.keywords.sample.map fun j => .values [j]

/-- The variants of the union of an object. -/
def variants? (m : Members) : Option (List Json) := (m.lookup (unionKey m)).bind Json.arr?

/-- The variant that takes the place of an object: the only one that is not `null`, if the object
gives no kind itself. -/
def merged? (m : Members) : Option Json :=
  match kindAt m, (variants? m).map (·.filter (!isNullVariant ·)) with
  | none, some [v] => some v
  | _, _ => none

theorem lookup_partsOfFields (fields : List (String × Json)) (key : String) :
    (partsOfFields fields).lookup key = (fields.lookup key).map parts := by
  induction fields with
  | nil => rfl
  | cons field fields ih =>
    obtain ⟨k, x⟩ := field
    rw [partsOfFields, List.lookup_cons, List.lookup_cons]
    split
    · rfl
    · exact ih

theorem named_partsOfFields (fields : List (String × Json)) :
    ((partsOfFields fields).map fun p => (p.1, p.2.whole)) =
      fields.map fun p => (p.1, translate p.2) := by
  induction fields with
  | nil => rfl
  | cons field fields ih => exact congrArg ((field.1, translate field.2) :: ·) ih

theorem partsOfItems_eq (items : List Json) : partsOfItems items = items.map translate := by
  induction items with
  | nil => rfl
  | cons x items ih => exact congrArg (translate x :: ·) ih

/-- The schema of an object before its union is looked at. -/
def bare (m : Members) : Schema :=
  { keywords := keywordsOf m, properties := propertiesAt m (partsOfFields m),
    items := itemsAt m (partsOfFields m), anyOf := .none }

theorem propertiesAt_eq (m : Members) :
    propertiesAt m (partsOfFields m) =
      ((m.lookup "properties").bind Json.obj?).map (·.map fun p => (p.1, translate p.2)) := by
  unfold propertiesAt
  rw [lookup_partsOfFields]
  cases m.lookup "properties" with
  | none => rfl
  | some j =>
    cases j with
    | obj fields => exact congrArg some (named_partsOfFields fields)
    | _ => rfl

theorem itemsAt_eq (m : Members) :
    itemsAt m (partsOfFields m) = (m.lookup "items").bind Keyword.itemSchema? := by
  unfold itemsAt
  rw [lookup_partsOfFields]
  cases m.lookup "items" with
  | none => rfl
  | some j =>
    cases j with
    | arr tuple =>
      change (partsOfItems tuple).head? = tuple.head?.map translate
      rw [partsOfItems_eq, List.head?_map]
    | _ => rfl

theorem variantsAt_eq (m : Members) :
    variantsAt m (partsOfFields m) =
      (variants? m).map fun variants => variants.map fun v => (v, translate v) := by
  unfold variantsAt variants?
  rw [lookup_partsOfFields]
  cases m.lookup (unionKey m) with
  | none => rfl
  | some j =>
    cases j with
    | arr variants =>
      have hzip : variants.zip (partsOfItems variants) =
          variants.map fun v => (v, translate v) := by
        rw [partsOfItems_eq]
        induction variants with
        | nil => rfl
        | cons v variants ih => exact congrArg ((v, translate v) :: ·) ih
      exact congrArg some hzip
    | _ => rfl

namespace Keyword

/-- A keyword with one spelling says what its value is read as. -/
theorem own?_of_read {α : Type} {k : Keyword} {get : Json → Option α} {value : α → Value}
    (hk : k ≠ enumValues) (h : ∀ j, k.read j = (get j).map value) (m : Members) :
    k.own? m = ((m.lookup k.name).bind get).map value := by
  rw [own?, if_neg hk, Option.or_none, Option.map_bind]
  exact congrArg (Option.bind _) (funext h)

theorem read_count (j : Json) : minLength.read j = (count? j).map .count := by
  cases j with
  | num n =>
    cases n with
    | int n =>
      change _ = (if 0 ≤ n.val then some n.val.toNat.toUInt64 else none).map Value.count
      rw [apply_ite (Option.map _)]
      rfl
    | float x => rfl
  | str s => exact (Option.map_map _ _ _).symm
  | _ => rfl

end Keyword

/-- Before its union is looked at, an object says what stands under its keywords. -/
theorem value?_bare (m : Members) (k : Keyword) : (bare m).value? k = k.own? m := by
  symm
  cases k with
  | format | title | description | pattern =>
    exact Keyword.own?_of_read (by decide) (fun j => by cases j <;> rfl) m
  | required | propertyOrdering | minimum | maximum =>
    refine (Keyword.own?_of_read (by decide) (fun j => ?_) m).trans (Option.map_map _ _ _).symm
    cases j <;> rfl
  | minLength | maxLength | minItems | maxItems | minProperties | maxProperties =>
    -- they are all read in one way
    exact Keyword.own?_of_read (by decide) (by exact Keyword.read_count) m
  | enumValues =>
    have hread (j : Json) : Keyword.enumValues.read j = j.arr?.map .values := by cases j <;> rfl
    change _ = (enumAt m).map _
    unfold enumAt
    rw [Keyword.own?, if_pos rfl, funext hread, Option.map_or, Option.map_bind, Option.map_map]
    rfl
  | properties =>
    change _ = (propertiesAt m (partsOfFields m)).map _
    rw [propertiesAt_eq, Option.map_map]
    exact Keyword.own?_of_read (by decide) (fun j => by cases j <;> rfl) m
  | items =>
    change _ = (itemsAt m (partsOfFields m)).map _
    rw [itemsAt_eq]
    exact Keyword.own?_of_read (by decide) (fun _ => rfl) m
  | fallback =>
    change ((m.lookup "default").bind _).or none = (m.lookup "default").map _
    cases m.lookup "default" <;> rfl
  | sample =>
    change ((m.lookup "example").bind _).or none = (m.lookup "example").map _
    cases m.lookup "example" <;> rfl

theorem value?_inferKind (s : Schema) (k : Keyword) : (inferKind s).value? k = s.value? k := by
  unfold inferKind
  split
  · rfl
  · split
    · cases k <;> rfl
    · split
      · cases k <;> rfl
      · rfl

theorem translate_obj (m : Members) :
    translate (.obj m) = inferKind (((variants? m).map fun variants =>
      joinVariants (bare m) (variants.map fun v => (v, translate v))).getD (bare m)) := by
  change assemble m (partsOfFields m) = _
  unfold assemble
  simp only [variantsAt_eq]
  cases variants? m <;> rfl

/-- A variant in the place of an object gives all keywords but the ones that prevail. -/
theorem value?_joinVariants_merged {s : Schema} {variants : List (Json × Schema)} {inner : Schema}
    (hkind : s.keywords.kind = none)
    (hinner : (variants.filter (!isNullVariant ·.1)).map (·.2) = [inner]) (k : Keyword) :
    (joinVariants s variants).value? k =
      if k.Prevails then (s.value? k).or (inner.value? k) else inner.value? k := by
  unfold joinVariants
  simp only [hkind, hinner]
  cases k with
  | title => exact Option.map_or
  | description => exact Option.map_or
  | fallback => exact Option.map_or
  | _ => rfl

/-- Other unions leave the keywords alone. -/
theorem value?_joinVariants_kept {s : Schema} {variants : List (Json × Schema)}
    (h : ∀ inner, (variants.filter (!isNullVariant ·.1)).map (·.2) = [inner] →
      s.keywords.kind ≠ none) (k : Keyword) :
    (joinVariants s variants).value? k = s.value? k := by
  unfold joinVariants
  -- by `h` only the last case of the definition is left
  simp only
  cases k <;> rfl

theorem merged?_eq_some {m : Members} {v : Json} :
    merged? m = some v ↔ kindAt m = none ∧
      ∃ variants, variants? m = some variants ∧ variants.filter (!isNullVariant ·) = [v] := by
  unfold merged?
  constructor
  · intro h
    split at h
    · next hkind hfilter =>
      obtain ⟨variants, hvariants, hv⟩ := Option.map_eq_some_iff.mp hfilter
      cases h
      exact ⟨hkind, variants, hvariants, hv⟩
    · cases h
  · rintro ⟨hkind, variants, hvariants, hv⟩
    rw [hkind, hvariants, Option.map_some, hv]

theorem schemas_eq (variants : List Json) :
    ((variants.map fun v => (v, translate v)).filter (!isNullVariant ·.1)).map (·.2) =
      (variants.filter (!isNullVariant ·)).map translate := by
  rw [List.filter_map, List.map_map]
  rfl

/-- The variant in the place of an object is the only one whose schema joins. -/
theorem schemas_of_merged {m : Members} {v : Json} (h : merged? m = some v) :
    (bare m).keywords.kind = none ∧ ∃ variants, variants? m = some variants ∧
      ((variants.map fun v => (v, translate v)).filter (!isNullVariant ·.1)).map (·.2) =
        [translate v] := by
  obtain ⟨hkind, variants, hvariants, hv⟩ := merged?_eq_some.mp h
  refine ⟨hkind, variants, hvariants, ?_⟩
  rw [schemas_eq, hv, List.map_singleton]

/-- A single variant that does not take the place of an object stands beside a kind. -/
theorem kind_of_unmerged {m : Members} {variants : List Json} (h : merged? m = none)
    (hvariants : variants? m = some variants) (inner : Schema)
    (hinner : ((variants.map fun v => (v, translate v)).filter (!isNullVariant ·.1)).map (·.2) =
      [inner]) : (bare m).keywords.kind ≠ none := by
  intro hkind
  rw [schemas_eq] at hinner
  obtain ⟨v, hv, -⟩ := List.map_eq_singleton_iff.mp hinner
  rw [merged?_eq_some.mpr ⟨hkind, variants, hvariants, hv⟩] at h
  cases h

/-- What the schema of an object says under a keyword. -/
theorem value?_translate (m : Members) (k : Keyword) :
    (translate (.obj m)).value? k =
      match merged? m with
      | none => k.own? m
      | some v =>
        if k.Prevails then (k.own? m).or ((translate v).value? k) else (translate v).value? k := by
  rw [translate_obj, value?_inferKind]
  cases hmerged : merged? m with
  | some v =>
    obtain ⟨hkind, variants, hvariants, hinner⟩ := schemas_of_merged hmerged
    rw [hvariants, Option.map_some, Option.getD_some, value?_joinVariants_merged hkind hinner,
      value?_bare]
  | none =>
    cases hvariants : variants? m with
    | none => exact value?_bare m k
    | some variants =>
      rw [Option.map_some, Option.getD_some,
        value?_joinVariants_kept (kind_of_unmerged hmerged hvariants), value?_bare]

/-- Every keyword that an object supplies is set in its schema, from the object's own value or from
the variant in its place, if that supplies the keyword too. -/
def Carries (m : Members) : Prop :=
  ∀ k w, Keyword.own? m k = some w → ∃ w', (translate (.obj m)).value? k = some w' ∧
    (w' = w ∨ ∃ v, merged? m = some v ∧ (translate v).value? k = some w')

/-- Nothing gets lost but what a variant in the place of an object hides: an object carries its
keywords if and only if there is no such variant, or it supplies every keyword of the object that
does not prevail. -/
theorem carries_iff (m : Members) :
    (∀ k, (translate (.obj m)).value? k =
      match merged? m with
      | none => k.own? m
      | some v =>
        if k.Prevails then (k.own? m).or ((translate v).value? k)
        else (translate v).value? k) ∧
    (Carries m ↔ ∀ v, merged? m = some v → ∀ k, ¬ k.Prevails → (k.own? m).isSome →
      ((translate v).value? k).isSome) := by
  have hvalue := value?_translate m
  refine ⟨hvalue, ?_, ?_⟩
  · intro hcarries v hv k hk hown
    obtain ⟨w, hw⟩ := Option.isSome_iff_exists.mp hown
    obtain ⟨w', hset, -⟩ := hcarries k w hw
    simp only [hvalue, hv, if_neg hk] at hset
    rw [hset]
    rfl
  · intro hvariant k w hw
    rw [hvalue]
    cases hmerged : merged? m with
    | none => exact ⟨w, hw, .inl rfl⟩
    | some v =>
      by_cases hk : k.Prevails
      · refine ⟨w, ?_, .inl rfl⟩
        simp only [if_pos hk, hw, Option.some_or]
      · have hown : (k.own? m).isSome := by
          rw [hw]
          rfl
        obtain ⟨w', hw'⟩ := Option.isSome_iff_exists.mp (hvariant v hmerged k hk hown)
        refine ⟨w', ?_, .inr ⟨v, rfl, hw'⟩⟩
        simp only [if_neg hk, hw']

/-- A text that is a date or `null`; the format stands beside the union. -/
def datedUnion : Members :=
  [("anyOf", .arr [.obj [("type", .str "string")], .obj [("type", .str "null")]]),
    ("format", .str "date-time")]

/-- The format of the union is lost. -/
theorem datedUnion_loses_format :
    Keyword.format.own? datedUnion = some (.text "date-time") ∧
      (translate (.obj datedUnion)).value? .format = none ∧ ¬ Carries datedUnion := by
  have hown : Keyword.format.own? datedUnion = some (.text "date-time") := by rfl
  have hlost : (translate (.obj datedUnion)).value? .format = none := by cbv
  refine ⟨hown, hlost, ?_⟩
  intro hcarries
  obtain ⟨w, hw, -⟩ := hcarries .format _ hown
  rw [hlost] at hw
  cases hw

end ChatDialect.Vertex.Schema
