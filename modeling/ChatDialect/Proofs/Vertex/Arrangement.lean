import ChatDialect.Proofs.Json.Lookup
import ChatDialect.Proofs.Vertex.Keywords

/-! The fields that a schema writes. Arranged in whatever order, they say what the schema says: the
keywords are read back, and the schemas inside stand where they stood. -/
namespace ChatDialect

/-- A way to arrange the fields of objects: what stands under a key is arranged in turn, and nothing
else changes. -/
structure Json.Arranges (f : Json → Json) : Prop where
  bool (b : Bool) : f (.bool b) = .bool b
  num (n : Number) : f (.num n) = .num n
  str (s : String) : f (.str s) = .str s
  arr (items : List Json) : f (.arr items) = .arr (items.map f)
  obj (fields : List (String × Json)) : (fields.map Prod.fst).Nodup →
    ∃ fields', f (.obj fields) = .obj fields' ∧
      ∀ key, fields'.lookup key = (fields.lookup key).map f

theorem Json.arranges_id : Json.Arranges id where
  bool _ := rfl
  num _ := rfl
  str _ := rfl
  arr items := by rw [List.map_id, id]
  obj fields _ := ⟨fields, rfl, fun key => by rw [Option.map_id, id]⟩

theorem Json.normalizeItems_eq (items : List Json) :
    normalizeItems items = items.map normalize := by
  induction items with
  | nil => rfl
  | cons x items ih => rw [normalizeItems, ih, List.map_cons]

/-- Sorting the fields arranges them. -/
theorem Json.arranges_normalize : Json.Arranges Json.normalize where
  bool _ := rfl
  num _ := rfl
  str _ := rfl
  arr items := by rw [normalize, normalizeItems_eq]
  obj fields hnodup := ⟨_, rfl, get?_normalize hnodup⟩

namespace Vertex

theorem SchemaKind.parse?_name (kind : SchemaKind) : parse? kind.name = some kind := by
  cases kind <;> rfl

namespace Schema

/-- What a schema writes under each name. -/
def rows (s : Schema) : List (String × Option Json) := [
  ("type", s.keywords.kind.map fun kind => .str kind.name),
  ("format", s.keywords.format.map .str),
  ("title", s.keywords.title.map .str),
  ("description", s.keywords.description.map .str),
  ("nullable", s.keywords.nullable.map .bool),
  ("enum", s.keywords.enumValues.map .arr),
  ("properties", s.properties.map fun ps => .obj (toJsonNamed ps)),
  ("propertyOrdering", s.keywords.propertyOrdering.map ofTexts),
  ("required", s.keywords.required.map ofTexts),
  ("items", s.items.map toJson),
  ("anyOf", s.anyOf.map fun ss => .arr (toJsonAll ss)),
  ("minimum", s.keywords.minimum.map fun x => .num (.float x)),
  ("maximum", s.keywords.maximum.map fun x => .num (.float x)),
  ("minLength", s.keywords.minLength.map ofCount),
  ("maxLength", s.keywords.maxLength.map ofCount),
  ("minItems", s.keywords.minItems.map ofCount),
  ("maxItems", s.keywords.maxItems.map ofCount),
  ("minProperties", s.keywords.minProperties.map ofCount),
  ("maxProperties", s.keywords.maxProperties.map ofCount),
  ("pattern", s.keywords.pattern.map .str),
  ("default", s.keywords.fallback),
  ("example", s.keywords.sample)]

/-- The fields that rows give: those with a value. -/
def fieldsOf (rows : List (String × Option Json)) : Members :=
  rows.flatMap fun row => entry row.1 row.2

theorem toJson_eq (s : Schema) : s.toJson = .obj (fieldsOf s.rows) := by
  obtain ⟨k, properties, items, anyOf⟩ := s
  cases properties <;> cases items <;> cases anyOf
  all_goals
    refine congrArg Json.obj ?_
    simp only [fieldsOf, rows, List.flatMap_cons, List.flatMap_nil, List.append_assoc,
      List.append_nil]
    rfl

theorem toJsonAll_eq (ss : List Schema) : toJsonAll ss = ss.map toJson := by
  induction ss with
  | nil => rfl
  | cons s ss ih => rw [toJsonAll, ih, List.map_cons]

theorem toJsonNamed_eq (ps : List (String × Schema)) :
    toJsonNamed ps = ps.map fun p => (p.1, p.2.toJson) := by
  induction ps with
  | nil => rfl
  | cons p ps ih => rw [toJsonNamed, ih, List.map_cons]

theorem keys_fieldsOf (rows : List (String × Option Json)) :
    ((fieldsOf rows).map Prod.fst).Sublist (rows.map Prod.fst) := by
  induction rows with
  | nil => exact .slnil
  | cons row rows ih =>
    obtain ⟨name, value⟩ := row
    cases value with
    | none => exact ih.cons name
    | some j => exact ih.cons_cons name

/-- Under a name stands its value, as the names are distinct. -/
theorem lookup_fieldsOf {rows : List (String × Option Json)} (h : (rows.map Prod.fst).Nodup)
    (key : String) : (fieldsOf rows).lookup key = (rows.lookup key).join := by
  induction rows with
  | nil => rfl
  | cons row rows ih =>
    obtain ⟨name, value⟩ := row
    obtain ⟨hname, hrest⟩ := List.nodup_cons.mp h
    rw [Keyed.lookup_cons]
    cases value with
    | none =>
      change (fieldsOf rows).lookup key = _
      split_ifs with hkey
      · refine List.lookup_eq_none_iff.mpr fun field hfield => bne_iff_ne.mpr ?_
        rintro rfl
        exact hname (hkey ▸ (keys_fieldsOf rows).subset (List.mem_map_of_mem hfield))
      · exact ih hrest
    | some j =>
      change ((name, j) :: fieldsOf rows).lookup key = _
      rw [Keyed.lookup_cons]
      split_ifs
      · rfl
      · exact ih hrest

theorem nodup_rows (s : Schema) : (s.rows.map Prod.fst).Nodup := by
  change ["type", "format", "title", "description", "nullable", "enum", "properties",
    "propertyOrdering", "required", "items", "anyOf", "minimum", "maximum", "minLength",
    "maxLength", "minItems", "maxItems", "minProperties", "maxProperties", "pattern", "default",
    "example"].Nodup
  decide

/-- An object with the fields of a schema, arranged in some way. -/
def Arranged (f : Json → Json) (s : Schema) (m : Members) : Prop :=
  ∀ key, m.lookup key = (s.rows.lookup key).join.map f

theorem exists_arranged {f : Json → Json} (hf : Json.Arranges f) (s : Schema) :
    ∃ m, f s.toJson = .obj m ∧ Arranged f s m := by
  have hnodup := (keys_fieldsOf s.rows).nodup s.nodup_rows
  obtain ⟨m, hm, hlookup⟩ := hf.obj _ hnodup
  refine ⟨m, by rw [toJson_eq, hm], fun key => ?_⟩
  rw [hlookup, lookup_fieldsOf s.nodup_rows]

/-- Arranging does not change the values that the schema carries, nor the order of its
properties. -/
structure Keeps (f : Json → Json) (s : Schema) : Prop where
  enumValues : ∀ values ∈ s.keywords.enumValues, values.map f = values
  fallback : ∀ j ∈ s.keywords.fallback, f j = j
  sample : ∀ j ∈ s.keywords.sample, f j = j
  named : ∀ ps ∈ s.properties,
    f (.obj (toJsonNamed ps)) = .obj (ps.map fun p => (p.1, f p.2.toJson))

section Arranged
variable {f : Json → Json} (hf : Json.Arranges f) {m : Members} {key : String}
include hf

theorem stringAt_arranged {o : Option String} (h : m.lookup key = (o.map Json.str).map f) :
    stringAt m key = o := by
  unfold stringAt
  rw [h]
  cases o with
  | none => rfl
  | some s => exact congrArg Json.str? (hf.str s)

theorem stringsAt_arranged {o : Option (List String)}
    (h : m.lookup key = (o.map ofTexts).map f) : stringsAt m key = o := by
  unfold stringsAt
  rw [h]
  cases o with
  | none => rfl
  | some texts =>
    have htexts : f (ofTexts texts) = ofTexts texts := by
      rw [ofTexts, hf.arr, List.map_map]
      exact congrArg Json.arr (List.map_congr_left fun s _ => hf.str s)
    have hread : (texts.map Json.str).filterMap Json.str? = texts := by
      rw [List.filterMap_map]
      exact List.filterMap_some
    simp only [Option.map_some, htexts]
    exact congrArg some hread

theorem doubleAt_arranged {o : Option Double}
    (h : m.lookup key = (o.map fun x => .num (.float x)).map f) : doubleAt m key = o := by
  unfold doubleAt
  rw [h]
  cases o with
  | none => rfl
  | some x => simp only [Option.map_some, hf.num]; rfl

theorem countAt_arranged {o : Option UInt64} (h : m.lookup key = (o.map ofCount).map f) :
    countAt m key = o := by
  unfold countAt
  rw [h]
  cases o with
  | none => rfl
  | some n =>
    simp only [Option.map_some, ofCount, hf.num]
    exact Whole.toUInt64?_ofUInt64 n

variable {s : Schema} (hm : Arranged f s m)
include hm

/-- The type is written as one name. -/
theorem lookup_type : m.lookup "type" = s.keywords.kind.map fun kind => .str kind.name := by
  rw [hm]
  change (s.keywords.kind.map fun kind => Json.str kind.name).map f = _
  cases s.keywords.kind with
  | none => rfl
  | some kind => exact congrArg some (hf.str kind.name)

theorem kindAt_arranged : kindAt m = s.keywords.kind := by
  unfold kindAt
  rw [lookup_type hf hm]
  cases s.keywords.kind with
  | none => rfl
  | some kind => exact SchemaKind.parse?_name kind

theorem nullableAt_arranged : nullableAt m = s.keywords.nullable := by
  have hnull : listsNull m = false := by
    unfold listsNull
    rw [lookup_type hf hm]
    cases s.keywords.kind <;> rfl
  have h : m.lookup "nullable" = (s.keywords.nullable.map .bool).map f := hm "nullable"
  unfold nullableAt
  rw [hnull, h]
  cases s.keywords.nullable with
  | none => rfl
  | some b => exact congrArg Json.bool? (hf.bool b)

theorem enumAt_arranged (hvalues : ∀ values ∈ s.keywords.enumValues, values.map f = values) :
    enumAt m = s.keywords.enumValues := by
  have henum : m.lookup "enum" = (s.keywords.enumValues.map .arr).map f := hm "enum"
  have hconst : m.lookup "const" = none := hm "const"
  unfold enumAt
  rw [henum, hconst]
  cases hsome : s.keywords.enumValues with
  | none => rfl
  | some values =>
    simp only [Option.map_some, Option.bind_some, hf.arr, hvalues values hsome]
    rfl

theorem keywordsOf_arranged (hkept : s.Keeps f) : keywordsOf m = s.keywords := by
  obtain ⟨henum, hfallback, hsample, -⟩ := hkept
  have hvalue {key : String} {o : Option Json} (h : m.lookup key = o.map f)
      (ho : ∀ j ∈ o, f j = j) : m.lookup key = o := by
    cases o with
    | none => exact h
    | some j => rw [h, Option.map_some, ho j rfl]
  unfold keywordsOf
  rw [kindAt_arranged hf hm, nullableAt_arranged hf hm, enumAt_arranged hf hm henum,
    stringAt_arranged hf (hm "format"), stringAt_arranged hf (hm "title"),
    stringAt_arranged hf (hm "description"), stringAt_arranged hf (hm "pattern"),
    stringsAt_arranged hf (hm "propertyOrdering"), stringsAt_arranged hf (hm "required"),
    doubleAt_arranged hf (hm "minimum"), doubleAt_arranged hf (hm "maximum"),
    countAt_arranged hf (hm "minLength"), countAt_arranged hf (hm "maxLength"),
    countAt_arranged hf (hm "minItems"), countAt_arranged hf (hm "maxItems"),
    countAt_arranged hf (hm "minProperties"), countAt_arranged hf (hm "maxProperties"),
    hvalue (hm "default") hfallback, hvalue (hm "example") hsample]
  rfl

theorem bare_arranged (hkept : s.Keeps f)
    (hproperties : ∀ ps ∈ s.properties, ∀ p ∈ ps, translate (f p.2.toJson) = p.2)
    (hitems : ∀ t ∈ s.items, translate (f t.toJson) = t) :
    bare m = { s with anyOf := none } := by
  have hnamed : propertiesAt m (partsOfFields m) = s.properties := by
    have h : m.lookup "properties" = (s.properties.map fun ps => .obj (toJsonNamed ps)).map f :=
      hm "properties"
    rw [propertiesAt_eq, h]
    cases hps : s.properties with
    | none => rfl
    | some ps =>
      have hsame : (ps.map fun p => (p.1, translate (f p.2.toJson))) = ps.map id :=
        List.map_congr_left fun p hp => by rw [hproperties ps hps p hp, id]
      rw [Option.map_some, Option.map_some, hkept.named ps hps, Option.bind_some, Json.obj?,
        Option.map_some, List.map_map]
      exact congrArg some (hsame.trans (List.map_id ps))
  have hitem : itemsAt m (partsOfFields m) = s.items := by
    have h : m.lookup "items" = (s.items.map toJson).map f := hm "items"
    rw [itemsAt_eq, h]
    cases ht : s.items with
    | none => rfl
    | some t =>
      obtain ⟨fields, hfields, -⟩ := exists_arranged hf t
      rw [Option.map_some, Option.map_some, Option.bind_some, hfields, Keyword.itemSchema?,
        ← hfields, hitems t ht]
  rw [bare, keywordsOf_arranged hf hm hkept, hnamed, hitem]

theorem variants?_arranged : variants? m = s.anyOf.map (·.map fun t => f t.toJson) := by
  have hany : m.lookup "anyOf" = (s.anyOf.map fun ss => .arr (toJsonAll ss)).map f := hm "anyOf"
  have hone : m.lookup "oneOf" = none := hm "oneOf"
  unfold variants? unionKey
  cases hss : s.anyOf with
  | none =>
    rw [hss] at hany
    simp [hany, hone]
  | some ss =>
    rw [hss, Option.map_some, Option.map_some, toJsonAll_eq, hf.arr, List.map_map] at hany
    rw [hany, Option.isSome_some, if_pos rfl, hany]
    rfl

/-- The type is written in capitals, so no variant is taken for `null`. -/
theorem isNullVariant_arranged : isNullVariant (.obj m) = false := by
  have h := lookup_type hf hm
  unfold isNullVariant
  rw [Json.get?, h]
  cases s.keywords.kind with
  | none => rfl
  | some kind => cases kind <;> rfl

end Arranged

end Schema

end Vertex

end ChatDialect
