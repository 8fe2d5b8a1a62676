import ChatDialect.Proofs.Vertex.NormalForm

/-! Kinds of translated schemas. A schema has the kind that its object tells: by its type, by the
variant in its place, or by properties or items. At every level there is one wherever the normal
form asks for it, and at the root of parameters there always is one. -/
namespace ChatDialect.Vertex.Schema

/-- The object gives the schemas of properties. -/
def GivesProperties (m : Members) : Prop := ∃ fields, m.lookup "properties" = some (.obj fields)

/-- The object gives a schema of items, or a tuple of at least one. -/
def GivesItems (m : Members) : Prop :=
  (∃ fields, m.lookup "items" = some (.obj fields)) ∨
    ∃ first rest, m.lookup "items" = some (.arr (first :: rest))

/-- A value of JSON Schema tells a kind. What properties and items tell only counts where the object
has no type, and where no variant takes its place. -/
inductive Tells : Json → SchemaKind → Prop
  | type {m : Members} {kind : SchemaKind} (hkind : kindAt m = some kind) : Tells (.obj m) kind
  | variant {m : Members} {v : Json} {kind : SchemaKind} (hmerged : merged? m = some v)
    (hv : Tells v kind) : Tells (.obj m) kind
  | properties {m : Members} (hkind : kindAt m = none) (hmerged : merged? m = none)
    (hproperties : GivesProperties m) : Tells (.obj m) .object
  | items {m : Members} (hkind : kindAt m = none) (hmerged : merged? m = none)
    (hproperties : ¬ GivesProperties m) (hitems : GivesItems m) : Tells (.obj m) .array

theorem isSome_properties (m : Members) : (bare m).properties.isSome ↔ GivesProperties m := by
  change (propertiesAt m (partsOfFields m)).isSome ↔ _
  rw [propertiesAt_eq]
  unfold GivesProperties
  cases m.lookup "properties" with
  | none => simp
  | some j => cases j <;> simp [Json.obj?]

theorem isSome_items (m : Members) : (bare m).items.isSome ↔ GivesItems m := by
  change (itemsAt m (partsOfFields m)).isSome ↔ _
  rw [itemsAt_eq]
  unfold GivesItems
  cases m.lookup "items" with
  | none => simp
  | some j =>
    cases j with
    | arr tuple => cases tuple <;> simp [Keyword.itemSchema?]
    | _ => simp [Keyword.itemSchema?]

theorem kind_inferKind (s : Schema) :
    (inferKind s).keywords.kind = s.keywords.kind.or
      (if s.properties.isSome then some .object
        else if s.items.isSome then some .array else none) := by
  unfold inferKind
  split
  · next kind hkind => rw [hkind, Option.some_or]
  · next hkind =>
    rw [hkind, Option.none_or]
    split_ifs
    · rfl
    · rfl
    · exact hkind

/-- A schema in normal form has nothing to infer its kind from unless it has one. -/
theorem kind_inferKind_of_normal {s : Schema} (h : s.NormalHere) :
    (s.keywords.kind.or (if s.properties.isSome then some .object
      else if s.items.isSome then some .array else none)) = s.keywords.kind := by
  rw [← kind_inferKind, inferKind_of_normal h]

/-- A variant in the place of an object gives the kind. -/
theorem kind_merged {m : Members} {v : Json} (h : merged? m = some v) :
    (translate (.obj m)).keywords.kind = (translate v).keywords.kind := by
  obtain ⟨hkind, variants, hvariants, hinner⟩ := schemas_of_merged h
  rw [translate_obj, hvariants, Option.map_some, Option.getD_some, kind_inferKind, joinVariants]
  simp only [hkind, hinner]
  exact kind_inferKind_of_normal (isNormal_translate v).here

/-- Otherwise the type of the object gives it, or what it has. -/
theorem kind_unmerged {m : Members} (h : merged? m = none) :
    (translate (.obj m)).keywords.kind = (kindAt m).or
      (if (bare m).properties.isSome then some .object
        else if (bare m).items.isSome then some .array else none) := by
  rw [translate_obj, kind_inferKind]
  cases hvariants : variants? m with
  | none => rfl
  | some variants =>
    have hmany := kind_of_unmerged h hvariants
    rw [Option.map_some, Option.getD_some, joinVariants]
    -- by `hmany` only the last case of the definition is left
    simp only
    rfl

/-- A variant in the place of an object lies inside the object. -/
theorem sizeOf_merged {m : Members} {v : Json} (h : merged? m = some v) :
    sizeOf v < sizeOf (Json.obj m) := by
  obtain ⟨-, variants, hvariants, hv⟩ := merged?_eq_some.mp h
  obtain ⟨j, hj, harr⟩ := Option.bind_eq_some_iff.mp hvariants
  have hmem : v ∈ variants := (List.mem_filter.mp (hv ▸ List.mem_singleton_self v)).1
  have hfield : (unionKey m, j) ∈ m := by
    obtain ⟨before, after, hm, -⟩ := List.lookup_eq_some_iff.mp hj
    generalize unionKey m = key at hm ⊢
    rw [hm]
    simp
  have hvariant := List.sizeOf_lt_of_mem hmem
  have hunion := List.sizeOf_lt_of_mem hfield
  cases j with
  | arr items =>
    cases harr
    simp only [Prod.mk.sizeOf_spec, Json.arr.sizeOf_spec, Json.obj.sizeOf_spec] at hunion ⊢
    omega
  | _ => cases harr

/-- By induction on what tells the kind. -/
theorem Tells.kind {j : Json} {kind : SchemaKind} (h : Tells j kind) :
    (translate j).keywords.kind = some kind := by
  induction h with
  | @type m kind hkind =>
    have hmerged : merged? m = none := by
      unfold merged?
      rw [hkind]
    rw [kind_unmerged hmerged, hkind, Option.some_or]
  | variant hmerged _ ih => rw [kind_merged hmerged, ih]
  | @properties m hkind hmerged hproperties =>
    have hgiven := (isSome_properties m).mpr hproperties
    rw [kind_unmerged hmerged, hkind, Option.none_or, if_pos hgiven]
  | @items m hkind hmerged hproperties hitems =>
    have hnone := mt (isSome_properties m).mp hproperties
    have hgiven := (isSome_items m).mpr hitems
    rw [kind_unmerged hmerged, hkind, Option.none_or, if_neg hnone, if_pos hgiven]

/-- By induction on the value: a variant in the place of an object is smaller than the object. -/
theorem tells_of_kind {kind : SchemaKind} : (j : Json) →
    (translate j).keywords.kind = some kind → Tells j kind
  | .obj m, h => by
    cases hmerged : merged? m with
    | some v =>
      rw [kind_merged hmerged] at h
      exact .variant hmerged (tells_of_kind v h)
    | none =>
      rw [kind_unmerged hmerged] at h
      cases hkind : kindAt m with
      | some own =>
        rw [hkind, Option.some_or] at h
        cases h
        exact .type hkind
      | none =>
        rw [hkind, Option.none_or] at h
        split_ifs at h with hproperties hitems
        · cases h
          exact .properties hkind hmerged ((isSome_properties m).mp hproperties)
        · cases h
          have hnone := mt (isSome_properties m).mpr hproperties
          exact .items hkind hmerged hnone ((isSome_items m).mp hitems)
  | .arr _, h => by cases h
  | .null, h => by cases h
  | .bool _, h => by cases h
  | .num _, h => by cases h
  | .str _, h => by cases h
termination_by j => sizeOf j
decreasing_by exact sizeOf_merged hmerged

theorem kind_translate_iff (j : Json) (kind : SchemaKind) :
    (translate j).keywords.kind = some kind ↔ Tells j kind :=
  ⟨tells_of_kind j, Tells.kind⟩

/-- A kind more takes nothing away from the normal form. -/
theorem IsNormal.with_kind {s : Schema} (h : s.IsNormal) (kind : Option SchemaKind) :
    IsNormal { s with keywords := { s.keywords with kind := s.keywords.kind.or kind } } := by
  obtain ⟨hproperties, hitems, hanyOf⟩ := h.inside
  have hhere := h.here
  have hkept : s.keywords.kind.isSome → (s.keywords.kind.or kind).isSome := by
    intro hkind
    rw [Option.isSome_or, hkind, Bool.true_or]
  refine .of_inside ⟨fun hgiven => hkept (hhere.kind hgiven), ?_⟩ ⟨hproperties, hitems, hanyOf⟩
  intro ts hts
  obtain ⟨hne, hone⟩ := hhere.union ts hts
  exact ⟨hne, fun hlength => hkept (hone hlength)⟩

theorem isNormal_empty : Schema.empty.IsNormal :=
  .of_inside ⟨nofun, nofun⟩ ⟨nofun, nofun, nofun⟩

theorem isNormal_translateParameters (parameters : Option Json) :
    (translateParameters parameters).IsNormal := by
  cases parameters with
  | none => exact isNormal_empty.with_kind (some .object)
  | some j => exact (isNormal_translate j).with_kind (some .object)

/-- Every schema inside a translated one is in normal form, also inside that of parameters. The kind
of a translated schema is the one that its value tells, and the root of parameters has that kind, or
it is an object where none is told. -/
theorem translated_normal (j : Json) (parameters : Option Json) :
    (∀ s : Schema, s.Within (translate j) ∨ s.Within (translateParameters parameters) →
      s.NormalHere) ∧
    (∀ kind, (translate j).keywords.kind = some kind ↔ Tells j kind) ∧
    ∃ kind, (translateParameters parameters).keywords.kind = some kind ∧
      ((∃ p ∈ parameters, Tells p kind) ∨
        (∀ p ∈ parameters, ∀ told, ¬ Tells p told) ∧ kind = .object) := by
  refine ⟨?_, kind_translate_iff j, ?_⟩
  · rintro s (hs | hs)
    · exact ((isNormal_translate j).within hs).here
    · exact ((isNormal_translateParameters parameters).within hs).here
  · cases parameters with
    | none => exact ⟨.object, rfl, .inr ⟨nofun, rfl⟩⟩
    | some p =>
      have hroot : (translateParameters (some p)).keywords.kind =
          (translate p).keywords.kind.or (some .object) := rfl
      rw [hroot]
      cases hkind : (translate p).keywords.kind with
      | some kind => exact ⟨kind, rfl, .inl ⟨p, rfl, tells_of_kind p hkind⟩⟩
      | none =>
        refine ⟨.object, rfl, .inr ⟨?_, rfl⟩⟩
        rintro q ⟨⟩ told htold
        rw [htold.kind] at hkind
        cases hkind

/-- A report that may be missing; neither it nor its tags have a type. -/
def report : Json :=
  .obj [("anyOf", .arr [.obj [("properties", .obj [("tags", .obj [("items", .obj [])])])],
    .obj [("type", .str "null")]])]

/-- A text or a number, which is no single kind. -/
def textOrNumber : Json :=
  .obj [("anyOf", .arr [.obj [("type", .str "string")], .obj [("type", .str "number")]])]

theorem report_normal :
    let tags : Schema :=
      { Schema.empty with
        keywords := { Keywords.none with kind := some .array }
        items := some .empty }
    tags.Within (translate report) ∧ tags.NormalHere ∧ Tells report .object ∧
      (translate textOrNumber).keywords.kind = none ∧
      (translateParameters (some textOrNumber)).keywords.kind = some .object := by
  intro tags
  have hreport : (translate report).properties = some [("tags", tags)] := by rfl
  have hwithin : tags.Within (translate report) := .property hreport List.mem_cons_self .self
  have hnone : (translate textOrNumber).keywords.kind = none := by rfl
  obtain ⟨hnormal, htells, kind, hkind, htold⟩ := translated_normal report (some textOrNumber)
  refine ⟨hwithin, hnormal tags (.inl hwithin), (htells .object).mp rfl, hnone, ?_⟩
  rw [hkind]
  rcases htold with ⟨p, hp, htold⟩ | ⟨-, hobject⟩
  · cases hp
    rw [htold.kind] at hnone
    cases hnone
  · rw [hobject]

end ChatDialect.Vertex.Schema
