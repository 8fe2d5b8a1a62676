import ChatDialect.Proofs.Vertex.Arrangement

/-! The normal form of schemas. Translation gives schemas in normal form, and a schema in normal
form that is written out and translated is itself again, so translating twice is translating
once. -/
namespace ChatDialect.Vertex.Schema

/-- `P` holds of a schema and of all schemas inside it. -/
inductive Throughout (P : Schema → Prop) : Schema → Prop
  | intro {s : Schema} (here : P s)
    (properties : ∀ ps ∈ s.properties, ∀ p ∈ ps, Throughout P p.2)
    (items : ∀ t ∈ s.items, Throughout P t)
    (anyOf : ∀ ts ∈ s.anyOf, ∀ t ∈ ts, Throughout P t) : Throughout P s

/-- `P` holds of the schemas right inside a schema. -/
structure Inside (P : Schema → Prop) (s : Schema) : Prop where
  properties : ∀ ps ∈ s.properties, ∀ p ∈ ps, P p.2
  items : ∀ t ∈ s.items, P t
  anyOf : ∀ ts ∈ s.anyOf, ∀ t ∈ ts, P t

theorem Throughout.of_inside {P : Schema → Prop} {s : Schema} (here : P s)
    (h : s.Inside (Throughout P)) : s.Throughout P :=
  .intro here h.properties h.items h.anyOf

theorem Throughout.here {P : Schema → Prop} {s : Schema} (h : s.Throughout P) : P s := by
  cases h with
  | intro here => exact here

theorem Throughout.inside {P : Schema → Prop} {s : Schema} (h : s.Throughout P) :
    s.Inside (Throughout P) := by
  cases h with
  | intro _ properties items anyOf => exact ⟨properties, items, anyOf⟩

theorem Throughout.mono {P P' : Schema → Prop} (himp : ∀ s, P s → P' s) {s : Schema}
    (h : s.Throughout P) : s.Throughout P' := by
  induction h with
  | intro here _ _ _ properties items anyOf => exact .intro (himp _ here) properties items anyOf

/-- The normal form: properties and items have a kind beside them, and so has a union of one
variant; there is no union of none. -/
structure NormalHere (s : Schema) : Prop where
  kind : s.properties.isSome ∨ s.items.isSome → s.keywords.kind.isSome
  union : ∀ ts ∈ s.anyOf, ts ≠ [] ∧ (ts.length = 1 → s.keywords.kind.isSome)

/-- The normal form holds at every level. -/
def IsNormal : Schema → Prop := Throughout NormalHere

-- a structure that holds values of its own type is not its fields put together again by definition
theorem with_anyOf {s : Schema} {anyOf : Option (List Schema)} (h : s.anyOf = anyOf) :
    { s with anyOf } = s := by
  cases s
  cases h
  rfl

theorem inferKind_of_normal {s : Schema} (h : s.NormalHere) : inferKind s = s := by
  have hkind := h.kind
  unfold inferKind
  split
  · rfl
  · next hnone =>
    rw [hnone, Option.isSome_none, Bool.false_eq_true, imp_false, not_or] at hkind
    rw [if_neg hkind.1, if_neg hkind.2]

/-- Joining leaves a union as it is that has no variant for `null` and is not a single variant in
the place of a schema without a kind. -/
theorem joinVariants_of_normal {s : Schema} {variants : List (Json × Schema)} {ts : List Schema}
    (hnull : ∀ v ∈ variants, isNullVariant v.1 = false) (hschemas : variants.map (·.2) = ts)
    (hne : ts ≠ []) (hone : ts.length = 1 → s.keywords.kind.isSome) :
    joinVariants s variants = { s with anyOf := some ts } := by
  have hfilter : variants.filter (!isNullVariant ·.1) = variants :=
    List.filter_eq_self.mpr fun v hv => by rw [hnull v hv, Bool.not_false]
  have hany : variants.any (isNullVariant ·.1) = false :=
    List.any_eq_false.mpr fun v hv => by rw [hnull v hv]; exact Bool.false_ne_true
  unfold joinVariants
  rw [hfilter, hschemas, hany]
  cases ts with
  | nil => exact absurd rfl hne
  | cons t ts =>
    cases hkind : s.keywords.kind with
    | some kind => simp
    | none =>
      cases ts with
      | nil => simp [hkind] at hone
      | cons t' ts => simp

/-- The variants of a written union are none of them `null`, and their schemas are those written. -/
theorem variants_arranged {f : Json → Json} (hf : Json.Arranges f) {ts : List Schema}
    (h : ∀ t ∈ ts, translate (f t.toJson) = t) :
    let variants := (ts.map fun t => f t.toJson).map fun v => (v, translate v)
    (∀ v ∈ variants, isNullVariant v.1 = false) ∧ variants.map (·.2) = ts := by
  intro variants
  constructor
  · intro v hv
    obtain ⟨j, hj, rfl⟩ := List.mem_map.mp hv
    obtain ⟨t, -, rfl⟩ := List.mem_map.mp hj
    obtain ⟨m, hobj, hm⟩ := exists_arranged hf t
    rw [hobj]
    exact isNullVariant_arranged hf hm
  · have hsame : ts.map (fun t => translate (f t.toJson)) = ts.map id := List.map_congr_left h
    simp only [variants, List.map_map]
    exact hsame.trans (List.map_id ts)

/-- Written out in any arrangement and translated, a schema in normal form is itself again: the
schemas inside are by induction, and then neither joining nor inferring has anything left to do. -/
theorem translate_arranged {f : Json → Json} (hf : Json.Arranges f) {s : Schema} (h : s.IsNormal)
    (hkept : s.Throughout (Keeps f)) : translate (f s.toJson) = s := by
  induction h with
  | @intro s hnormal _ _ _ ihproperties ihitems ihanyOf =>
    obtain ⟨hhere, hproperties, hitems, hanyOf⟩ := hkept
    obtain ⟨m, hobj, hm⟩ := exists_arranged hf s
    have hbare : bare m = { s with anyOf := none } := by
      apply bare_arranged hf hm hhere
      · intro ps hps p hp
        exact ihproperties ps hps p hp (hproperties ps hps p hp)
      · intro t ht
        exact ihitems t ht (hitems t ht)
    rw [hobj, translate_obj, hbare, variants?_arranged hf hm]
    cases hts : s.anyOf with
    | none =>
      rw [Option.map_none, Option.map_none, Option.getD_none, with_anyOf hts,
        inferKind_of_normal hnormal]
    | some ts =>
      obtain ⟨hne, hone⟩ := hnormal.union ts hts
      obtain ⟨hnull, hschemas⟩ := variants_arranged hf fun t ht =>
        ihanyOf ts hts t ht (hanyOf ts hts t ht)
      have hjoined := joinVariants_of_normal (s := { s with anyOf := none }) hnull hschemas hne hone
      rw [Option.map_some, Option.map_some, Option.getD_some, hjoined, with_anyOf hts,
        inferKind_of_normal hnormal]

/-- What a union makes of a schema: a variant in its place, a schema with a union, or only its
nullability. -/
inductive Joined (s : Schema) (variants : List (Json × Schema)) : Schema → Prop
  | merged {v : Json × Schema} (nullable : Option Bool) :
    v ∈ variants → s.keywords.kind = none →
      Joined s variants { v.2 with keywords := { v.2.keywords with
        nullable
        title := s.keywords.title.or v.2.keywords.title
        description := s.keywords.description.or v.2.keywords.description
        fallback := s.keywords.fallback.or v.2.keywords.fallback } }
  | union {ts : List Schema} (nullable : Option Bool) :
    ts ≠ [] → (ts.length = 1 → s.keywords.kind.isSome) → (∀ t ∈ ts, ∃ v ∈ variants, v.2 = t) →
      Joined s variants { s with keywords := { s.keywords with nullable }, anyOf := some ts }
  | alone (nullable : Option Bool) :
    Joined s variants { s with keywords := { s.keywords with nullable } }

theorem joinVariants_joined (s : Schema) (variants : List (Json × Schema)) :
    Joined s variants (joinVariants s variants) := by
  unfold joinVariants
  have hmem : ∀ t ∈ (variants.filter (!isNullVariant ·.1)).map (·.2), ∃ v ∈ variants, v.2 = t := by
    intro t ht
    obtain ⟨v, hv, rfl⟩ := List.mem_map.mp ht
    exact ⟨v, (List.mem_filter.mp hv).1, rfl⟩
  generalize (variants.filter (!isNullVariant ·.1)).map (·.2) = schemas at hmem
  dsimp only
  rcases schemas with _ | ⟨t, _ | ⟨t', ts⟩⟩
  · exact .alone _
  · split
    · next inner hinner hkind =>
      obtain rfl := List.singleton_inj.mp hinner
      obtain ⟨v, hv, rfl⟩ := hmem t (List.mem_singleton_self t)
      exact .merged _ hv hkind
    · next hmany =>
      have hkind : s.keywords.kind.isSome := Option.isSome_iff_ne_none.mpr (hmany t rfl)
      exact .union _ (List.cons_ne_nil t []) (fun _ => hkind) hmem
  · exact .union _ (List.cons_ne_nil t (t' :: ts)) nofun hmem

theorem Inside.joined {P : Schema → Prop} {s t : Schema} {variants : List (Json × Schema)}
    (h : Joined s variants t) (hs : s.Inside P) (hvariants : ∀ v ∈ variants, v.2.Inside P ∧ P v.2) :
    t.Inside P := by
  cases h with
  | merged nullable hv =>
    obtain ⟨hproperties, hitems, hanyOf⟩ := (hvariants _ hv).1
    exact ⟨hproperties, hitems, hanyOf⟩
  | union nullable _ _ hmem =>
    refine ⟨hs.properties, hs.items, ?_⟩
    rintro ts ⟨⟩ t ht
    obtain ⟨v, hv, rfl⟩ := hmem t ht
    exact (hvariants v hv).2
  | alone nullable => exact ⟨hs.properties, hs.items, hs.anyOf⟩

/-- Only the kind is inferred, and there is one beside properties and items. -/
theorem inferKind_eq (s : Schema) :
    ∃ kind, inferKind s = { s with keywords := { s.keywords with kind } } ∧
      (s.keywords.kind.isSome → kind.isSome) ∧
      (s.properties.isSome ∨ s.items.isSome → kind.isSome) := by
  obtain ⟨k, properties, items, anyOf⟩ := s
  unfold inferKind
  dsimp only
  split
  · next kind hkind =>
    refine ⟨k.kind, rfl, id, fun _ => ?_⟩
    rw [hkind, Option.isSome_some]
  · split_ifs with hproperties hitems
    · exact ⟨_, rfl, fun _ => rfl, fun _ => rfl⟩
    · exact ⟨_, rfl, fun _ => rfl, fun _ => rfl⟩
    · exact ⟨k.kind, rfl, id, fun h => (h.elim hproperties hitems).elim⟩

theorem Inside.inferKind {P : Schema → Prop} {s : Schema} (h : s.Inside P) :
    s.inferKind.Inside P := by
  obtain ⟨kind, hinferred, -⟩ := s.inferKind_eq
  rw [hinferred]
  exact ⟨h.properties, h.items, h.anyOf⟩

/-- `P` holds of all schemas that a value gives. -/
structure Parts.All (P : Schema → Prop) (p : Parts) : Prop where
  whole : P p.whole
  items : ∀ s ∈ p.items, P s
  named : ∀ q ∈ p.named, P q.2

section All
variable {P : Schema → Prop} {m : Members} {ps : List (String × Parts)} (h : ∀ p ∈ ps, p.2.All P)
include h

theorem all_of_lookup {key : String} {p : Parts} (hp : ps.lookup key = some p) : p.All P := by
  obtain ⟨before, after, rfl, -⟩ := List.lookup_eq_some_iff.mp hp
  exact h (key, p) (by simp)

theorem properties_all : ∀ qs ∈ propertiesAt m ps, ∀ q ∈ qs, P q.2 := by
  intro qs hqs
  unfold propertiesAt at hqs
  split at hqs
  · next p _ hp =>
    cases hqs
    exact (all_of_lookup h hp).named
  · cases hqs

theorem items_all : ∀ t ∈ itemsAt m ps, P t := by
  intro t ht
  unfold itemsAt at ht
  split at ht
  · next p _ hp =>
    cases ht
    exact (all_of_lookup h hp).whole
  · next p _ hp => exact (all_of_lookup h hp).items t (List.mem_of_mem_head? ht)
  · cases ht

theorem variants_all : ∀ variants ∈ variantsAt m ps, ∀ v ∈ variants, P v.2 := by
  intro variants hvariants v hv
  unfold variantsAt at hvariants
  split at hvariants
  · next p _ hp =>
    cases hvariants
    exact (all_of_lookup h hp).items v.2 (List.of_mem_zip hv).2
  · cases hvariants

end All

/-- What holds throughout the parts of an object holds throughout its schema, if it holds at the
top: of the keywords alone, and of what a union makes of them. -/
theorem throughout_assemble {P : Schema → Prop} {m : Members} {ps : List (String × Parts)}
    (h : ∀ p ∈ ps, p.2.All (Throughout P))
    (hbare : P (inferKind ⟨keywordsOf m, propertiesAt m ps, itemsAt m ps, none⟩))
    (hjoined : ∀ variants t, (∀ v ∈ variants, P v.2) →
      Joined ⟨keywordsOf m, propertiesAt m ps, itemsAt m ps, none⟩ variants t → P (inferKind t)) :
    (assemble m ps).Throughout P := by
  have hinside : Inside (Throughout P) ⟨keywordsOf m, propertiesAt m ps, itemsAt m ps, none⟩ :=
    ⟨properties_all h, items_all h, nofun⟩
  unfold assemble
  dsimp only
  cases hvariants : variantsAt m ps with
  | none => exact .of_inside hbare hinside.inferKind
  | some variants =>
    have hall : ∀ v ∈ variants, v.2.Throughout P := variants_all h variants hvariants
    have hjoin := joinVariants_joined ⟨keywordsOf m, propertiesAt m ps, itemsAt m ps, none⟩ variants
    refine .of_inside (hjoined variants _ (fun v hv => (hall v hv).here) hjoin) ?_
    exact (Inside.joined hjoin hinside fun v hv => ⟨(hall v hv).inside, hall v hv⟩).inferKind

/-- `P` passes from the parts of a value with `Q` to what is assembled of them, and `Q` to the
values inside. -/
structure Assembles (P : Schema → Prop) (Q : Json → Prop) : Prop where
  items (items : List Json) : Q (.arr items) → ∀ x ∈ items, Q x
  fields (fields : List (String × Json)) : Q (.obj fields) → ∀ field ∈ fields, Q field.2
  empty : P .empty
  assemble (fields : List (String × Json)) : Q (.obj fields) →
    (∀ p ∈ partsOfFields fields, p.2.All P) → P (assemble fields (partsOfFields fields))

section Assembles
variable {P : Schema → Prop} {Q : Json → Prop}

mutual
theorem parts_all (hP : Assembles P Q) : (j : Json) → Q j → (parts j).All P
  | .arr items, h => ⟨hP.empty, all_partsOfItems hP items (hP.items items h), nofun⟩
  | .obj fields, h => by
    have hparts := all_partsOfFields hP fields (hP.fields fields h)
    refine ⟨hP.assemble fields h hparts, nofun, fun q hq => ?_⟩
    obtain ⟨p, hp, rfl⟩ := List.mem_map.mp hq
    exact (hparts p hp).whole
  | .null, _ => ⟨hP.empty, nofun, nofun⟩
  | .bool _, _ => ⟨hP.empty, nofun, nofun⟩
  | .num _, _ => ⟨hP.empty, nofun, nofun⟩
  | .str _, _ => ⟨hP.empty, nofun, nofun⟩

theorem all_partsOfItems (hP : Assembles P Q) : (items : List Json) → (∀ x ∈ items, Q x) →
    ∀ s ∈ partsOfItems items, P s
  | [], _ => nofun
  | x :: items, h => by
    obtain ⟨hx, hrest⟩ := List.forall_mem_cons.mp h
    exact List.forall_mem_cons.mpr ⟨(parts_all hP x hx).whole, all_partsOfItems hP items hrest⟩

theorem all_partsOfFields (hP : Assembles P Q) : (fields : List (String × Json)) →
    (∀ field ∈ fields, Q field.2) → ∀ p ∈ partsOfFields fields, p.2.All P
  | [], _ => nofun
  | (_, x) :: fields, h => by
    obtain ⟨hx, hrest⟩ := List.forall_mem_cons.mp h
    exact List.forall_mem_cons.mpr ⟨parts_all hP x hx, all_partsOfFields hP fields hrest⟩
end

end Assembles

theorem NormalHere.inferKind {s : Schema}
    (h : ∀ ts ∈ s.anyOf, ts ≠ [] ∧ (ts.length = 1 → s.keywords.kind.isSome)) :
    s.inferKind.NormalHere := by
  obtain ⟨kind, hinferred, hkept, hgiven⟩ := s.inferKind_eq
  rw [hinferred]
  exact ⟨hgiven, fun ts hts => (h ts hts).imp_right fun hone hlength => hkept (hone hlength)⟩

theorem assembles_normal : Assembles IsNormal fun _ => True where
  items _ _ _ _ := trivial
  fields _ _ _ _ := trivial
  empty := .of_inside ⟨nofun, nofun⟩ ⟨nofun, nofun, nofun⟩
  assemble fields _ h := by
    apply throughout_assemble h
    · exact .inferKind nofun
    · intro variants t hvariants hjoined
      apply NormalHere.inferKind
      cases hjoined with
      | merged nullable hv => exact (hvariants _ hv).union
      | union nullable hne hone =>
        rintro ts ⟨⟩
        exact ⟨hne, hone⟩
      | alone nullable => exact nofun

/-- Translation gives schemas in normal form. -/
theorem isNormal_translate (j : Json) : (translate j).IsNormal :=
  (parts_all assembles_normal j trivial).whole

theorem keeps_id (s : Schema) : s.Keeps id where
  enumValues values _ := List.map_id values
  fallback _ _ := rfl
  sample _ _ := rfl
  named ps _ := by rw [id, toJsonNamed_eq]; rfl

theorem Keeps.inferKind {f : Json → Json} {s : Schema} (h : s.Keeps f) : s.inferKind.Keeps f := by
  obtain ⟨kind, hinferred, -⟩ := s.inferKind_eq
  rw [hinferred]
  exact ⟨h.enumValues, h.fallback, h.sample, h.named⟩

theorem Keeps.joined {f : Json → Json} {s t : Schema} {variants : List (Json × Schema)}
    (h : Joined s variants t) (hs : s.Keeps f) (hvariants : ∀ v ∈ variants, v.2.Keeps f) :
    t.Keeps f := by
  cases h with
  | @merged v nullable hv =>
    obtain ⟨henum, hfallback, hsample, hnamed⟩ := hvariants v hv
    refine ⟨henum, fun j hj => ?_, hsample, hnamed⟩
    rcases Option.or_eq_some_iff.mp hj with hj | ⟨-, hj⟩
    · exact hs.fallback j hj
    · exact hfallback j hj
  | union nullable => exact ⟨hs.enumValues, hs.fallback, hs.sample, hs.named⟩
  | alone nullable => exact ⟨hs.enumValues, hs.fallback, hs.sample, hs.named⟩

/-- Sorted names stay in their order. -/
theorem normalize_named {ps : List (String × Schema)} (h : Keyed.Sorted ps) :
    (Json.obj (toJsonNamed ps)).normalize = .obj (ps.map fun p => (p.1, p.2.toJson.normalize)) := by
  have hfields : Json.normalizeFields (toJsonNamed ps) =
      ps.map fun p => (p.1, p.2.toJson.normalize) := by
    clear h
    induction ps with
    | nil => rfl
    | cons p ps ih => rw [toJsonNamed, Json.normalizeFields, ih, List.map_cons]
  have hsorted : Keyed.Sorted (ps.map fun p => (p.1, p.2.toJson.normalize)) :=
    List.pairwise_map.mpr h
  rw [Json.normalize, hfields, hsorted.ofList_eq]

/-- An object in normal form carries values in normal form and gives sorted properties. -/
theorem keeps_bare {m : Members} (h : (Json.obj m).normalize = .obj m) :
    Keeps Json.normalize ⟨keywordsOf m, propertiesAt m (partsOfFields m),
      itemsAt m (partsOfFields m), none⟩ := by
  have hvalue {key : String} {j : Json} (hj : j ∈ m.lookup key) : j.normalize = j :=
    Json.normal_of_get? (j := .obj m) h hj
  refine ⟨fun values hvalues => ?_, fun j hj => hvalue hj, fun j hj => hvalue hj, fun ps hps => ?_⟩
  · rcases Option.or_eq_some_iff.mp hvalues with henum | ⟨-, hconst⟩
    · obtain ⟨j, hj, harr⟩ := Option.bind_eq_some_iff.mp henum
      have hj := hvalue hj
      cases j with
      | arr items =>
        cases harr
        rw [← Json.normalizeItems_eq]
        exact Json.arr.inj hj
      | _ => cases harr
    · obtain ⟨j, hj, rfl⟩ := Option.map_eq_some_iff.mp hconst
      rw [List.map_singleton, hvalue hj]
  · have hsorted : Keyed.Sorted ps := by
      have hps : propertiesAt m (partsOfFields m) = some ps := hps
      rw [propertiesAt_eq] at hps
      obtain ⟨fields, hfields, rfl⟩ := Option.map_eq_some_iff.mp hps
      obtain ⟨j, hj, hobj⟩ := Option.bind_eq_some_iff.mp hfields
      have hj := hvalue hj
      cases j with
      | obj fields =>
        cases hobj
        have hfields : Keyed.ofList (Json.normalizeFields fields) = fields := Json.obj.inj hj
        rw [← hfields]
        exact List.pairwise_map.mpr (Keyed.sorted_ofList _)
      | _ => cases hobj
    exact normalize_named hsorted

theorem assembles_keeps :
    Assembles (Throughout (Keeps Json.normalize)) fun j => j.normalize = j where
  items items h x hx := by
    have hitems : Json.normalizeItems items = items := Json.arr.inj h
    rw [← hitems] at hx
    exact Json.normal_of_mem_items items x hx
  fields fields h field hfield := by
    have hfields : Keyed.ofList (Json.normalizeFields fields) = fields := Json.obj.inj h
    rw [← hfields] at hfield
    exact Json.normal_of_mem_fields fields field (Keyed.mem_ofList hfield)
  empty := .of_inside ⟨nofun, nofun, nofun, nofun⟩ ⟨nofun, nofun, nofun⟩
  assemble fields hnormal h := by
    have hbare := keeps_bare hnormal
    apply throughout_assemble h
    · exact hbare.inferKind
    · intro variants t hvariants hjoined
      exact (Keeps.joined hjoined hbare hvariants).inferKind

/-- The schemas that are left alone are those in normal form. -/
theorem translate_toJson_iff (s : Schema) : translate s.toJson = s ↔ s.IsNormal := by
  constructor
  · intro h
    rw [← h]
    exact isNormal_translate s.toJson
  · intro h
    exact translate_arranged Json.arranges_id h (h.mono fun t _ => keeps_id t)

/-- A schema in another, at any depth; every schema is within itself. -/
inductive Within (s : Schema) : Schema → Prop
  | self : Within s s
  | property {t : Schema} {ps : List (String × Schema)} {p : String × Schema} :
    ps ∈ t.properties → p ∈ ps → Within s p.2 → Within s t
  | item {t u : Schema} : u ∈ t.items → Within s u → Within s t
  | variant {t u : Schema} {ts : List Schema} : ts ∈ t.anyOf → u ∈ ts → Within s u → Within s t

theorem Throughout.within {P : Schema → Prop} {s t : Schema} (hin : s.Within t)
    (h : t.Throughout P) : s.Throughout P := by
  induction hin with
  | self => exact h
  | property hps hp _ ih => exact ih (h.inside.properties _ hps _ hp)
  | item hu _ ih => exact ih (h.inside.items _ hu)
  | variant hts hu _ ih => exact ih (h.inside.anyOf _ hts _ hu)

/-- What translation gives, written out, translates to itself, and so does every schema in it. The
fields may also be sorted on the way, if they were sorted to begin with. -/
theorem translate_translated (j : Json) :
    translate (translate j).toJson = translate j ∧
    (∀ s : Schema, s.Within (translate j) → translate s.toJson = s) ∧
    (j.normalize = j →
      ∀ s : Schema, s.Within (translate j) → translate s.toJson.normalize = s) := by
  have hnormal := isNormal_translate j
  have hwithin (s : Schema) (hs : s.Within (translate j)) : s.IsNormal := hnormal.within hs
  refine ⟨?_, ?_, ?_⟩
  · exact (translate_toJson_iff _).mpr hnormal
  · intro s hs
    exact (translate_toJson_iff s).mpr (hwithin s hs)
  · intro hj s hs
    have hkept := (parts_all assembles_keeps j hj).whole
    exact translate_arranged Json.arranges_normalize (hwithin s hs) (hkept.within hs)

/-- A list of texts that may be missing. -/
def tags : Json :=
  .obj [("anyOf", .arr [.obj [("items", .obj [("type", .str "string")])],
    .obj [("type", .str "null")]]), ("title", .str "Tags")]

/-- The schema of one tag. -/
def tag : Schema := { Schema.empty with keywords := { Keywords.none with kind := some .string } }

theorem tags_translated :
    let list : Schema :=
      { Schema.empty with
        keywords := { Keywords.none with
          kind := some .array, nullable := some true, title := some "Tags" }
        items := some tag }
    tags.normalize = tags ∧ translate tags = list ∧ tag.Within list ∧
      translate list.toJson = list ∧ translate list.toJson.normalize = list ∧
      translate tag.toJson.normalize = tag := by
  intro list
  have hnormal : tags.normalize = tags := by rfl
  have hlist : translate tags = list := by rfl
  have htag : tag.Within list := .item rfl .self
  obtain ⟨hagain, -, hsorted⟩ := translate_translated tags
  rw [hlist] at hagain hsorted
  exact ⟨hnormal, hlist, htag, hagain, hsorted hnormal list .self, hsorted hnormal tag htag⟩

end ChatDialect.Vertex.Schema
