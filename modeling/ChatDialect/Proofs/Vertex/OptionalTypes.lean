import ChatDialect.Proofs.Json.Lookup
import ChatDialect.Proofs.Vertex.Keywords

/-! The spellings of a type whose values may be missing: a list of the type and `null`, a flag
beside the type, or a union of the type with `null`. They all translate to one schema. -/
namespace ChatDialect

theorem Keyed.lookup_filter {β : Type} (p : String → Bool) (entries : List (String × β))
    (key : String) :
    (entries.filter fun entry => p entry.1).lookup key =
      if p key then entries.lookup key else none := by
  induction entries with
  | nil => rw [List.filter_nil, List.lookup_nil, ite_self]
  | cons first rest ih =>
    obtain ⟨k, v⟩ := first
    rw [lookup_cons, List.filter_cons]
    by_cases hkey : key = k
    · subst hkey
      cases hp : p key with
      | true => rw [if_pos rfl, if_pos rfl, if_pos rfl, lookup_cons, if_pos rfl]
      | false => rw [if_neg nofun, ih, hp, if_neg nofun, if_neg nofun]
    · rw [if_neg hkey, ← ih]
      split_ifs
      · rw [lookup_cons, if_neg hkey]
      · rfl

namespace Vertex

/-- The type names of JSON Schema for a kind, whatever the case of their letters. -/
def SchemaKind.Named (kind : SchemaKind) (name : String) : Prop :=
  String.ofList (name.toList.map Char.toUpper) = match kind with
    | .string => "STRING"
    | .number => "NUMBER"
    | .integer => "INTEGER"
    | .boolean => "BOOLEAN"
    | .array => "ARRAY"
    | .object => "OBJECT"
    | .null => "NULL"

theorem SchemaKind.Named.parse? {kind : SchemaKind} {name : String} (h : kind.Named name) :
    SchemaKind.parse? name = some kind := by
  rw [SchemaKind.parse?, Text.upper, h]
  cases kind <;> rfl

namespace Schema

/-- Keywords that restrict a type: neither the type or its nullability nor a union. -/
def Further (more : Members) : Prop :=
  ∀ key ∈ ["type", "nullable", "anyOf", "oneOf"], more.lookup key = none

/-- The keywords that may stand beside a union instead of in its variant. -/
def movable : List String := ["title", "description", "default"]

/-- Objects with the same fields, in any order. -/
def SameFields (m m' : Members) : Prop := ∀ key, m.lookup key = m'.lookup key

/-- Two values in either order. -/
def EitherOrder (x y : Json) (items : List Json) : Prop := items = [x, y] ∨ items = [y, x]

/-- The spellings of a type of some kind, restricted by further keywords, whose values may be `null`
instead. -/
inductive SpellsOptional (kind : SchemaKind) (more m : Members) : Prop
  | listed {name : String} {names : List Json} (hname : kind.Named name)
    (hnames : EitherOrder (.str name) (.str "null") names)
    (hm : SameFields m (("type", .arr names) :: more))
  | flagged {name : String} (hname : kind.Named name)
    (hm : SameFields m (("type", .str name) :: ("nullable", .bool true) :: more))
  | union {v : Members} {name key : String} {variants : List Json} {moved : String → Bool}
    (hname : kind.Named name) (hkey : key = "anyOf" ∨ key = "oneOf")
    (hmoved : ∀ k, moved k → k ∈ movable)
    (hv : SameFields v (("type", .str name) :: more.filter fun field => !moved field.1))
    (hvariants : EitherOrder (.obj v) (.obj [("type", .str "null")]) variants)
    (hm : SameFields m ((key, .arr variants) :: more.filter fun field => moved field.1))

/-- The schema that the spellings give. -/
def optional (kind : SchemaKind) (more : Members) : Schema :=
  { bare more with
    keywords := { keywordsOf more with kind := some kind, nullable := some true } }

/-- Objects that agree on the keywords which cannot move say the same up to the others. -/
theorem bare_congr {m m' : Members}
    (h : ∀ k, k ∉ "type" :: "nullable" :: movable → m.lookup k = m'.lookup k) :
    bare m = { bare m' with
      keywords := { keywordsOf m' with
        kind := kindAt m
        nullable := nullableAt m
        title := stringAt m "title"
        description := stringAt m "description"
        fallback := m.lookup "default" } } := by
  simp [bare, keywordsOf, propertiesAt_eq, itemsAt_eq, enumAt, stringAt, stringsAt, doubleAt,
    countAt, h, movable]

/-- Keywords of which some stand beside the others, put together again. -/
theorem bare_split {more kept beside : Members} {kind : Option SchemaKind} {nullable : Option Bool}
    (hkept : ∀ k, k ∉ movable → kept.lookup k = more.lookup k)
    (hsplit : ∀ k ∈ movable, beside.lookup k = more.lookup k ∧ kept.lookup k = none ∨
      beside.lookup k = none ∧ kept.lookup k = more.lookup k) :
    ({ bare kept with
      keywords := { keywordsOf kept with
        kind, nullable
        title := (stringAt beside "title").or (stringAt kept "title")
        description := (stringAt beside "description").or (stringAt kept "description")
        fallback := (beside.lookup "default").or (kept.lookup "default") } } : Schema) =
      { bare more with keywords := { keywordsOf more with kind, nullable } } := by
  have hvalue (k : String) (hk : k ∈ movable) :
      (beside.lookup k).or (kept.lookup k) = more.lookup k := by
    rcases hsplit k hk with ⟨hbeside, hnone⟩ | ⟨hnone, hsame⟩
    · rw [hbeside, hnone, Option.or_none]
    · rw [hnone, hsame, Option.none_or]
  have htext (k : String) (hk : k ∈ movable) :
      (stringAt beside k).or (stringAt kept k) = stringAt more k := by
    unfold stringAt
    rcases hsplit k hk with ⟨hbeside, hnone⟩ | ⟨hnone, hsame⟩
    · rw [hbeside, hnone, Option.bind_none, Option.or_none]
    · rw [hnone, hsame, Option.bind_none, Option.none_or]
  have hrest : ∀ k, k ∉ "type" :: "nullable" :: movable → kept.lookup k = more.lookup k := by
    intro k hk
    apply hkept k
    intro h
    exact hk (List.mem_cons_of_mem _ (List.mem_cons_of_mem _ h))
  have hbare := bare_congr hrest
  have hkeywords : keywordsOf kept = _ := congrArg Schema.keywords hbare
  rw [htext "title" (by decide), htext "description" (by decide), hvalue "default" (by decide),
    hbare, hkeywords]
  rfl

theorem isNullVariant_of_kind {m : Members} {name : String} {kind : SchemaKind}
    (hname : SchemaKind.parse? name = some kind) (hkind : kind ≠ .null)
    (htype : m.lookup "type" = some (.str name)) : isNullVariant (.obj m) = false := by
  have hnull : name ≠ "null" := by
    rintro rfl
    cases hname
    exact hkind rfl
  unfold isNullVariant
  rw [Json.get?, htype]
  simpa [Json.str?] using hnull

theorem kindAt_named {m : Members} {name : String} {kind : SchemaKind}
    (hname : SchemaKind.parse? name = some kind) (htype : m.lookup "type" = some (.str name)) :
    kindAt m = some kind ∧ nullableAt m = (m.lookup "nullable").bind Json.bool? := by
  constructor
  · unfold kindAt
    rw [htype]
    exact hname
  · unfold nullableAt listsNull
    rw [htype]
    rfl

/-- A list of `null` and one other type gives that type and allows `null`. -/
theorem kindAt_listed {m : Members} {name : String} {names : List Json} {kind : SchemaKind}
    (hname : SchemaKind.parse? name = some kind) (hkind : kind ≠ .null)
    (hnames : EitherOrder (.str name) (.str "null") names)
    (htype : m.lookup "type" = some (.arr names)) :
    kindAt m = some kind ∧ nullableAt m = some true := by
  have hnull : SchemaKind.parse? "null" = some .null := by rfl
  have hkinds : kindsOf names = [kind, .null] ∨ kindsOf names = [.null, kind] := by
    rcases hnames with rfl | rfl
    · left
      simp [kindsOf, Json.str?, hname, hnull]
    · right
      simp [kindsOf, Json.str?, hname, hnull]
  constructor
  · unfold kindAt
    rw [htype]
    rcases hkinds with h | h
    · simp [h, mainKind, hkind]
    · simp [h, mainKind, hkind]
  · unfold nullableAt listsNull
    rw [htype]
    rcases hkinds with h | h
    · simp [h]
    · simp [h]

/-- An object that gives its kind and the further keywords says just that. -/
theorem translate_plain {m more : Members} {kind : SchemaKind} (hmore : Further more)
    (hkind : kindAt m = some kind)
    (hm : ∀ k, k ≠ "type" → k ≠ "nullable" → m.lookup k = more.lookup k) :
    translate (.obj m) = { bare more with
      keywords := { keywordsOf more with kind := some kind, nullable := nullableAt m } } := by
  have hunion (k : String) (hk : k ∈ ["anyOf", "oneOf"]) : m.lookup k = none := by
    rw [hm k (by rintro rfl; revert hk; decide) (by rintro rfl; revert hk; decide)]
    exact hmore k (List.mem_cons_of_mem _ (List.mem_cons_of_mem _ hk))
  have hvariants : variants? m = none := by
    simp [variants?, unionKey, hunion]
  have hbare : bare m = { bare more with
      keywords := { keywordsOf more with kind := some kind, nullable := nullableAt m } } := by
    have hrest : ∀ k, k ∉ "type" :: "nullable" :: movable → m.lookup k = more.lookup k := by
      intro k hk
      apply hm k
      · rintro rfl
        exact hk List.mem_cons_self
      · rintro rfl
        exact hk (List.mem_cons_of_mem _ List.mem_cons_self)
    rw [bare_congr hrest, hkind]
    unfold stringAt
    rw [hm "title" (by decide) (by decide), hm "description" (by decide) (by decide),
      hm "default" (by decide) (by decide)]
    rfl
  rw [translate_obj, hvariants, Option.map_none, Option.getD_none, hbare]
  rfl

/-- A union of a variant and `null` is the variant, but for the keywords beside the union. -/
theorem translate_union {m v : Members} {key : String} {variants : List Json} {kind : SchemaKind}
    (hkey : key = "anyOf" ∨ key = "oneOf") (hv : isNullVariant (.obj v) = false)
    (hkind : (translate (.obj v)).keywords.kind = some kind)
    (hvariants : EitherOrder (.obj v) (.obj [("type", .str "null")]) variants)
    (hm : ∀ k, k ≠ key → k ∉ movable → m.lookup k = none)
    (hunion : m.lookup key = some (.arr variants)) :
    translate (.obj m) = { translate (.obj v) with
      keywords := { (translate (.obj v)).keywords with
        nullable := some true
        title := (stringAt m "title").or (translate (.obj v)).keywords.title
        description := (stringAt m "description").or (translate (.obj v)).keywords.description
        fallback := (m.lookup "default").or (translate (.obj v)).keywords.fallback } } := by
  have hnull : isNullVariant (.obj [("type", .str "null")]) = true := by rfl
  have hfields : variants? m = some variants := by
    unfold variants? unionKey
    rcases hkey with rfl | rfl
    · simp [hunion, Json.arr?]
    · simp [hm "anyOf" (by decide) (by decide), hunion, Json.arr?]
  have hbare : (bare m).keywords.kind = none := by
    change kindAt m = none
    unfold kindAt
    rw [hm "type" (by rcases hkey with rfl | rfl <;> decide) (by decide)]
  have hinner : (variants.filter (!isNullVariant ·)).map translate = [translate (.obj v)] := by
    rcases hvariants with rfl | rfl
    · simp [hv, hnull]
    · simp [hv, hnull]
  have hany : (variants.map fun w => (w, translate w)).any (isNullVariant ·.1) = true := by
    rcases hvariants with rfl | rfl
    · simp [hnull]
    · simp [hnull]
  rw [translate_obj, hfields, Option.map_some, Option.getD_some]
  unfold joinVariants
  simp only [schemas_eq, hinner, hbare, hany, if_true]
  unfold inferKind
  simp only [hkind]
  rfl

section Spellings

variable {kind : SchemaKind} {more m : Members} {name : String}
  (hname : SchemaKind.parse? name = some kind) (hmore : Further more)

include hname hmore

theorem translate_listed {names : List Json} (hkind : kind ≠ .null)
    (hnames : EitherOrder (.str name) (.str "null") names)
    (hm : SameFields m (("type", .arr names) :: more)) :
    translate (.obj m) = optional kind more := by
  have htype := hm "type"
  rw [Keyed.lookup_cons, if_pos rfl] at htype
  obtain ⟨hkindAt, hnullable⟩ := kindAt_listed hname hkind hnames htype
  rw [translate_plain hmore hkindAt, hnullable]
  · rfl
  · intro k hk _
    rw [hm, Keyed.lookup_cons, if_neg hk]

theorem translate_flagged
    (hm : SameFields m (("type", .str name) :: ("nullable", .bool true) :: more)) :
    translate (.obj m) = optional kind more := by
  have htype := hm "type"
  rw [Keyed.lookup_cons, if_pos rfl] at htype
  obtain ⟨hkindAt, hnullable⟩ := kindAt_named hname htype
  have hflag : (m.lookup "nullable").bind Json.bool? = some true := by
    rw [hm, Keyed.lookup_cons, if_neg (by decide), Keyed.lookup_cons, if_pos rfl]
    rfl
  rw [translate_plain hmore hkindAt, hnullable, hflag]
  · rfl
  · intro k hk hk'
    rw [hm, Keyed.lookup_cons, if_neg hk, Keyed.lookup_cons, if_neg hk']

/-- The variant of the type alone, without the keywords that moved out of it. -/
theorem translate_variant {v : Members} {moved : String → Bool} (hkind : kind ≠ .null)
    (hv : SameFields v (("type", .str name) :: more.filter fun field => !moved field.1)) :
    let kept := more.filter fun field => !moved field.1
    isNullVariant (.obj v) = false ∧
      translate (.obj v) = { bare kept with
        keywords := { keywordsOf kept with kind := some kind, nullable := nullableAt v } } := by
  intro kept
  have htype := hv "type"
  rw [Keyed.lookup_cons, if_pos rfl] at htype
  obtain ⟨hkindAt, -⟩ := kindAt_named hname htype
  have hfurther : Further kept := by
    intro k hk
    rw [Keyed.lookup_filter (!moved ·), hmore k hk, ite_self]
  refine ⟨isNullVariant_of_kind hname hkind htype, translate_plain hfurther hkindAt ?_⟩
  intro k hk _
  rw [hv, Keyed.lookup_cons, if_neg hk]

theorem translate_unionSpelling {v : Members} {key : String} {variants : List Json}
    {moved : String → Bool} (hkind : kind ≠ .null) (hkey : key = "anyOf" ∨ key = "oneOf")
    (hmoved : ∀ k, moved k → k ∈ movable)
    (hv : SameFields v (("type", .str name) :: more.filter fun field => !moved field.1))
    (hvariants : EitherOrder (.obj v) (.obj [("type", .str "null")]) variants)
    (hm : SameFields m ((key, .arr variants) :: more.filter fun field => moved field.1)) :
    translate (.obj m) = optional kind more := by
  obtain ⟨hsome, hvariant⟩ := translate_variant hname hmore hkind hv
  have hbeside (k : String) (hk : k ≠ key) :
      m.lookup k = if moved k then more.lookup k else none := by
    rw [hm, Keyed.lookup_cons, if_neg hk, Keyed.lookup_filter]
  have hunion : m.lookup key = some (.arr variants) := by
    rw [hm, Keyed.lookup_cons, if_pos rfl]
  have hothers : ∀ k, k ≠ key → k ∉ movable → m.lookup k = none := by
    intro k hk hmovable
    rw [hbeside k hk, if_neg fun h => hmovable (hmoved k h)]
  rw [translate_union hkey hsome (by rw [hvariant]) hvariants hothers hunion, hvariant]
  -- what moved beside the union and what stayed in the variant make up `more`
  apply bare_split
  · intro k hk
    have hstays : moved k = false := Bool.eq_false_iff.mpr fun h => hk (hmoved k h)
    rw [Keyed.lookup_filter (!moved ·), hstays]
    rfl
  · intro k hk
    have hapart : k ≠ key := by
      rintro rfl
      rcases hkey with rfl | rfl <;> revert hk <;> decide
    rw [hbeside k hapart, Keyed.lookup_filter (!moved ·)]
    cases moved k with
    | true => exact .inl ⟨rfl, rfl⟩
    | false => exact .inr ⟨rfl, rfl⟩

end Spellings

/-- Each spelling translates to the one schema. -/
theorem SpellsOptional.translate_eq {kind : SchemaKind} {more m : Members}
    (h : SpellsOptional kind more m) (hkind : kind ≠ .null) (hmore : Further more) :
    translate (.obj m) = optional kind more := by
  cases h with
  | listed hname hnames hm => exact translate_listed hname.parse? hmore hkind hnames hm
  | flagged hname hm => exact translate_flagged hname.parse? hmore hm
  | union hname hkey hmoved hv hvariants hm =>
    exact translate_unionSpelling hname.parse? hmore hkind hkey hmoved hv hvariants hm

/-- All spellings translate alike: to the type and its keywords, with values that may be `null`. -/
theorem optional_spellings_alike {kind : SchemaKind} {more m m' : Members} (hkind : kind ≠ .null)
    (hmore : Further more) (h : SpellsOptional kind more m) (h' : SpellsOptional kind more m') :
    translate (.obj m) = translate (.obj m') ∧ translate (.obj m) = optional kind more := by
  have hschema := h.translate_eq hkind hmore
  refine ⟨?_, hschema⟩
  rw [hschema, h'.translate_eq hkind hmore]

/-- Keywords of a list of words. -/
def wordKeywords : Members :=
  [("items", .obj [("type", .arr [.str "string", .str "null"])]), ("title", .str "Words"),
    ("default", .arr [])]

/-- The list of words, or `null`; the title stands beside the union. -/
def wordUnion : Members :=
  [("oneOf", .arr [.obj [("type", .str "null")],
      .obj [("type", .str "Array"),
        ("items", .obj [("type", .arr [.str "string", .str "null"])]), ("default", .arr [])]]),
    ("title", .str "Words")]

theorem wordUnion_alike :
    let listed : Members := ("type", .arr [.str "array", .str "null"]) :: wordKeywords
    let flagged : Members := ("type", .str "ARRAY") :: ("nullable", .bool true) :: wordKeywords
    SpellsOptional .array wordKeywords listed ∧ SpellsOptional .array wordKeywords flagged ∧
      SpellsOptional .array wordKeywords wordUnion ∧
      translate (.obj listed) = translate (.obj flagged) ∧
      translate (.obj wordUnion) = translate (.obj flagged) := by
  intro listed flagged
  have hfurther : Further wordKeywords := by
    intro k hk
    simp only [List.mem_cons, List.not_mem_nil, or_false] at hk
    rcases hk with rfl | rfl | rfl | rfl <;> rfl
  have hlower : SchemaKind.array.Named "array" := by rfl
  have hupper : SchemaKind.array.Named "ARRAY" := by rfl
  have hcapital : SchemaKind.array.Named "Array" := by rfl
  have hlisted : SpellsOptional .array wordKeywords listed :=
    .listed hlower (.inl rfl) fun _ => rfl
  have hflagged : SpellsOptional .array wordKeywords flagged := .flagged hupper fun _ => rfl
  have hunion : SpellsOptional .array wordKeywords wordUnion := by
    have hkey : "oneOf" = "anyOf" ∨ "oneOf" = "oneOf" := .inr rfl
    have hmoved : ∀ k : String, (k == "title") = true → k ∈ movable := by
      intro k hk
      rw [beq_iff_eq.mp hk]
      decide
    exact .union hcapital hkey hmoved (fun _ => rfl) (.inr rfl) fun _ => rfl
  refine ⟨hlisted, hflagged, hunion, ?_, ?_⟩
  · exact (optional_spellings_alike (by decide) hfurther hlisted hflagged).1
  · exact (optional_spellings_alike (by decide) hfurther hunion hflagged).1

end Schema

end Vertex

end ChatDialect
