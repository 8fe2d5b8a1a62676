import ChatDialect.Proofs.Json.Reading

/-! One pass through a codec settles a value: what was read is written in one form, and that form is
read as the same value. What a field was read from is enough for it to read back, unless it holds a
floating-point number. -/
namespace ChatDialect.Json

/-- The value can be written, and its text is read as the value. -/
def Codec.ReadsBack {α : Type} (c : Codec α) (x : α) : Prop :=
  ∃ text, c.write x = some text ∧ c.read text = .ok x

/-- Every value that is read from a text and satisfies `P` reads back. -/
def Codec.Settles {α : Type} (c : Codec α) (P : α → Prop) : Prop :=
  ∀ bs x, c.read bs = .ok x → P x → c.ReadsBack x

theorem Codec.Faithful.readsBack {α : Type} {c : Codec α} {x : α}
    (h : c.Faithful nestingLimit x) : c.ReadsBack x := by
  obtain ⟨j, hj, -⟩ := id h
  obtain ⟨-, hwrite, hback⟩ := h.read_write hj
  exact ⟨j.bytes, hwrite, hback⟩

theorem Codec.settles_of_reads {α : Type} {c : Codec α} {P : α → Prop}
    (h : ∀ x, c.Reads nestingLimit x → P x → c.Faithful nestingLimit x) : c.Settles P := by
  intro bs x hread hx
  exact (h x (reads_of_read hread) hx).readsBack

namespace Codec

variable {α : Type} {c : Codec α} {d : Nat}

theorem keyed_solid (c : Codec α) : c.keyed.Solid := by
  intro xs h
  obtain ⟨fields, -, hfields⟩ := Option.bind_eq_some_iff.mp h
  cases hfields

theorem openRecord_solid {ρ σ : Type} (fs : Fields ρ σ) (build : ρ → List (String × Json) → α)
    (row : α → ρ × List (String × Json)) : (openRecord fs build row).Solid := by
  intro x h
  obtain ⟨fields, -, hfields⟩ := Option.bind_eq_some_iff.mp h
  cases hfields

theorem entries_faithful {xs : List (String × α)} (h : ∀ entry ∈ xs, c.Faithful d entry.2) :
    ∃ js, c.encodeEntries xs = some js ∧ isExactFields js ∧ depthFields js ≤ d ∧
      ∀ src : Source, src.Admits d → c.decodeEntries src (treeFields js) = .ok xs := by
  induction xs with
  | nil => exact ⟨[], rfl, rfl, Nat.zero_le d, fun _ _ => rfl⟩
  | cons entry xs ih =>
    obtain ⟨k, x⟩ := entry
    obtain ⟨j, hj, hexact, hdepth, hdecode⟩ := h (k, x) List.mem_cons_self
    obtain ⟨js, hjs, hexacts, hdepths, hdecodes⟩ :=
      ih fun entry hentry => h entry (List.mem_cons_of_mem _ hentry)
    refine ⟨(k, j) :: js, ?_, isExactFields_cons.mpr ⟨hexact, hexacts⟩,
      Nat.max_le.mpr ⟨hdepth, hdepths⟩, ?_⟩
    · simp only [encodeEntries, hj, hjs]
      rfl
    · intro src hsrc
      simp only [treeFields, decodeEntries, Leaf.clean, bind, Except.bind, hdecode src hsrc,
        hdecodes src hsrc]
      rfl

theorem keyed_faithful {xs : List (String × α)} (hsorted : Keyed.Sorted xs)
    (h : ∀ entry ∈ xs, c.Faithful d entry.2) : c.keyed.Faithful (d + 1) xs := by
  obtain ⟨js, hencode, hexact, hdepth, hdecode⟩ := entries_faithful h
  refine ⟨.obj js, ?_, hexact, Nat.succ_le_succ hdepth, ?_⟩
  · simp only [keyed, hencode]
    rfl
  · intro src hsrc
    obtain ⟨inner, henter, hinner⟩ := hsrc.enter
    simp only [keyed, tree, henter, bind, Except.bind, hdecode inner hinner]
    simp only [Close.fault?, check, hsorted.ofList_eq]
    rfl

end Codec

namespace Fields

variable {ρ σ : Type} {d : Nat} {src : Source}

theorem answers_of_mem_names {fs : Fields ρ σ} {key : String} (h : key ∈ fs.names) :
    fs.answers key = true := by
  induction fs with
  | nil => cases h
  | cons f rest ih =>
    rw [answers, Bool.or_eq_true]
    rcases List.mem_cons.mp h with rfl | h
    · exact .inl (by simp [Field.answersTo])
    · exact .inr (ih h)

theorem putKeeping_of_kept {fs : Fields ρ σ} {others : List (String × Json)}
    (h : fs.Kept d others) (hsrc : src.Admits d) (slots : σ) :
    fs.putKeeping src (treeFields others) slots = .ok (slots, others) := by
  induction others with
  | nil => rfl
  | cons entry others ih =>
    obtain ⟨k, x⟩ := entry
    obtain ⟨hkey, hnormal, hdepth⟩ := h (k, x) List.mem_cons_self
    have hput : fs.put src k x.tree slots = none := put_eq_none.mpr hkey
    have hx := buffer_tree x (hsrc.mono hdepth)
    have hothers := ih fun entry hentry => h entry (List.mem_cons_of_mem _ hentry)
    simp only [treeFields, putKeeping, Leaf.clean, bind, Except.bind, hput, hx, hothers, hnormal]
    rfl

/-- The known fields come first. -/
theorem putKeeping_append {fs : Fields ρ σ} {js others : List (String × Json)} {slots slots' : σ}
    (hnames : ∀ field ∈ js, field.1 ∈ fs.names) (hothers : fs.Kept d others)
    (hsrc : src.Admits d) (h : fs.putAll src (treeFields js) slots = .ok slots') :
    fs.putKeeping src (treeFields (js ++ others)) slots = .ok (slots', others) := by
  induction js generalizing slots with
  | nil =>
    cases h
    exact putKeeping_of_kept hothers hsrc _
  | cons field js ih =>
    obtain ⟨k, x⟩ := field
    have hkey : fs.answers k = true := answers_of_mem_names (hnames (k, x) List.mem_cons_self)
    have hjs := fun field hfield => hnames field (List.mem_cons_of_mem _ hfield)
    cases hput : fs.put src k x.tree slots with
    | none =>
      rw [put_eq_none.mp hput] at hkey
      cases hkey
    | some result =>
      simp only [treeFields, putAll, Leaf.clean, bind, Except.bind, hput] at h
      cases result with
      | error e => cases h
      | ok next =>
        simp only [List.cons_append, treeFields, putKeeping, Leaf.clean, bind, Except.bind, hput]
        exact ih hjs h

end Fields

/-- A record that keeps other fields reads back if they are in order. -/
theorem Codec.openRecord_faithful {α ρ σ : Type} {fs : Fields ρ σ}
    {build : ρ → List (String × Json) → α} {row : α → ρ × List (String × Json)} {d : Nat} {x : α}
    (hfs : fs.distinct) (hbuild : build (row x).1 (row x).2 = x) (h : fs.Faithful d (row x).1)
    (hsorted : Keyed.Sorted (row x).2) (hothers : fs.Kept d (row x).2)
    (hexact : isExactFields (row x).2) : (Codec.openRecord fs build row).Faithful (d + 1) x := by
  obtain ⟨js, hencode, hexacts, hdepth, hput⟩ := h.putAll_encode hfs
  have hall_exact (others : List (String × Json)) (hjs : isExactFields js)
      (hothers : isExactFields others) : isExactFields (js ++ others) := by
    clear hencode hdepth hput hexacts
    induction js with
    | nil => exact hothers
    | cons field js ih =>
      obtain ⟨k, y⟩ := field
      obtain ⟨hy, hjs⟩ := isExactFields_cons.mp hjs
      exact isExactFields_cons.mpr ⟨hy, ih hjs⟩
  have hall_depth : depthFields (js ++ (row x).2) ≤ d := by
    refine depthFields_le ?_
    intro field hfield
    rcases List.mem_append.mp hfield with hfield | hfield
    · exact Nat.le_trans (depth_le_depthFields hfield) hdepth
    · exact (hothers field hfield).2.2
  refine ⟨.obj (js ++ (row x).2), ?_, hall_exact _ hexacts hexact, Nat.succ_le_succ hall_depth, ?_⟩
  · simp only [openRecord, hencode]
    rfl
  · intro src hsrc
    obtain ⟨inner, henter, hinner⟩ := hsrc.enter
    have hslots := Fields.putKeeping_append (Fields.mem_names hencode) hothers hinner
      (hput inner hinner)
    simp only [openRecord, tree, henter, bind, Except.bind, hslots]
    simp only [Close.fault?, check, h.row?_slotsOf, hsorted.ofList_eq, hbuild]
    rfl

namespace Field.Reads

variable {α : Type} {c : Codec α} {name : String} {d : Nat}

theorem required {x : α} (h : (Field.required name c).Reads d x) : c.Reads d x := by
  rcases h with h | h | h
  · exact h
  · cases h
  · cases h

theorem withDefault {x x₀ : α} (h : (Field.withDefault name x₀ c).Reads d x) :
    c.Reads d x ∨ x = x₀ := by
  rcases h with h | h | h
  · exact .inl h
  · exact .inr (Option.some.inj h).symm
  · exact .inr (Option.some.inj h).symm

/-- The items of a list that is empty when it is missing. -/
theorem items {xs : List α} (h : (Field.withDefault name [] c.list).Reads (d + 1) xs) :
    ∀ x ∈ xs, c.Reads d x := by
  rcases h.withDefault with h | rfl
  · exact h.list
  · intro x hx
    cases hx

theorem optional {o : Option α} (h : (Field.optional name c).Reads d o) :
    ∀ x ∈ o, c.option.Reads d (some x) := by
  rintro x rfl
  rcases h with h | h | h
  · exact h
  · cases h
  · cases h

theorem optionalInPlace {o : Option α} (h : (Field.optionalInPlace name c).Reads d o) :
    ∀ x ∈ o, c.option.Reads d (some x) := by
  rintro x rfl
  rcases h with h | h | h
  · exact h
  · cases h
  · cases h

theorem nullable {o : Option α} (h : (Field.nullable name c).Reads d o) :
    ∀ x ∈ o, c.option.Reads d (some x) := by
  rintro x rfl
  rcases h with h | h | h
  · exact h
  · cases h
  · cases h

end Field.Reads

/-- Plain JSON without floating-point numbers reads back once it was read. -/
theorem Codec.Reads.value_faithful {j : Json} {d : Nat} (h : Codec.value.Reads d j)
    (hexact : j.isExact) : Codec.value.Faithful d j :=
  Codec.value_faithful hexact h.value.1 h.value.2

/-- A list that was read reads back if its items do. -/
theorem Codec.Reads.list_faithful {α : Type} {c : Codec α} {xs : List α} {d : Nat}
    (h : c.list.Reads d xs) (hitems : ∀ x ∈ xs, ∀ d' < d, c.Reads d' x → c.Faithful d' x) :
    c.list.Faithful d xs := by
  cases d with
  | zero => exact absurd h.list_pos (Nat.lt_irrefl 0)
  | succ d => exact Codec.list_faithful fun x hx => hitems x hx d (Nat.lt_succ_self d) (h.list x hx)

/-- An object with free keys that was read reads back if its values do. -/
theorem Codec.Reads.keyed_faithful {α : Type} {c : Codec α} {xs : List (String × α)} {d : Nat}
    (h : c.keyed.Reads d xs)
    (hentries : ∀ entry ∈ xs, ∀ d' < d, c.Reads d' entry.2 → c.Faithful d' entry.2) :
    c.keyed.Faithful d xs := by
  cases d with
  | zero => exact absurd h.keyed_pos (Nat.lt_irrefl 0)
  | succ d =>
    obtain ⟨hsorted, hread⟩ := h.keyed
    refine Codec.keyed_faithful hsorted ?_
    intro entry hentry
    exact hentries entry hentry d (Nat.lt_succ_self d) (hread entry hentry)

namespace Field

variable {o : Option Json} {name : String} {d : Nat}

theorem option_value_faithful {f : Field (Option Json)} (hcodec : f.codec = Codec.value.option)
    (habsent : f.absent = some none) (homitted : f.omitted = Option.isNone)
    (h : ∀ j ∈ o, Codec.value.option.Reads d (some j)) (hexact : ∀ j ∈ o, j.isExact) :
    f.Faithful d o := by
  refine option_faithful hcodec habsent (.inl homitted) ?_ ?_
  · intro j hj hnull
    exact (h j hj).ne_null (Option.some.inj hnull)
  · intro j hj
    exact (h j hj).option.value_faithful (hexact j hj)

theorem optional_value (h : (optional name .value).Reads d o) (hexact : ∀ j ∈ o, j.isExact) :
    (optional name .value).Faithful d o :=
  option_value_faithful rfl rfl rfl h.optional hexact

theorem optionalInPlace_value (h : (optionalInPlace name .value).Reads d o)
    (hexact : ∀ j ∈ o, j.isExact) : (optionalInPlace name .value).Faithful d o :=
  option_value_faithful rfl rfl rfl h.optionalInPlace hexact

end Field

end ChatDialect.Json
