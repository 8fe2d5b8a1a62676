import ChatDialect.Json.Record
import ChatDialect.Proofs.Json.Printer

/-! Values that a codec writes and reads back, whatever they are read from. A record reads back if
each of its fields does, and no field is read under the name of another. -/
namespace ChatDialect

theorem Whole.toUInt64?_ofUInt64 (n : UInt64) : (ofUInt64 n).toUInt64? = some n := by
  have hnonneg : 0 ≤ (ofUInt64 n).val := Int.natCast_nonneg n.toNat
  unfold toUInt64?
  rw [if_pos hnonneg]
  exact congrArg some UInt64.ofNat_toNat

namespace Json

/-- A computation that succeeds does so step by step. -/
theorem exists_of_bind {ε α β : Type} {x : Except ε α} {f : α → Except ε β} {b : β}
    (h : x >>= f = .ok b) : ∃ a, x = .ok a ∧ f a = .ok b := by
  cases x with
  | error e => cases h
  | ok a => exact ⟨a, rfl, h⟩

/-- There is room for `d` arrays and objects one in another. -/
def Source.Admits : Source → Nat → Prop
  | .text room, d => d ≤ room
  | .buffer, _ => True

theorem Source.Admits.mono {src : Source} {d d' : Nat} (h : src.Admits d') (hd : d ≤ d') :
    src.Admits d := by
  cases src with
  | text room => exact Nat.le_trans hd h
  | buffer => trivial

theorem Source.Admits.enter {src : Source} {d : Nat} (h : src.Admits (d + 1)) :
    ∃ inner, src.enter = .ok inner ∧ inner.Admits d := by
  cases src with
  | buffer => exact ⟨.buffer, rfl, trivial⟩
  | text room =>
    cases room with
    | zero => exact absurd h (Nat.not_succ_le_zero d)
    | succ room => exact ⟨.text room, rfl, Nat.le_of_succ_le_succ h⟩

namespace Codec

variable {α : Type} {c : Codec α} {d : Nat} {x : α}

/-- The value is written without floating-point numbers, in `d` arrays and objects one in another at
most, and what is written is read as the value wherever there is room for it. -/
def Faithful (c : Codec α) (d : Nat) (x : α) : Prop :=
  ∃ j, c.encode x = some j ∧ j.isExact ∧ j.depth ≤ d ∧
    ∀ src : Source, src.Admits d → c.decode src j.tree = .ok x

theorem Faithful.mono {d' : Nat} (h : c.Faithful d x) (hd : d ≤ d') : c.Faithful d' x := by
  obtain ⟨j, hencode, hexact, hdepth, hdecode⟩ := h
  exact ⟨j, hencode, hexact, Nat.le_trans hdepth hd, fun src hsrc => hdecode src (hsrc.mono hd)⟩

/-- What the tree of a value is read as, its text is read as. -/
theorem read_bytes {j : Json} (hexact : j.isExact)
    (h : c.decode (.text nestingLimit) j.tree = .ok x) : c.read j.bytes = .ok x := by
  unfold read
  rw [readDocument_bytes hexact]
  simp only [h]
  rfl

/-- The text of a value reads back. -/
theorem Faithful.read_write {j : Json} (h : c.Faithful nestingLimit x) (hj : c.encode x = some j) :
    j.isExact ∧ c.write x = some j.bytes ∧ c.read j.bytes = .ok x := by
  obtain ⟨j', hencode, hexact, -, hdecode⟩ := h
  obtain rfl : j' = j := Option.some.inj (hencode.symm.trans hj)
  refine ⟨hexact, ?_, read_bytes hexact (hdecode (.text nestingLimit) (Nat.le_refl _))⟩
  unfold write
  rw [hencode]
  rfl

/-- No value is written as `null`. -/
def Solid (c : Codec α) : Prop := ∀ x, c.encode x ≠ some .null

theorem string_solid : string.Solid := by
  intro s h
  cases h

theorem bool_solid : bool.Solid := by
  intro b h
  cases h

theorem name_solid (pick : String → Option α) (put : α → String) : (name pick put).Solid := by
  intro x h
  cases h

theorem number_solid (pick : Number → Option α) (put : α → Number) : (number pick put).Solid := by
  intro x h
  cases h

theorem list_solid (c : Codec α) : c.list.Solid := by
  intro xs h
  obtain ⟨items, -, hitems⟩ := Option.bind_eq_some_iff.mp h
  cases hitems

theorem record_solid {ρ σ : Type} (fs : Fields ρ σ) (build : ρ → α) (row : α → ρ) :
    (record fs build row).Solid := by
  intro x h
  obtain ⟨fields, -, hfields⟩ := Option.bind_eq_some_iff.mp h
  cases hfields

theorem string_faithful (s : String) (d : Nat) : string.Faithful d s :=
  ⟨.str s, rfl, rfl, Nat.zero_le d, fun _ _ => rfl⟩

theorem bool_faithful (b : Bool) (d : Nat) : bool.Faithful d b :=
  ⟨.bool b, rfl, rfl, Nat.zero_le d, fun _ _ => rfl⟩

theorem name_faithful (d : Nat) {pick : String → Option α} {put : α → String}
    (hpick : pick (put x) = some x) : (name pick put).Faithful d x := by
  refine ⟨.str (put x), rfl, rfl, Nat.zero_le d, ?_⟩
  intro src _
  simp only [name, tree, Leaf.clean, bind, Except.bind, hpick]
  rfl

theorem number_faithful (d : Nat) {pick : Number → Option α} {put : α → Number} {w : Whole}
    (hput : put x = .int w) (hpick : pick (.int w) = some x) :
    (number pick put).Faithful d x := by
  refine ⟨.num (.int w), ?_, rfl, Nat.zero_le d, ?_⟩
  · exact congrArg (fun n => some (Json.num n)) hput
  · intro src _
    simp only [number, tree, Leaf.clean, bind, Except.bind, hpick]
    rfl

theorem uint64_faithful (n : UInt64) (d : Nat) : uint64.Faithful d n :=
  number_faithful d rfl (Whole.toUInt64?_ofUInt64 n)

theorem uint32_faithful (n : UInt32) (d : Nat) : uint32.Faithful d n := by
  refine number_faithful d rfl ?_
  have hrange : 0 ≤ (Whole.ofUInt32 n).val ∧ (Whole.ofUInt32 n).val < 0x100000000 := by
    have hn := n.toNat_lt
    constructor
    · exact Int.natCast_nonneg n.toNat
    · simp only [Whole.ofUInt32]
      omega
  change (Whole.ofUInt32 n).toUInt32? = some n
  unfold Whole.toUInt32?
  rw [if_pos hrange]
  exact congrArg some UInt32.ofNat_toNat

theorem int64_faithful (n : Int64) (d : Nat) : int64.Faithful d n := by
  refine number_faithful d rfl ?_
  have hupper : (Whole.ofInt64 n).val < 0x8000000000000000 := n.toInt_lt
  change (Whole.ofInt64 n).toInt64? = some n
  unfold Whole.toInt64?
  rw [if_pos hupper]
  exact congrArg some (Int64.ofInt_toInt n)

theorem option_some_faithful (hsolid : c.encode x ≠ some .null) (h : c.Faithful d x) :
    c.option.Faithful d (some x) := by
  obtain ⟨j, hencode, hexact, hdepth, hdecode⟩ := h
  refine ⟨j, hencode, hexact, hdepth, ?_⟩
  intro src hsrc
  have hvalue := hdecode src hsrc
  unfold option
  simp only
  split
  · next broken htree =>
    -- only `null` has the tree of `null`
    cases j <;> cases htree
    exact absurd hencode hsolid
  · rw [hvalue]
    rfl

theorem option_none_faithful (c : Codec α) (d : Nat) : c.option.Faithful d none :=
  ⟨.null, rfl, rfl, Nat.zero_le d, fun _ _ => rfl⟩

theorem items_faithful {xs : List α} (h : ∀ x ∈ xs, c.Faithful d x) :
    ∃ js, c.encodeItems xs = some js ∧ isExactItems js ∧ depthItems js ≤ d ∧
      ∀ src : Source, src.Admits d → c.decodeItems src (treeItems js) = .ok xs := by
  induction xs with
  | nil => exact ⟨[], rfl, rfl, Nat.zero_le d, fun _ _ => rfl⟩
  | cons x xs ih =>
    obtain ⟨j, hj, hexact, hdepth, hdecode⟩ := h x List.mem_cons_self
    obtain ⟨js, hjs, hexacts, hdepths, hdecodes⟩ :=
      ih fun x hx => h x (List.mem_cons_of_mem _ hx)
    refine ⟨j :: js, ?_, ?_, ?_, ?_⟩
    · simp only [encodeItems, hj, hjs]
      rfl
    · exact isExactItems_cons.mpr ⟨hexact, hexacts⟩
    · exact Nat.max_le.mpr ⟨hdepth, hdepths⟩
    · intro src hsrc
      simp only [treeItems, decodeItems, hdecode src hsrc, hdecodes src hsrc]
      rfl

theorem list_faithful {xs : List α} (h : ∀ x ∈ xs, c.Faithful d x) :
    c.list.Faithful (d + 1) xs := by
  obtain ⟨js, hencode, hexact, hdepth, hdecode⟩ := items_faithful h
  refine ⟨.arr js, ?_, hexact, Nat.succ_le_succ hdepth, ?_⟩
  · simp only [list, hencode]
    rfl
  · intro src hsrc
    obtain ⟨inner, henter, hinner⟩ := hsrc.enter
    simp only [list, tree, henter, bind, Except.bind, hdecode inner hinner]
    rfl

theorem strings_faithful (texts : List String) (d : Nat) : string.list.Faithful (d + 1) texts :=
  list_faithful fun text _ => string_faithful text d

end Codec

namespace Field

variable {α : Type} {d : Nat}

/-- A field that is written reads back; one that is not written stands for its value. -/
def Faithful (f : Field α) (d : Nat) (x : α) : Prop :=
  if f.omitted x then f.absent = some x else f.codec.Faithful d x

theorem required_faithful {c : Codec α} {x : α} (name : String) (h : c.Faithful d x) :
    (required name c).Faithful d x := h

theorem withDefault_faithful {c : Codec α} {x : α} (name : String) (x₀ : α)
    (h : c.Faithful d x) : (withDefault name x₀ c).Faithful d x := h

/-- A field whose absence is written by leaving it out, or as `null`. -/
theorem option_faithful {c : Codec α} {o : Option α} {f : Field (Option α)}
    (hcodec : f.codec = c.option) (habsent : f.absent = some none)
    (homitted : f.omitted = Option.isNone ∨ f.omitted = fun _ => false)
    (hsolid : ∀ x ∈ o, c.encode x ≠ some .null) (h : ∀ x ∈ o, c.Faithful d x) :
    f.Faithful d o := by
  have hvalue : f.codec.Faithful d o := by
    rw [hcodec]
    cases o with
    | none => exact Codec.option_none_faithful c d
    | some x => exact Codec.option_some_faithful (hsolid x rfl) (h x rfl)
  unfold Faithful
  split
  · next hom =>
    rcases homitted with homitted | homitted
    · rw [homitted, Option.isNone_iff_eq_none] at hom
      rw [habsent, hom]
    · rw [homitted] at hom
      cases hom
  · exact hvalue

section Options
variable {c : Codec α} {o : Option α} (name : String) (hsolid : c.Solid)
  (h : ∀ x ∈ o, c.Faithful d x)
include hsolid h

theorem optional_faithful : (optional name c).Faithful d o :=
  option_faithful rfl rfl (.inl rfl) (fun x _ => hsolid x) h

theorem optionalInPlace_faithful : (optionalInPlace name c).Faithful d o :=
  option_faithful rfl rfl (.inl rfl) (fun x _ => hsolid x) h

theorem nullable_faithful : (nullable name c).Faithful d o :=
  option_faithful rfl rfl (.inr rfl) (fun x _ => hsolid x) h

theorem nullableInPlace_faithful : (nullableInPlace name c).Faithful d o :=
  option_faithful rfl rfl (.inr rfl) (fun x _ => hsolid x) h

end Options

theorem orNamed_faithful {f : Field α} {x : α} (other : String) (h : f.Faithful d x) :
    (f.orNamed other).Faithful d x := h

theorem optional_none (name : String) (c : Codec α) : (optional name c).Faithful d none := rfl

theorem optional_of_none {c : Codec α} {o : Option α} (name : String) (h : o = none) :
    (optional name c).Faithful d o := by
  rw [h]
  exact optional_none name c

theorem optionalInPlace_of_none {c : Codec α} {o : Option α} (name : String) (h : o = none) :
    (optionalInPlace name c).Faithful d o := by
  rw [h]
  rfl

section Texts
variable {o : Option String} (name : String)

theorem optional_text : (optional name .string).Faithful d o :=
  optional_faithful name Codec.string_solid fun s _ => Codec.string_faithful s d

theorem optionalInPlace_text : (optionalInPlace name .string).Faithful d o :=
  optionalInPlace_faithful name Codec.string_solid fun s _ => Codec.string_faithful s d

theorem nullable_text : (nullable name .string).Faithful d o :=
  nullable_faithful name Codec.string_solid fun s _ => Codec.string_faithful s d

end Texts

end Field

namespace Fields

variable {ρ σ : Type} {d : Nat}

/-- The names that are written. -/
def names : {ρ σ : Type} → Fields ρ σ → List String
  | _, _, .nil => []
  | _, _, .cons f rest => f.name :: rest.names

/-- No field is read under the name of a later one. -/
def distinct : {ρ σ : Type} → Fields ρ σ → Bool
  | _, _, .nil => true
  | _, _, .cons f rest => rest.names.all (fun name => !f.answersTo name) && rest.distinct

def Faithful : {ρ σ : Type} → Fields ρ σ → Nat → ρ → Prop
  | _, _, .nil, _, _ => True
  | _, _, .cons f rest, d, (x, r) => f.Faithful d x ∧ rest.Faithful d r

/-- The slots after the written fields of a row were read. -/
def slotsOf : {ρ σ : Type} → Fields ρ σ → ρ → σ
  | _, _, .nil, _ => ()
  | _, _, .cons f rest, (x, r) => (if f.omitted x then none else some x, rest.slotsOf r)

theorem mem_names {fs : Fields ρ σ} {r : ρ} {js : List (String × Json)}
    (h : fs.encode r = some js) : ∀ p ∈ js, p.1 ∈ fs.names := by
  induction fs generalizing js with
  | nil =>
    cases h
    intro p hp
    cases hp
  | cons f rest ih =>
    obtain ⟨x, r⟩ := r
    intro p hp
    rw [encode] at h
    split at h
    · exact List.mem_cons_of_mem _ (ih h p hp)
    · obtain ⟨j, -, h⟩ := Option.bind_eq_some_iff.mp h
      obtain ⟨js', hjs, h⟩ := Option.bind_eq_some_iff.mp h
      cases h
      rcases List.mem_cons.mp hp with rfl | hp
      · exact List.mem_cons_self
      · exact List.mem_cons_of_mem _ (ih hjs p hp)

/-- Fields that a slot does not answer to go to the slots behind it. -/
theorem putAll_cons {α : Type} (f : Field α) (rest : Fields ρ σ) (src : Source)
    {js : List (String × Json)} (h : ∀ p ∈ js, f.answersTo p.1 = false) (slot : Option α)
    (slots : σ) :
    (cons f rest).putAll src (treeFields js) (slot, slots) =
      (rest.putAll src (treeFields js) slots).map fun slots => (slot, slots) := by
  induction js generalizing slots with
  | nil => rfl
  | cons p js ih =>
    obtain ⟨key, j⟩ := p
    have hkey : f.answersTo key = false := h (key, j) List.mem_cons_self
    have hrest := ih fun p hp => h p (List.mem_cons_of_mem _ hp)
    simp only [treeFields, putAll, put, hkey, Leaf.clean, bind, Except.bind, Bool.false_eq_true,
      if_false]
    cases rest.put src key j.tree slots with
    | none =>
      simp only
      cases j.tree.skip with
      | error e => rfl
      | ok _ => exact hrest slots
    | some result =>
      cases result with
      | error e => rfl
      | ok slots => exact hrest slots

theorem Faithful.row?_slotsOf {fs : Fields ρ σ} {r : ρ} (h : fs.Faithful d r) :
    fs.row? (fs.slotsOf r) = some r := by
  induction fs with
  | nil => rfl
  | cons f rest ih =>
    obtain ⟨x, r⟩ := r
    obtain ⟨hx, hr⟩ := h
    have hslot : (if f.omitted x then none else some x).or f.absent = some x := by
      unfold Field.Faithful at hx
      split at hx
      · next homitted => rw [if_pos homitted, Option.none_or, hx]
      · next homitted => rw [if_neg homitted, Option.some_or]
    simp only [slotsOf, row?, hslot, ih hr]
    rfl

/-- The written fields of a row fill the slots. -/
theorem Faithful.putAll_encode {fs : Fields ρ σ} {r : ρ} (hfs : fs.distinct)
    (h : fs.Faithful d r) :
    ∃ js, fs.encode r = some js ∧ isExactFields js ∧ depthFields js ≤ d ∧
      ∀ src : Source, src.Admits d →
        fs.putAll src (treeFields js) fs.empty = .ok (fs.slotsOf r) := by
  induction fs with
  | nil => exact ⟨[], rfl, rfl, Nat.zero_le d, fun _ _ => rfl⟩
  | cons f rest ih =>
    obtain ⟨x, r⟩ := r
    obtain ⟨hx, hr⟩ := h
    rw [distinct, Bool.and_eq_true] at hfs
    obtain ⟨hapart, hrest⟩ := hfs
    obtain ⟨js, hjs, hexacts, hdepths, hput⟩ := ih hrest hr
    have hskip : ∀ p ∈ js, f.answersTo p.1 = false := by
      intro p hp
      have hname := List.all_eq_true.mp hapart p.1 (mem_names hjs p hp)
      simpa using hname
    have hothers (src : Source) (hsrc : src.Admits d) (slot : Option _) :
        (cons f rest).putAll src (treeFields js) (slot, rest.empty) =
          .ok (slot, rest.slotsOf r) := by
      rw [putAll_cons f rest src hskip, hput src hsrc]
      rfl
    unfold Field.Faithful at hx
    split at hx
    · next homitted =>
      refine ⟨js, ?_, hexacts, hdepths, ?_⟩
      · rw [encode, if_pos homitted, hjs]
      · intro src hsrc
        rw [slotsOf, if_pos homitted]
        exact hothers src hsrc none
    · next homitted =>
      obtain ⟨j, hj, hexact, hdepth, hdecode⟩ := hx
      refine ⟨(f.name, j) :: js, ?_, ?_, Nat.max_le.mpr ⟨hdepth, hdepths⟩, ?_⟩
      · rw [encode, if_neg homitted, hj, hjs]
        rfl
      · exact isExactFields_cons.mpr ⟨hexact, hexacts⟩
      · intro src hsrc
        have hanswers : f.answersTo f.name = true := by simp [Field.answersTo]
        simp only [treeFields, putAll, put, empty, hanswers, Leaf.clean, bind, Except.bind,
          hdecode src hsrc, if_true]
        rw [slotsOf, if_neg homitted]
        exact hothers src hsrc (some x)

end Fields

/-- A record reads back if its fields do. -/
theorem Codec.record_faithful {α ρ σ : Type} {fs : Fields ρ σ} {build : ρ → α} {row : α → ρ}
    {d : Nat} {x : α} (hfs : fs.distinct) (hbuild : build (row x) = x)
    (h : fs.Faithful d (row x)) : (Codec.record fs build row).Faithful (d + 1) x := by
  obtain ⟨js, hencode, hexact, hdepth, hput⟩ := h.putAll_encode hfs
  refine ⟨.obj js, ?_, hexact, Nat.succ_le_succ hdepth, ?_⟩
  · simp only [record, hencode]
    rfl
  · intro src hsrc
    obtain ⟨inner, henter, hinner⟩ := hsrc.enter
    simp only [record, tree, henter, bind, Except.bind, hput inner hinner]
    simp only [Close.fault?, check, h.row?_slotsOf, hbuild]
    rfl

/-- A record is written as an object. -/
theorem Codec.exists_fields {α ρ σ : Type} {fs : Fields ρ σ} {build : ρ → α} {row : α → ρ} {x : α}
    {j : Json} (h : (Codec.record fs build row).encode x = some j) :
    ∃ fields, j = .obj fields := by
  obtain ⟨fields, -, hfields⟩ := Option.bind_eq_some_iff.mp h
  cases hfields
  exact ⟨fields, rfl⟩

end Json

end ChatDialect
