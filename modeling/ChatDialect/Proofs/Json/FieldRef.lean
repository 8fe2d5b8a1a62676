import ChatDialect.Proofs.Json.Reading

/-! References to the fields of a record: what fills the slot of one field shows there and nowhere
else, and the other fields are read the same whatever is in it. -/
namespace ChatDialect.Json

/-- A field of a record, by its place. -/
inductive Fields.Ref (α : Type) : {ρ σ : Type} → Fields ρ σ → Type 1
  | here {ρ σ : Type} (f : Field α) (rest : Fields ρ σ) : Ref α (.cons f rest)
  | there {β ρ σ : Type} (f : Field β) {rest : Fields ρ σ} (ref : Ref α rest) :
      Ref α (.cons f rest)

namespace Fields.Ref

variable {α ρ σ : Type} {fs : Fields ρ σ}

def field : {ρ σ : Type} → {fs : Fields ρ σ} → Ref α fs → Field α
  | _, _, _, .here f _ => f
  | _, _, _, .there _ ref => ref.field

def position : {ρ σ : Type} → {fs : Fields ρ σ} → Ref α fs → Nat
  | _, _, _, .here _ _ => 0
  | _, _, _, .there _ ref => ref.position + 1

def get : {ρ σ : Type} → {fs : Fields ρ σ} → Ref α fs → ρ → α
  | _, _, _, .here _ _, (x, _) => x
  | _, _, _, .there _ ref, (_, r) => ref.get r

def set : {ρ σ : Type} → {fs : Fields ρ σ} → Ref α fs → α → ρ → ρ
  | _, _, _, .here _ _, x, (_, r) => (x, r)
  | _, _, _, .there _ ref, x, (y, r) => (y, ref.set x r)

def slot : {ρ σ : Type} → {fs : Fields ρ σ} → Ref α fs → σ → Option α
  | _, _, _, .here _ _, (slot, _) => slot
  | _, _, _, .there _ ref, (_, slots) => ref.slot slots

def fill : {ρ σ : Type} → {fs : Fields ρ σ} → Ref α fs → α → σ → σ
  | _, _, _, .here _ _, x, (_, slots) => (some x, slots)
  | _, _, _, .there _ ref, x, (slot, slots) => (slot, ref.fill x slots)

/-- The key leads to this field. -/
def Named (key : String) : {ρ σ : Type} → {fs : Fields ρ σ} → Ref α fs → Prop
  | _, _, _, .here f _ => f.answersTo key = true
  | _, _, _, .there f ref => f.answersTo key = false ∧ ref.Named key

theorem slot_empty (ref : Ref α fs) : ref.slot fs.empty = none := by
  induction ref with
  | here f rest => rfl
  | there f ref ih => exact ih

theorem slot_fill (ref : Ref α fs) (x : α) (slots : σ) : ref.slot (ref.fill x slots) = some x := by
  induction ref with
  | here f rest => rfl
  | there f ref ih => exact ih slots.2

theorem fill_fill (ref : Ref α fs) (x y : α) (slots : σ) :
    ref.fill y (ref.fill x slots) = ref.fill y slots := by
  induction ref with
  | here f rest => rfl
  | there f ref ih => exact congrArg (slots.1, ·) (ih slots.2)

theorem get_of_row? (ref : Ref α fs) {slots : σ} {r : ρ} {x : α} (hslot : ref.slot slots = some x)
    (h : fs.row? slots = some r) : ref.get r = x := by
  induction ref with
  | here f rest =>
    obtain ⟨slot, slots⟩ := slots
    obtain ⟨y, hy, h⟩ := Option.bind_eq_some_iff.mp h
    obtain ⟨r', -, h⟩ := Option.bind_eq_some_iff.mp h
    cases h
    cases (hslot : slot = some x)
    exact (Option.some.inj hy).symm
  | there f ref ih =>
    obtain ⟨slot, slots⟩ := slots
    obtain ⟨y, -, h⟩ := Option.bind_eq_some_iff.mp h
    obtain ⟨r', hr, h⟩ := Option.bind_eq_some_iff.mp h
    cases h
    exact ih hslot hr

theorem row?_fill (ref : Ref α fs) {slots : σ} {r : ρ} (x : α) (h : fs.row? slots = some r) :
    fs.row? (ref.fill x slots) = some (ref.set x r) := by
  induction ref with
  | here f rest =>
    obtain ⟨slot, slots⟩ := slots
    obtain ⟨y, -, h⟩ := Option.bind_eq_some_iff.mp h
    obtain ⟨r', hr, h⟩ := Option.bind_eq_some_iff.mp h
    cases h
    rw [fill, row?, hr]
    rfl
  | there f ref ih =>
    obtain ⟨slot, slots⟩ := slots
    obtain ⟨y, hy, h⟩ := Option.bind_eq_some_iff.mp h
    obtain ⟨r', hr, h⟩ := Option.bind_eq_some_iff.mp h
    cases h
    rw [fill, row?, hy, ih hr]
    rfl

section Put

variable {src : Source} {key : String} {t : Tree} {slots slots' : σ}

/-- The key of a field fills its slot, which must be empty. -/
theorem put_named {ref : Ref α fs} (hkey : ref.Named key) :
    fs.put src key t slots = some (.ok slots') ↔ ref.slot slots = none ∧
      ∃ x, ref.field.codec.decode src t = .ok x ∧ ref.fill x slots = slots' := by
  induction ref with
  | here f rest =>
    obtain ⟨slot, slots⟩ := slots
    obtain ⟨slot', slots'⟩ := slots'
    have hf : f.answersTo key = true := hkey
    rw [put_cons_ok]
    simp [hf, Ref.slot, field, fill]
  | there f ref ih =>
    obtain ⟨slot, slots⟩ := slots
    obtain ⟨slot', slots'⟩ := slots'
    obtain ⟨hf, hkey⟩ := hkey
    rw [put_cons_ok, ih hkey]
    simp [hf, Ref.slot, field, fill, and_left_comm]

theorem answers_of_named {ref : Ref α fs} (hkey : ref.Named key) : fs.answers key = true := by
  induction ref with
  | here f rest => exact (Bool.or_eq_true _ _).mpr (.inl hkey)
  | there f ref ih =>
    obtain ⟨-, hkey⟩ := hkey
    exact (Bool.or_eq_true _ _).mpr (.inr (ih hkey))

/-- A full slot stays as it is. -/
theorem slot_of_put (ref : Ref α fs) {x : α} (h : fs.put src key t slots = some (.ok slots'))
    (hslot : ref.slot slots = some x) : ref.slot slots' = some x := by
  induction ref with
  | here f rest =>
    obtain ⟨slot, slots⟩ := slots
    obtain ⟨slot', slots'⟩ := slots'
    obtain ⟨-, rfl, -⟩ | ⟨-, rfl, -⟩ := put_cons_ok.mp h
    · cases hslot
    · exact hslot
  | there f ref ih =>
    obtain ⟨slot, slots⟩ := slots
    obtain ⟨slot', slots'⟩ := slots'
    obtain ⟨-, -, _, -, -, rfl⟩ | ⟨-, -, hput⟩ := put_cons_ok.mp h
    · exact hslot
    · exact ih hput hslot

/-- Other keys do not fill the slot. -/
theorem slot_of_put_other (ref : Ref α fs) (hkey : ¬ ref.Named key)
    (h : fs.put src key t slots = some (.ok slots')) : ref.slot slots' = ref.slot slots := by
  induction ref with
  | here f rest =>
    obtain ⟨slot, slots⟩ := slots
    obtain ⟨slot', slots'⟩ := slots'
    obtain ⟨hf, -⟩ | ⟨-, rfl, -⟩ := put_cons_ok.mp h
    · exact absurd hf hkey
    · rfl
  | there f ref ih =>
    obtain ⟨slot, slots⟩ := slots
    obtain ⟨slot', slots'⟩ := slots'
    obtain ⟨-, -, _, -, -, rfl⟩ | ⟨hf, -, hput⟩ := put_cons_ok.mp h
    · rfl
    · exact ih (fun hnamed => hkey ⟨hf, hnamed⟩) hput

/-- What does not change a slot does not depend on it. -/
theorem put_fill (ref : Ref α fs) (x : α) (h : fs.put src key t slots = some (.ok slots'))
    (hslot : ref.slot slots' = ref.slot slots) :
    fs.put src key t (ref.fill x slots) = some (.ok (ref.fill x slots')) := by
  induction ref with
  | here f rest =>
    obtain ⟨slot, slots⟩ := slots
    obtain ⟨slot', slots'⟩ := slots'
    obtain ⟨-, rfl, y, -, rfl, -⟩ | ⟨hf, -, hput⟩ := put_cons_ok.mp h
    · cases hslot
    · exact put_cons_ok.mpr (.inr ⟨hf, rfl, hput⟩)
  | there f ref ih =>
    obtain ⟨slot, slots⟩ := slots
    obtain ⟨slot', slots'⟩ := slots'
    obtain ⟨hf, hempty, y, hy, hfull, rfl⟩ | ⟨hf, hkept, hput⟩ := put_cons_ok.mp h
    · exact put_cons_ok.mpr (.inl ⟨hf, hempty, y, hy, hfull, rfl⟩)
    · exact put_cons_ok.mpr (.inr ⟨hf, hkept, ih hput hslot⟩)

end Put

section PutAll

variable {src : Source} {ts : List (Leaf String × Tree)} {slots slots' : σ}

theorem slot_of_putAll (ref : Ref α fs) {x : α} (h : fs.putAll src ts slots = .ok slots')
    (hslot : ref.slot slots = some x) : ref.slot slots' = some x := by
  induction ts generalizing slots with
  | nil =>
    cases h
    exact hslot
  | cons entry ts ih =>
    obtain ⟨key, -, ⟨-, -, hts⟩ | ⟨next, hput, hts⟩⟩ := putAll_cons_ok.mp h
    · exact ih hts hslot
    · exact ih hts (ref.slot_of_put hput hslot)

theorem slot_of_putAll_other {ref : Ref α fs} {key : String}
    (hnamed : ∀ k, ref.Named k → k = key) (habsent : ∀ entry ∈ ts, entry.1.value ≠ .ok key)
    (h : fs.putAll src ts slots = .ok slots') : ref.slot slots' = ref.slot slots := by
  induction ts generalizing slots with
  | nil =>
    cases h
    rfl
  | cons entry ts ih =>
    have hrest := fun entry hentry => habsent entry (List.mem_cons_of_mem _ hentry)
    obtain ⟨k, hk, ⟨-, -, hts⟩ | ⟨next, hput, hts⟩⟩ := putAll_cons_ok.mp h
    · exact ih hrest hts
    · have hother : ¬ ref.Named k := by
        intro hk'
        refine habsent entry List.mem_cons_self ?_
        rw [hk, hnamed k hk']
      exact (ih hrest hts).trans (ref.slot_of_put_other hother hput)

/-- Fields that leave a slot alone are read the same with another value in it. -/
theorem putAll_fill (ref : Ref α fs) (x : α) (h : fs.putAll src ts slots = .ok slots')
    (hslot : ref.slot slots' = ref.slot slots) :
    fs.putAll src ts (ref.fill x slots) = .ok (ref.fill x slots') := by
  induction ts generalizing slots with
  | nil =>
    cases h
    rfl
  | cons entry ts ih =>
    obtain ⟨k, hk, ⟨hput, hskip, hts⟩ | ⟨next, hput, hts⟩⟩ := putAll_cons_ok.mp h
    · have hnone : fs.put src k entry.2 (ref.fill x slots) = none :=
        put_eq_none.mpr (put_eq_none.mp hput)
      exact putAll_cons_ok.mpr ⟨k, hk, .inl ⟨hnone, hskip, ih hts hslot⟩⟩
    · -- once full the slot would stay full, so no field before this one filled it either
      have hstill : ref.slot next = ref.slot slots := by
        cases hbefore : ref.slot slots with
        | some y => exact ref.slot_of_put hput hbefore
        | none =>
          cases hafter : ref.slot next with
          | none => rfl
          | some y =>
            rw [ref.slot_of_putAll hts hafter, hbefore] at hslot
            cases hslot
      have hrest := ih hts (hslot.trans hstill.symm)
      exact putAll_cons_ok.mpr ⟨k, hk, .inr ⟨_, ref.put_fill x hput hstill, hrest⟩⟩

theorem putAll_append (before after : List (Leaf String × Tree)) (slots : σ) :
    fs.putAll src (before ++ after) slots =
      (fs.putAll src before slots).bind (fs.putAll src after) := by
  induction before generalizing slots with
  | nil => rfl
  | cons entry before ih =>
    obtain ⟨key, t⟩ := entry
    simp only [List.cons_append, putAll, bind, Except.bind]
    cases key.value with
    | error e => rfl
    | ok k =>
      simp only
      cases fs.put src k t slots with
      | none =>
        simp only
        cases t.skip with
        | error e => rfl
        | ok _ => exact ih slots
      | some result =>
        cases result with
        | error e => rfl
        | ok slots => exact ih slots

/-- The field under a key fills its slot, and another value there only shows in that slot. -/
theorem putAll_replace {ref : Ref α fs} {key : String} (hkey : ref.Named key)
    {before after : List (Leaf String × Tree)} {k : Leaf String} (hk : k.value = .ok key) {t : Tree}
    (h : fs.putAll src (before ++ (k, t) :: after) slots = .ok slots') :
    ∃ x, ref.field.codec.decode src t = .ok x ∧ ref.slot slots' = some x ∧
      ∀ t' x', ref.field.codec.decode src t' = .ok x' →
        fs.putAll src (before ++ (k, t') :: after) slots = .ok (ref.fill x' slots') := by
  rw [putAll_append] at h
  obtain ⟨slots₁, hbefore, h⟩ := exists_of_bind h
  obtain ⟨_, hk', ⟨hput, -, -⟩ | ⟨slots₂, hput, hafter⟩⟩ := putAll_cons_ok.mp h
  all_goals cases hk.symm.trans hk'
  · rw [put_eq_none, answers_of_named hkey] at hput
    cases hput
  obtain ⟨hempty, x, hx, rfl⟩ := (put_named hkey).mp hput
  have hslot := ref.slot_of_putAll hafter (ref.slot_fill x slots₁)
  refine ⟨x, hx, hslot, ?_⟩
  intro t' x' hx'
  have hstill : ref.slot slots' = ref.slot (ref.fill x slots₁) :=
    hslot.trans (ref.slot_fill x slots₁).symm
  have hrest := ref.putAll_fill x' hafter hstill
  rw [ref.fill_fill] at hrest
  rw [putAll_append, hbefore]
  exact putAll_cons_ok.mpr ⟨key, hk, .inr ⟨_, (put_named hkey).mpr ⟨hempty, x', hx', rfl⟩, hrest⟩⟩

/-- A field that was missing can be added anywhere. -/
theorem putAll_add {ref : Ref α fs} {key : String} (hkey : ref.Named key)
    {before after : List (Leaf String × Tree)} {k : Leaf String} (hk : k.value = .ok key)
    (h : fs.putAll src (before ++ after) slots = .ok slots') (hslot : ref.slot slots' = none)
    {u : Tree} {x : α} (hu : ref.field.codec.decode src u = .ok x) :
    fs.putAll src (before ++ (k, u) :: after) slots = .ok (ref.fill x slots') := by
  rw [putAll_append] at h
  obtain ⟨slots₁, hbefore, hafter⟩ := exists_of_bind h
  have hempty : ref.slot slots₁ = none := by
    cases hsome : ref.slot slots₁ with
    | none => rfl
    | some y =>
      rw [ref.slot_of_putAll hafter hsome] at hslot
      cases hslot
  have hrest := ref.putAll_fill x hafter (hslot.trans hempty.symm)
  rw [putAll_append, hbefore]
  exact putAll_cons_ok.mpr ⟨key, hk, .inr ⟨_, (put_named hkey).mpr ⟨hempty, x, hu, rfl⟩, hrest⟩⟩

end PutAll

section Items

variable {src : Source} {before after : List Tree} {close : Close} {r : ρ}

/-- The item at the position of a field is read as its value, and another one only shows there. -/
theorem rowOfItems_replace (ref : Ref α fs) {t : Tree} (hposition : before.length = ref.position)
    (h : fs.rowOfItems src (before ++ t :: after) close = .ok r) :
    ref.field.codec.decode src t = .ok (ref.get r) ∧
      ∀ t' x', ref.field.codec.decode src t' = .ok x' →
        fs.rowOfItems src (before ++ t' :: after) close = .ok (ref.set x' r) := by
  induction ref generalizing before with
  | here f rest =>
    obtain rfl := List.eq_nil_of_length_eq_zero hposition
    obtain ⟨x, hx, h⟩ := exists_of_bind h
    obtain ⟨r', hr, h⟩ := exists_of_bind h
    cases h
    refine ⟨hx, ?_⟩
    intro t' x' hx'
    have hfirst : f.codec.decode src t' = .ok x' := hx'
    simp only [List.nil_append, rowOfItems, hfirst, hr, bind, Except.bind]
    rfl
  | there f ref ih =>
    obtain ⟨first, before, rfl⟩ := List.exists_cons_of_length_eq_add_one hposition
    obtain ⟨y, hy, h⟩ := exists_of_bind h
    obtain ⟨r', hr, h⟩ := exists_of_bind h
    cases h
    obtain ⟨hget, hset⟩ := ih (Nat.succ.inj hposition) hr
    refine ⟨hget, ?_⟩
    intro t' x' hx'
    have hrest := hset t' x' hx'
    simp only [List.cons_append, rowOfItems, hy, hrest, bind, Except.bind]
    rfl

/-- A field that an array leaves out at its end can be added there. -/
theorem rowOfItems_add (ref : Ref α fs) (hposition : before.length = ref.position) {u : Tree}
    {x : α} (hu : ref.field.codec.decode src u = .ok x)
    (h : fs.rowOfItems src before close = .ok r) :
    fs.rowOfItems src (before ++ [u]) close = .ok (ref.set x r) := by
  induction ref generalizing before with
  | here f rest =>
    obtain rfl := List.eq_nil_of_length_eq_zero hposition
    obtain ⟨_, -, h⟩ := exists_of_bind h
    split at h
    · cases h
    · obtain ⟨r', hr, h⟩ := exists_of_bind h
      cases h
      have hfirst : f.codec.decode src u = .ok x := hu
      simp only [List.nil_append, rowOfItems, hfirst, hr, bind, Except.bind]
      rfl
  | there f ref ih =>
    obtain ⟨first, before, rfl⟩ := List.exists_cons_of_length_eq_add_one hposition
    obtain ⟨y, hy, h⟩ := exists_of_bind h
    obtain ⟨r', hr, h⟩ := exists_of_bind h
    cases h
    have hrest := ih (Nat.succ.inj hposition) hu hr
    simp only [List.cons_append, rowOfItems, hy, hrest, bind, Except.bind]
    rfl

end Items

/-- Later fields have other names. -/
theorem name_apart {f : Field α} {rest : Fields ρ σ} (hfs : (cons f rest).distinct) {name : String}
    (hname : name ∈ rest.names) : (f.name == name) = false := by
  rw [distinct, Bool.and_eq_true] at hfs
  have hother := List.all_eq_true.mp hfs.1 name hname
  rw [Bool.not_eq_true', Field.answersTo, Bool.or_eq_false_iff] at hother
  exact hother.1

theorem name_mem_names (ref : Ref α fs) : ref.field.name ∈ fs.names := by
  induction ref with
  | here f rest => exact List.mem_cons_self
  | there f ref ih => exact List.mem_cons_of_mem _ ih

/-- What is written under the name of a field is its value, unless that is left out. -/
theorem lookup_encode (ref : Ref α fs) (hfs : fs.distinct) {r : ρ} {js : List (String × Json)}
    (h : fs.encode r = some js) :
    js.lookup ref.field.name =
      if ref.field.omitted (ref.get r) then none else ref.field.codec.encode (ref.get r) := by
  induction ref generalizing js with
  | here f rest =>
    obtain ⟨x, r⟩ := r
    have hothers : ∀ js', rest.encode r = some js' → js'.lookup f.name = none := by
      intro js' hjs
      refine List.lookup_eq_none_iff.mpr ?_
      intro entry hentry
      rw [bne, name_apart hfs (mem_names hjs entry hentry), Bool.not_false]
    change js.lookup f.name = if f.omitted x then none else f.codec.encode x
    rw [encode] at h
    split_ifs at h ⊢ with homitted
    · exact hothers js h
    · obtain ⟨j, hj, h⟩ := Option.bind_eq_some_iff.mp h
      obtain ⟨js', -, h⟩ := Option.bind_eq_some_iff.mp h
      cases h
      rw [List.lookup_cons_self, hj]
  | @there β ρ σ f rest ref ih =>
    obtain ⟨y, r⟩ := r
    have hother : (ref.field.name == f.name) = false := by
      rw [BEq.comm]
      exact name_apart hfs ref.name_mem_names
    have hrest : rest.distinct := ((Bool.and_eq_true _ _).mp hfs).2
    change js.lookup ref.field.name = if ref.field.omitted (ref.get r) then none
      else ref.field.codec.encode (ref.get r)
    rw [encode] at h
    split at h
    · exact ih hrest h
    · obtain ⟨j, -, h⟩ := Option.bind_eq_some_iff.mp h
      obtain ⟨js', hjs, h⟩ := Option.bind_eq_some_iff.mp h
      cases h
      rw [List.lookup_cons, hother]
      exact ih hrest hjs

end Fields.Ref

/-- An optional field is written if it has a value. -/
theorem Codec.get?_record {α β ρ σ : Type} {fs : Fields ρ σ} {build : ρ → α} {row : α → ρ}
    {name : String} {c : Codec β} (ref : Fields.Ref (Option β) fs)
    (hfield : ref.field = .optionalInPlace name c) (hfs : fs.distinct) {x : α} {doc : Json}
    (h : (Codec.record fs build row).encode x = some doc) :
    doc.get? name = (ref.get (row x)).bind c.encode := by
  obtain ⟨js, hjs, hdoc⟩ := Option.bind_eq_some_iff.mp h
  cases hdoc
  have hlookup := ref.lookup_encode hfs hjs
  rw [hfield] at hlookup
  refine hlookup.trans ?_
  cases ref.get (row x) <;> rfl

end ChatDialect.Json
