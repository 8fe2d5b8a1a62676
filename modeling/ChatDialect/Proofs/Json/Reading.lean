import ChatDialect.Proofs.Json.Depth

/-! What codecs read. A value that was read comes from parts of the text, or stands for a part that
was missing; plain JSON that was read is in normal form and no deeper than its text. -/
namespace ChatDialect.Json

/-- The value is read from something that is at most `d` arrays and objects deep. -/
def Codec.Reads {α : Type} (c : Codec α) (d : Nat) (x : α) : Prop :=
  ∃ src t, src.Bounds t d ∧ c.decode src t = .ok x

/-- The value of a field is read, or stands for a field that is missing. -/
def Field.Reads {α : Type} (f : Field α) (d : Nat) (x : α) : Prop :=
  f.codec.Reads d x ∨ f.absent = some x ∨ f.absentAtEnd = some x

/-- Every value of a row is read or stands for a missing field. -/
def Fields.Reads : {ρ σ : Type} → Fields ρ σ → Nat → ρ → Prop
  | _, _, .nil, _, _ => True
  | _, _, .cons f rest, d, (x, r) => f.Reads d x ∧ rest.Reads d r

namespace Codec

variable {α : Type} {c : Codec α} {d : Nat}

/-- What is read of a whole text. -/
theorem reads_of_read {bs : List UInt8} {x : α} (h : c.read bs = .ok x) :
    c.Reads nestingLimit x := by
  unfold read at h
  obtain ⟨y, hy, h⟩ := exists_of_bind h
  obtain ⟨_, -, h⟩ := exists_of_bind h
  cases h
  exact ⟨.text nestingLimit, _, Nat.le_refl _, hy⟩

/-- Plain JSON that was read: in normal form and not too deep. -/
theorem Reads.value {j : Json} (h : value.Reads d j) : j.normalize = j ∧ j.depth ≤ d := by
  obtain ⟨src, t, hbounds, h⟩ := h
  obtain ⟨k, hk, h⟩ := exists_of_bind h
  cases h
  refine ⟨normalize_normalize k, ?_⟩
  exact Nat.le_trans (depth_normalize_le k) (depth_le_of_buffer t hbounds hk)

/-- Only `null` is read as `null`. -/
theorem buffer_ne_null {src : Source} {t : Tree} (h : ∀ broken, t ≠ .null broken) :
    t.buffer src ≠ .ok .null := by
  intro hnull
  cases t with
  | missing f => cases hnull
  | null broken => exact h broken rfl
  | bool b broken =>
    obtain ⟨_, -, hnull⟩ := exists_of_bind hnull
    cases hnull
  | number n =>
    obtain ⟨_, -, hnull⟩ := exists_of_bind hnull
    cases hnull
  | text s =>
    obtain ⟨_, -, hnull⟩ := exists_of_bind hnull
    cases hnull
  | array items close =>
    obtain ⟨_, -, hnull⟩ := exists_of_bind hnull
    obtain ⟨_, -, hnull⟩ := exists_of_bind hnull
    obtain ⟨_, -, hnull⟩ := exists_of_bind hnull
    cases hnull
  | object fields close =>
    obtain ⟨_, -, hnull⟩ := exists_of_bind hnull
    obtain ⟨_, -, hnull⟩ := exists_of_bind hnull
    obtain ⟨_, -, hnull⟩ := exists_of_bind hnull
    cases hnull

theorem Reads.of_option {x : α} (h : c.option.Reads d (some x)) :
    ∃ src t, src.Bounds t d ∧ (∀ broken, t ≠ .null broken) ∧ c.decode src t = .ok x := by
  obtain ⟨src, t, hbounds, h⟩ := h
  unfold Codec.option at h
  simp only at h
  split at h
  · obtain ⟨_, -, h⟩ := exists_of_bind h
    cases h
  · next hnull =>
    obtain ⟨y, hy, h⟩ := exists_of_bind h
    cases h
    exact ⟨src, t, hbounds, hnull, hy⟩

theorem Reads.option {x : α} (h : c.option.Reads d (some x)) : c.Reads d x := by
  obtain ⟨src, t, hbounds, -, hx⟩ := h.of_option
  exact ⟨src, t, hbounds, hx⟩

theorem normalize_ne_null {j : Json} (h : j ≠ .null) : j.normalize ≠ .null := by
  cases j <;> first | exact absurd rfl h | exact nofun

/-- A value that may be missing is never `null`. -/
theorem Reads.ne_null {j : Json} (h : Codec.value.option.Reads d (some j)) : j ≠ .null := by
  obtain ⟨src, t, -, hnull, h⟩ := h.of_option
  obtain ⟨k, hk, h⟩ := exists_of_bind h
  cases h
  refine normalize_ne_null ?_
  rintro rfl
  exact buffer_ne_null hnull hk

section Buffered
variable {take : Json → Option α} {put : α → Option Json} {x : α}

theorem take_of_decode {src : Source} {t : Tree}
    (h : (buffered take put).decode src t = .ok x) :
    ∃ j, t.buffer src = .ok j ∧ take j = some x := by
  obtain ⟨j, hj, h⟩ := exists_of_bind h
  split at h
  · next hx =>
    cases h
    exact ⟨j, hj, hx⟩
  · cases h

theorem Reads.option_buffered (h : (Codec.buffered take put).option.Reads d (some x)) :
    ∃ j, j ≠ .null ∧ j.depth ≤ d ∧ take j = some x := by
  obtain ⟨src, t, hbounds, hnull, h⟩ := h.of_option
  obtain ⟨j, hj, hx⟩ := take_of_decode h
  refine ⟨j, ?_, depth_le_of_buffer t hbounds hj, hx⟩
  rintro rfl
  exact buffer_ne_null hnull hj

end Buffered

theorem reads_of_decodeItems {src : Source} {ts : List Tree} {xs : List α}
    (hbounds : ∀ t ∈ ts, src.Bounds t d) (h : c.decodeItems src ts = .ok xs) :
    ∀ x ∈ xs, c.Reads d x := by
  induction ts generalizing xs with
  | nil =>
    cases h
    intro x hx
    cases hx
  | cons t ts ih =>
    obtain ⟨y, hy, h⟩ := exists_of_bind h
    obtain ⟨ys, hys, h⟩ := exists_of_bind h
    cases h
    intro x hx
    rcases List.mem_cons.mp hx with rfl | hx
    · exact ⟨src, t, hbounds t List.mem_cons_self, hy⟩
    · exact ih (fun t ht => hbounds t (List.mem_cons_of_mem _ ht)) hys x hx

theorem Reads.list {xs : List α} (h : c.list.Reads (d + 1) xs) : ∀ x ∈ xs, c.Reads d x := by
  obtain ⟨src, t, hbounds, h⟩ := h
  cases t with
  | array items close =>
    obtain ⟨inner, henter, h⟩ := exists_of_bind h
    obtain ⟨ys, hys, h⟩ := exists_of_bind h
    obtain ⟨_, -, h⟩ := exists_of_bind h
    cases h
    exact reads_of_decodeItems (hbounds.items henter) hys
  | _ => cases h

/-- There is no list without room for it. -/
theorem Reads.list_pos {xs : List α} (h : c.list.Reads d xs) : 0 < d := by
  obtain ⟨src, t, hbounds, h⟩ := h
  cases t with
  | array items close =>
    obtain ⟨inner, henter, -⟩ := exists_of_bind h
    exact hbounds.pos henter (.inl ⟨items, rfl⟩)
  | _ => cases h

theorem reads_of_decodeEntries {src : Source} {ts : List (Leaf String × Tree)}
    {xs : List (String × α)} (hbounds : ∀ entry ∈ ts, src.Bounds entry.2 d)
    (h : c.decodeEntries src ts = .ok xs) : ∀ entry ∈ xs, c.Reads d entry.2 := by
  induction ts generalizing xs with
  | nil =>
    cases h
    intro entry hentry
    cases hentry
  | cons first ts ih =>
    obtain ⟨key, t⟩ := first
    obtain ⟨k, -, h⟩ := exists_of_bind h
    obtain ⟨y, hy, h⟩ := exists_of_bind h
    obtain ⟨ys, hys, h⟩ := exists_of_bind h
    cases h
    intro entry hentry
    rcases List.mem_cons.mp hentry with rfl | hentry
    · exact ⟨src, t, hbounds (key, t) List.mem_cons_self, hy⟩
    · exact ih (fun entry hentry => hbounds entry (List.mem_cons_of_mem _ hentry)) hys entry hentry

/-- The entries of an object with free keys stand in the order of their keys. -/
theorem Reads.keyed {xs : List (String × α)} (h : c.keyed.Reads (d + 1) xs) :
    Keyed.Sorted xs ∧ ∀ entry ∈ xs, c.Reads d entry.2 := by
  obtain ⟨src, t, hbounds, h⟩ := h
  cases t with
  | object fields close =>
    obtain ⟨inner, henter, h⟩ := exists_of_bind h
    obtain ⟨ys, hys, h⟩ := exists_of_bind h
    obtain ⟨_, -, h⟩ := exists_of_bind h
    cases h
    refine ⟨Keyed.sorted_ofList ys, ?_⟩
    intro entry hentry
    exact reads_of_decodeEntries (hbounds.fields henter) hys entry (Keyed.mem_ofList hentry)
  | _ => cases h

theorem Reads.keyed_pos {xs : List (String × α)} (h : c.keyed.Reads d xs) : 0 < d := by
  obtain ⟨src, t, hbounds, h⟩ := h
  cases t with
  | object fields close =>
    obtain ⟨inner, henter, -⟩ := exists_of_bind h
    exact hbounds.pos henter (.inr ⟨fields, rfl⟩)
  | _ => cases h

end Codec

namespace Fields

variable {ρ σ : Type} {d : Nat} {src : Source}

/-- What is in the slots was read. -/
def Filled : {ρ σ : Type} → Fields ρ σ → Nat → σ → Prop
  | _, _, .nil, _, _ => True
  | _, _, .cons f rest, d, (slot, slots) => (∀ x ∈ slot, f.codec.Reads d x) ∧ rest.Filled d slots

theorem filled_empty (fs : Fields ρ σ) (d : Nat) : fs.Filled d fs.empty := by
  induction fs with
  | nil => trivial
  | cons f rest ih => exact ⟨nofun, ih⟩

section Steps

variable {α : Type} {f : Field α} {rest : Fields ρ σ} {fs : Fields ρ σ} {key : String} {t : Tree}
  {ts : List (Leaf String × Tree)}

/-- A value goes into the slot of the first field with its name, which must be empty. -/
theorem put_cons_ok {slot slot' : Option α} {slots slots' : σ} :
    (Fields.cons f rest).put src key t (slot, slots) = some (.ok (slot', slots')) ↔
      (f.answersTo key = true ∧ slot = none ∧
        ∃ x, f.codec.decode src t = .ok x ∧ some x = slot' ∧ slots = slots') ∨
      (f.answersTo key = false ∧ slot = slot' ∧ rest.put src key t slots = some (.ok slots')) := by
  generalize hrest : rest.put src key t slots = result
  unfold put
  rw [hrest]
  cases f.answersTo key with
  | true =>
    cases slot with
    | some y => simp
    | none =>
      cases f.codec.decode src t with
      | error e => simp [bind, Except.bind]
      | ok x => simp [bind, Except.bind, pure, Except.pure]
  | false =>
    cases result with
    | none => simp
    | some result => cases result <;> simp

/-- The fields of an object are read one by one, or passed over. -/
theorem putAll_cons_ok {k : Leaf String} {slots slots' : σ} :
    fs.putAll src ((k, t) :: ts) slots = .ok slots' ↔ ∃ key, k.value = .ok key ∧
      ((fs.put src key t slots = none ∧ t.skip = .ok () ∧ fs.putAll src ts slots = .ok slots') ∨
        ∃ next, fs.put src key t slots = some (.ok next) ∧ fs.putAll src ts next = .ok slots') := by
  simp only [putAll, bind, Except.bind]
  cases k.value with
  | error e => simp
  | ok key =>
    cases hput : fs.put src key t slots with
    | none => cases t.skip <;> simp [hput]
    | some result => cases result <;> simp [hput]

end Steps

theorem Filled.put {fs : Fields ρ σ} {slots slots' : σ} {key : String} {t : Tree}
    (hslots : fs.Filled d slots) (hbounds : src.Bounds t d)
    (h : fs.put src key t slots = some (.ok slots')) : fs.Filled d slots' := by
  induction fs with
  | nil => cases h
  | cons f rest ih =>
    obtain ⟨slot, slots⟩ := slots
    obtain ⟨slot', slots'⟩ := slots'
    obtain ⟨hslot, hrest⟩ := hslots
    obtain ⟨-, -, x, hx, rfl, rfl⟩ | ⟨-, rfl, hput⟩ := put_cons_ok.mp h
    · refine ⟨?_, hrest⟩
      rintro _ ⟨⟩
      exact ⟨src, t, hbounds, hx⟩
    · exact ⟨hslot, ih hrest hput⟩

theorem Filled.putAll {fs : Fields ρ σ} {slots slots' : σ} {ts : List (Leaf String × Tree)}
    (hslots : fs.Filled d slots) (hbounds : ∀ entry ∈ ts, src.Bounds entry.2 d)
    (h : fs.putAll src ts slots = .ok slots') : fs.Filled d slots' := by
  induction ts generalizing slots with
  | nil =>
    cases h
    exact hslots
  | cons first ts ih =>
    obtain ⟨k, t⟩ := first
    have hrest := fun entry hentry => hbounds entry (List.mem_cons_of_mem _ hentry)
    obtain ⟨key, -, ⟨-, -, hts⟩ | ⟨next, hput, hts⟩⟩ := putAll_cons_ok.mp h
    · exact ih hslots hrest hts
    · exact ih (hslots.put (hbounds (k, t) List.mem_cons_self) hput) hrest hts

theorem Filled.row? {fs : Fields ρ σ} {slots : σ} {r : ρ} (hslots : fs.Filled d slots)
    (h : fs.row? slots = some r) : fs.Reads d r := by
  induction fs with
  | nil => trivial
  | cons f rest ih =>
    obtain ⟨slot, slots⟩ := slots
    obtain ⟨hslot, hrest⟩ := hslots
    obtain ⟨x, hx, h⟩ := Option.bind_eq_some_iff.mp h
    obtain ⟨r, hr, h⟩ := Option.bind_eq_some_iff.mp h
    cases h
    refine ⟨?_, ih hrest hr⟩
    cases slot with
    | none => exact .inr (.inl hx)
    | some y =>
      cases hx
      exact .inl (hslot _ rfl)

theorem reads_of_rowOfItems {fs : Fields ρ σ} {ts : List Tree} {close : Close} {r : ρ}
    (hbounds : ∀ t ∈ ts, src.Bounds t d) (h : rowOfItems src fs ts close = .ok r) :
    fs.Reads d r := by
  induction fs generalizing ts with
  | nil => trivial
  | cons f rest ih =>
    cases ts with
    | nil =>
      obtain ⟨_, -, h⟩ := exists_of_bind h
      split at h
      · cases h
      · next x hx =>
        obtain ⟨r, hr, h⟩ := exists_of_bind h
        cases h
        exact ⟨.inr (.inr hx), ih hbounds hr⟩
    | cons t ts =>
      obtain ⟨x, hx, h⟩ := exists_of_bind h
      obtain ⟨r, hr, h⟩ := exists_of_bind h
      cases h
      have hfirst : f.codec.Reads d x := ⟨src, t, hbounds t List.mem_cons_self, hx⟩
      exact ⟨.inl hfirst, ih (fun t ht => hbounds t (List.mem_cons_of_mem _ ht)) hr⟩

/-- A field is read under the key. -/
def answers : {ρ σ : Type} → Fields ρ σ → String → Bool
  | _, _, .nil, _ => false
  | _, _, .cons f rest, key => f.answersTo key || rest.answers key

theorem put_eq_none {fs : Fields ρ σ} {slots : σ} {key : String} {t : Tree} :
    fs.put src key t slots = none ↔ fs.answers key = false := by
  induction fs with
  | nil => exact iff_of_true rfl rfl
  | cons f rest ih =>
    obtain ⟨slot, slots⟩ := slots
    unfold put answers
    cases hkey : f.answersTo key with
    | true => cases slot <;> simp
    | false =>
      rw [Bool.false_or, ← ih]
      cases hput : rest.put src key t slots with
      | none => simp
      | some result => cases result <;> simp

/-- Fields that a record does not know, as they are kept. -/
def Kept (fs : Fields ρ σ) (d : Nat) (others : List (String × Json)) : Prop :=
  ∀ entry ∈ others, fs.answers entry.1 = false ∧ entry.2.normalize = entry.2 ∧ entry.2.depth ≤ d

theorem Filled.putKeeping {fs : Fields ρ σ} {slots slots' : σ} {ts : List (Leaf String × Tree)}
    {others : List (String × Json)} (hslots : fs.Filled d slots)
    (hbounds : ∀ entry ∈ ts, src.Bounds entry.2 d)
    (h : fs.putKeeping src ts slots = .ok (slots', others)) :
    fs.Filled d slots' ∧ fs.Kept d others := by
  induction ts generalizing slots others with
  | nil =>
    cases h
    exact ⟨hslots, nofun⟩
  | cons first ts ih =>
    obtain ⟨key, t⟩ := first
    have hfirst := hbounds (key, t) List.mem_cons_self
    have hrest := fun entry hentry => hbounds entry (List.mem_cons_of_mem _ hentry)
    obtain ⟨k, -, h⟩ := exists_of_bind h
    split at h
    · next hput =>
      obtain ⟨x, hx, h⟩ := exists_of_bind h
      obtain ⟨⟨slots'', xs⟩, hxs, h⟩ := exists_of_bind h
      cases h
      obtain ⟨hfilled, hkept⟩ := ih hslots hrest hxs
      have hx_depth := Nat.le_trans (depth_normalize_le x) (depth_le_of_buffer t hfirst hx)
      refine ⟨hfilled, List.forall_mem_cons.mpr ⟨?_, hkept⟩⟩
      exact ⟨put_eq_none.mp hput, normalize_normalize x, hx_depth⟩
    · next result hput =>
      obtain ⟨next, hnext, h⟩ := exists_of_bind h
      subst hnext
      exact ih (hslots.put hfirst hput) hrest h

end Fields

namespace Codec

variable {α ρ σ : Type} {fs : Fields ρ σ} {row : α → ρ} {d : Nat} {x : α}

theorem Reads.record {build : ρ → α} (hrow : ∀ r, row (build r) = r)
    (h : (Codec.record fs build row).Reads (d + 1) x) : fs.Reads d (row x) := by
  obtain ⟨src, t, hbounds, h⟩ := h
  cases t with
  | object fields close =>
    obtain ⟨inner, henter, h⟩ := exists_of_bind h
    obtain ⟨slots, hslots, h⟩ := exists_of_bind h
    obtain ⟨_, -, h⟩ := exists_of_bind h
    split at h
    · next r hr =>
      cases h
      rw [hrow]
      exact ((fs.filled_empty d).putAll (hbounds.fields henter) hslots).row? hr
    · cases h
  | array items close =>
    obtain ⟨inner, henter, h⟩ := exists_of_bind h
    obtain ⟨r, hr, h⟩ := exists_of_bind h
    cases h
    rw [hrow]
    exact Fields.reads_of_rowOfItems (hbounds.items henter) hr
  | _ => cases h

theorem Reads.record_pos {build : ρ → α} (h : (Codec.record fs build row).Reads d x) : 0 < d := by
  obtain ⟨src, t, hbounds, h⟩ := h
  cases t with
  | object fields close =>
    obtain ⟨inner, henter, -⟩ := exists_of_bind h
    exact hbounds.pos henter (.inr ⟨fields, rfl⟩)
  | array items close =>
    obtain ⟨inner, henter, -⟩ := exists_of_bind h
    exact hbounds.pos henter (.inl ⟨items, rfl⟩)
  | _ => cases h

theorem Reads.openRecord {build : ρ → List (String × Json) → α}
    {row : α → ρ × List (String × Json)} (hrow : ∀ r others, row (build r others) = (r, others))
    (h : (Codec.openRecord fs build row).Reads (d + 1) x) :
    fs.Reads d (row x).1 ∧ Keyed.Sorted (row x).2 ∧ fs.Kept d (row x).2 := by
  obtain ⟨src, t, hbounds, h⟩ := h
  cases t with
  | object fields close =>
    obtain ⟨inner, henter, h⟩ := exists_of_bind h
    obtain ⟨⟨slots, others⟩, hslots, h⟩ := exists_of_bind h
    obtain ⟨_, -, h⟩ := exists_of_bind h
    obtain ⟨hfilled, hkept⟩ := (fs.filled_empty d).putKeeping (hbounds.fields henter) hslots
    split at h
    · next r hr =>
      cases h
      rw [hrow]
      exact ⟨hfilled.row? hr, Keyed.sorted_ofList others,
        fun entry hentry => hkept entry (Keyed.mem_ofList hentry)⟩
    · cases h
  | _ => cases h

end Codec

/-- A value that a variant reads from plain JSON. -/
def Variant.Reads {α : Type} (v : Variant α) (d : Nat) (x : α) : Prop :=
  (∃ fields, depthFields fields ≤ d ∧ v.ofFields (treeFields fields) = .ok x) ∨
    ∃ items, depthItems items ≤ d ∧ v.ofItems (treeItems items) = .ok x

theorem Variant.Reads.row {α ρ σ : Type} {tag : String} {fs : Fields ρ σ} {build : ρ → α}
    {row? : α → Option ρ} {d : Nat} {x : α} (h : (Variant.of tag fs build row?).Reads d x) :
    ∃ r, x = build r ∧ fs.Reads d r := by
  rcases h with ⟨fields, hdepth, h⟩ | ⟨items, hdepth, h⟩
  · obtain ⟨slots, hslots, h⟩ := exists_of_bind h
    have hbounds : ∀ entry ∈ treeFields fields, Source.buffer.Bounds entry.2 d := by
      intro entry hentry
      obtain ⟨field, hfield, ht⟩ := exists_of_mem_treeFields hentry
      exact ⟨field.2, ht, Nat.le_trans (depth_le_depthFields hfield) hdepth⟩
    split at h
    · next r hr =>
      cases h
      exact ⟨r, rfl, ((fs.filled_empty d).putAll hbounds hslots).row? hr⟩
    · cases h
  · obtain ⟨r, hr, h⟩ := exists_of_bind h
    cases h
    refine ⟨r, rfl, Fields.reads_of_rowOfItems ?_ hr⟩
    intro t ht
    obtain ⟨y, hy, rfl⟩ := exists_of_mem_treeItems ht
    exact ⟨y, rfl, Nat.le_trans (depth_le_depthItems hy) hdepth⟩

namespace Tagged

variable {α : Type} {variants : List (Variant α)} {other : Option (Variant α)} {src : Source}
  {v : Variant α}

theorem mem_of_find {tag : String} (h : find variants other tag = .ok v) :
    v ∈ variants ++ other.toList := by
  unfold find at h
  split at h
  · next v' hv =>
    cases h
    rcases Option.or_eq_some_iff.mp hv with hv | ⟨-, rfl⟩
    · exact List.mem_append_left _ (List.mem_of_find?_eq_some hv)
    · simp
  · cases h

theorem mem_of_at? {n : UInt64} (h : at? variants other n = .ok v) :
    v ∈ variants ++ other.toList := by
  unfold at? at h
  split at h
  · next v' hv =>
    cases h
    rcases Option.or_eq_some_iff.mp hv with hv | ⟨-, rfl⟩
    · exact List.mem_append_left _ (List.mem_of_getElem? hv)
    · simp
  · cases h

theorem mem_of_readTag {t : Tree} (h : readTag variants other src t = .ok v) :
    v ∈ variants ++ other.toList := by
  cases t with
  | text s =>
    obtain ⟨tag, -, h⟩ := exists_of_bind h
    exact mem_of_find h
  | number n =>
    obtain ⟨n, -, h⟩ := exists_of_bind h
    split at h
    · exact mem_of_at? h
    · cases h
  | _ => cases h

theorem mem_of_gather {ts : List (Leaf String × Tree)} {tag : Option (Variant α)} {d : Nat}
    {fields : List (String × Json)} (htag : ∀ v ∈ tag, v ∈ variants ++ other.toList)
    (hbounds : ∀ entry ∈ ts, src.Bounds entry.2 d)
    (h : gather variants other src ts tag = .ok (some v, fields)) :
    v ∈ variants ++ other.toList ∧ depthFields fields ≤ d := by
  induction ts generalizing tag fields with
  | nil =>
    cases h
    exact ⟨htag v rfl, Nat.zero_le d⟩
  | cons first ts ih =>
    obtain ⟨key, t⟩ := first
    have hrest := fun entry hentry => hbounds entry (List.mem_cons_of_mem _ hentry)
    obtain ⟨k, -, h⟩ := exists_of_bind h
    split at h
    · split at h
      · cases h
      · obtain ⟨v', hv', h⟩ := exists_of_bind h
        refine ih ?_ hrest h
        rintro _ ⟨⟩
        exact mem_of_readTag hv'
    · obtain ⟨x, hx, h⟩ := exists_of_bind h
      obtain ⟨⟨tag', xs⟩, hxs, h⟩ := exists_of_bind h
      cases h
      obtain ⟨hv, hdepth⟩ := ih htag hrest hxs
      have hfirst := depth_le_of_buffer t (hbounds (key, t) List.mem_cons_self) hx
      exact ⟨hv, Nat.max_le.mpr ⟨hfirst, hdepth⟩⟩

end Tagged

/-- A tagged value is read by one of its variants. -/
theorem Codec.Reads.tagged {α : Type} {variants : List (Variant α)} {other : Option (Variant α)}
    {d : Nat} {x : α} (h : (Codec.tagged variants other).Reads (d + 1) x) :
    ∃ v ∈ variants ++ other.toList, v.Reads d x := by
  obtain ⟨src, t, hbounds, h⟩ := h
  cases t with
  | object fields close =>
    obtain ⟨inner, henter, h⟩ := exists_of_bind h
    obtain ⟨⟨tag, xs⟩, hxs, h⟩ := exists_of_bind h
    obtain ⟨_, -, h⟩ := exists_of_bind h
    cases tag with
    | none => cases h
    | some v =>
      have hnone : ∀ v ∈ (none : Option (Variant α)), v ∈ variants ++ other.toList := by
        intro v hv
        cases hv
      obtain ⟨hv, hdepth⟩ := Tagged.mem_of_gather hnone (hbounds.fields henter) hxs
      exact ⟨v, hv, .inl ⟨xs, hdepth, h⟩⟩
  | array items close =>
    cases items with
    | nil =>
      obtain ⟨_, -, h⟩ := exists_of_bind h
      obtain ⟨_, -, h⟩ := exists_of_bind h
      cases h
    | cons t ts =>
      obtain ⟨inner, henter, h⟩ := exists_of_bind h
      obtain ⟨v, hv, h⟩ := exists_of_bind h
      obtain ⟨xs, hxs, h⟩ := exists_of_bind h
      obtain ⟨_, -, h⟩ := exists_of_bind h
      have hitems := fun t ht => hbounds.items henter t (List.mem_cons_of_mem _ ht)
      exact ⟨v, Tagged.mem_of_readTag hv, .inr ⟨xs, depthItems_le_of_buffer ts hitems hxs, h⟩⟩
  | _ => cases h

end ChatDialect.Json
