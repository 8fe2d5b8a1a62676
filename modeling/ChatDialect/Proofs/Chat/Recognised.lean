import ChatDialect.Proofs.Chat.Settling

/-! Which values are blocks of content: those with a type that is known and a payload under it that
can be used. Every other value is an ignored block. -/
namespace ChatDialect

namespace Json

def IsText (j : Json) : Prop := ∃ s, j = .str s

/-- The value of a text that may be missing. -/
def IsTextOrNull (j : Json) : Prop := j = .null ∨ j.IsText

theorem isSome_string {j : Json} : (Codec.string.ofJson? j).isSome ↔ j.IsText := by
  constructor
  · intro h
    cases j with
    | str s => exact ⟨s, rfl⟩
    | _ => cases h
  · rintro ⟨s, rfl⟩
    rfl

theorem isSome_option_string {j : Json} :
    (Codec.string.option.ofJson? j).isSome ↔ j.IsTextOrNull := by
  constructor
  · intro h
    cases j with
    | null => exact .inl rfl
    | str s => exact .inr ⟨s, rfl⟩
    | _ => cases h
  · rintro (rfl | ⟨s, rfl⟩) <;> rfl

section Fields

variable {α ρ σ : Type} {name : String} {o : Option Json}

theorem isSome_required : ((Field.required name .string).under? none o).isSome ↔
    ∃ v ∈ o, v.IsText := by
  cases o with
  | none => exact iff_of_false nofun nofun
  | some v =>
    change (Codec.string.ofJson? v).isSome ↔ _
    simp [isSome_string]

theorem isSome_withDefault {x : String} :
    ((Field.withDefault name x .string).under? none o).isSome ↔ ∀ v ∈ o, v.IsText := by
  cases o with
  | none => exact iff_of_true rfl nofun
  | some v =>
    change (Codec.string.ofJson? v).isSome ↔ _
    simp [isSome_string]

theorem isSome_optional : ((Field.optional name .string).under? none o).isSome ↔
    ∀ v ∈ o, v.IsTextOrNull := by
  cases o with
  | none => exact iff_of_true rfl nofun
  | some v =>
    change (Codec.string.option.ofJson? v).isSome ↔ _
    simp [isSome_option_string]

/-- There is a row if there is a value for each field. -/
theorem isSome_rowUnder?_cons {f : Field α} {rest : Fields ρ σ} {get : String → Option Json}
    {slot : Option α} {slots : σ} :
    ((Fields.cons f rest).rowUnder? get (slot, slots)).isSome ↔
      (f.under? slot (get f.name)).isSome ∧ (rest.rowUnder? get slots).isSome := by
  rw [Fields.rowUnder?]
  cases f.under? slot (get f.name) with
  | none => simp
  | some x => cases rest.rowUnder? get slots <;> simp

theorem isSome_rowUnder?_nil {get : String → Option Json} :
    (Fields.nil.rowUnder? get ()).isSome :=
  rfl

theorem isSome_items_cons {f : Field α} {rest : Fields ρ σ} {x : Json} {items : List Json} :
    ((Fields.cons f rest).rowOfItems .buffer (treeItems (x :: items)) .closed).toOption.isSome ↔
      (f.codec.ofJson? x).isSome ∧
        (rest.rowOfItems .buffer (treeItems items) .closed).toOption.isSome := by
  simp only [treeItems, Fields.rowOfItems, Codec.ofJson?, bind, Except.bind]
  cases f.codec.decode .buffer x.tree with
  | error e => simp [Except.toOption]
  | ok y =>
    cases rest.rowOfItems .buffer (treeItems items) .closed <;>
      simp [Except.toOption, pure, Except.pure]

theorem isSome_items_nil {f : Field α} {rest : Fields ρ σ} :
    ((Fields.cons f rest).rowOfItems .buffer (treeItems []) .closed).toOption.isSome ↔
      f.absentAtEnd.isSome ∧ (rest.rowOfItems .buffer (treeItems []) .closed).toOption.isSome := by
  simp only [treeItems, Fields.rowOfItems, Close.fault?, check, bind, Except.bind]
  cases f.absentAtEnd with
  | none => simp [Except.toOption]
  | some y =>
    cases rest.rowOfItems .buffer [] .closed <;> simp [Except.toOption, pure, Except.pure]

@[simp] theorem isSome_items_none :
    (Fields.nil.rowOfItems .buffer (treeItems []) .closed).toOption.isSome :=
  rfl

@[simp] theorem isSome_items_surplus {x : Json} {items : List Json} :
    ¬ (Fields.nil.rowOfItems .buffer (treeItems (x :: items)) .closed).toOption.isSome :=
  nofun

/-- An object stands for a record if there is a row under its keys. -/
theorem isSome_record_obj {fs : Fields ρ σ} {build : ρ → α} {row : α → ρ} (hplain : fs.plain)
    (hfs : fs.distinct) {fields : List (String × Json)} (hkeys : (fields.map Prod.fst).Nodup) :
    ((Codec.record fs build row).ofJson? (.obj fields)).isSome ↔
      (fs.rowUnder? (obj fields).get? fs.empty).isSome := by
  rw [Codec.record_ofJson? hplain hfs hkeys, Option.isSome_map]
  rfl

/-- An array stands for a record if its items stand for a row. -/
theorem isSome_record_arr {fs : Fields ρ σ} {build : ρ → α} {row : α → ρ} {items : List Json} :
    ((Codec.record fs build row).ofJson? (.arr items)).isSome ↔
      (fs.rowOfItems .buffer (treeItems items) .closed).toOption.isSome := by
  simp only [Codec.ofJson?, Codec.record, tree, Source.enter, bind, Except.bind]
  cases fs.rowOfItems .buffer (treeItems items) .closed <;>
    simp [Except.toOption, pure, Except.pure]

end Fields

end Json

namespace Chat

open Json

/-- A reference to an image or a video: a URL, or an object with one. -/
def MediaUrl.Usable : Json → Prop
  | .str _ => True
  | .obj fields => (∃ v ∈ (obj fields).get? "url", v.IsText) ∧
      (∀ v ∈ (obj fields).get? "detail", v.IsTextOrNull) ∧
      ∀ v ∈ (obj fields).get? "format", v.IsTextOrNull
  | _ => False

/-- Audio: data and possibly its format, as an object or as an array. -/
def Audio.Usable : Json → Prop
  | .obj fields => (∃ v ∈ (obj fields).get? "data", v.IsText) ∧
      ∀ v ∈ (obj fields).get? "format", v.IsText
  | .arr items => (items.length = 1 ∨ items.length = 2) ∧ ∀ x ∈ items, x.IsText
  | _ => False

/-- A file: an object or an array with texts, any of which may be missing. -/
def FileRef.Usable : Json → Prop
  | .obj fields => ∀ key ∈ ["file_id", "file_data", "filename", "format"],
      ∀ v ∈ (obj fields).get? key, v.IsTextOrNull
  | .arr items => items.length ≤ 4 ∧ ∀ x ∈ items, x.IsTextOrNull
  | _ => False

theorem MediaUrl.isSome_ofJson? {j : Json} (hj : j.normalize = j) :
    (ofJson? j).isSome ↔ Usable j := by
  cases j with
  | str s => exact iff_of_true rfl trivial
  | obj fields =>
    have hrecord : (codec.ofJson? (.obj fields)).isSome ↔ _ :=
      isSome_record_obj rfl rfl (nodup_of_normal hj)
    rw [ofJson?, hrecord]
    simp only [Fields.empty, isSome_rowUnder?_cons, isSome_required, isSome_optional,
      isSome_rowUnder?_nil, and_true]
    rfl
  | _ => exact iff_of_false Bool.false_ne_true not_false

theorem Audio.isSome_ofJson? {j : Json} (hj : j.normalize = j) :
    (codec.ofJson? j).isSome ↔ Usable j := by
  cases j with
  | obj fields =>
    have hrecord : (codec.ofJson? (.obj fields)).isSome ↔ _ :=
      isSome_record_obj rfl rfl (nodup_of_normal hj)
    rw [hrecord]
    simp only [Fields.empty, isSome_rowUnder?_cons, isSome_required, isSome_withDefault,
      isSome_rowUnder?_nil, and_true]
    rfl
  | arr items =>
    have hrecord : (codec.ofJson? (.arr items)).isSome ↔ _ := isSome_record_arr
    rw [hrecord]
    rcases items with _ | ⟨x, _ | ⟨y, _ | ⟨z, items⟩⟩⟩ <;>
      simp [isSome_items_cons, isSome_items_nil, isSome_string, Usable, Field.required,
        Field.withDefault]
  | _ => exact iff_of_false Bool.false_ne_true not_false

theorem FileRef.isSome_ofJson? {j : Json} (hj : j.normalize = j) :
    (codec.ofJson? j).isSome ↔ Usable j := by
  cases j with
  | obj fields =>
    have hrecord : (codec.ofJson? (.obj fields)).isSome ↔ _ :=
      isSome_record_obj rfl rfl (nodup_of_normal hj)
    rw [hrecord]
    simp only [Fields.empty, isSome_rowUnder?_cons, isSome_optional, isSome_rowUnder?_nil, and_true]
    simp [Usable, Field.optional]
  | arr items =>
    have hrecord : (codec.ofJson? (.arr items)).isSome ↔ _ := isSome_record_arr
    rw [hrecord]
    rcases items with _ | ⟨x, _ | ⟨y, _ | ⟨z, _ | ⟨w, _ | ⟨v, items⟩⟩⟩⟩⟩ <;>
      simp [isSome_items_cons, isSome_items_nil, isSome_option_string, Usable, Field.optional]
  | _ => exact iff_of_false Bool.false_ne_true not_false

namespace Block

/-- What the payload of a block must be for its type. -/
def Usable (kind : String) (v : Json) : Prop :=
  kind = "text" ∧ v.IsText ∨
  (kind = "image_url" ∨ kind = "video_url") ∧ MediaUrl.Usable v ∨
  kind = "input_audio" ∧ Audio.Usable v ∨
  kind = "file" ∧ FileRef.Usable v

/-- The value has a type, and under it a payload that can be used. -/
def Recognised (j : Json) : Prop :=
  ∃ kind v, j.get? "type" = some (.str kind) ∧ j.get? kind = some v ∧ Usable kind v

theorem isSome_decoded? {j : Json} (hj : j.normalize = j) (kind : String) :
    (decoded? kind j).isSome ↔ ∃ v, j.get? kind = some v ∧ Usable kind v := by
  have hpayload {α : Type} {take : Json → Option α} {put : α → Block} {P : Json → Prop}
      (key : String) (h : ∀ v : Json, v.normalize = v → ((take v).isSome ↔ P v)) :
      ((j.get? key).bind fun v => (take v).map put).isSome ↔ ∃ v, j.get? key = some v ∧ P v := by
    cases hkey : j.get? key with
    | none => exact iff_of_false nofun nofun
    | some v => simpa using h v (normal_of_get? hj hkey)
  unfold decoded?
  split_ifs with htext himage hvideo haudio hfile
  · subst htext
    have htake (v : Json) : v.str?.isSome ↔ v.IsText := by
      cases v <;> simp [str?, IsText]
    rw [hpayload "text" fun v _ => htake v]
    simp [Usable]
  · subst himage
    rw [hpayload "image_url" fun v => MediaUrl.isSome_ofJson?]
    simp [Usable]
  · subst hvideo
    rw [hpayload "video_url" fun v => MediaUrl.isSome_ofJson?]
    simp [Usable]
  · subst haudio
    rw [hpayload "input_audio" fun v => Audio.isSome_ofJson?]
    simp [Usable]
  · subst hfile
    rw [hpayload "file" fun v => FileRef.isSome_ofJson?]
    simp [Usable]
  · simp [Usable, *]

/-- A type with a payload that can be used was stated. -/
theorem type_of_usable {j v : Json} (h : Usable (kindOf j) v) :
    j.get? "type" = some (.str (kindOf j)) := by
  have hkind : kindOf j ≠ "" := by
    intro hempty
    rw [hempty] at h
    simp [Usable] at h
  unfold kindOf textAt at hkind ⊢
  cases htype : j.get? "type" with
  | none => simp [htype] at hkind
  | some t =>
    rw [htype] at hkind
    cases t with
    | str kind => rfl
    | _ => exact absurd rfl hkind

theorem isIgnored_of_decoded? {kind : String} {j : Json} {b : Block}
    (h : decoded? kind j = some b) : b.isIgnored = false := by
  cases b with
  | ignored kind =>
    unfold decoded? at h
    split_ifs at h <;> simp [Option.bind_eq_some_iff] at h
  | _ => rfl

/-- What is not recognised is ignored. -/
theorem isIgnored_ofJson {j : Json} (hj : j.normalize = j) :
    (ofJson j).isIgnored = true ↔ ¬ Recognised j := by
  have hrecognised : Recognised j ↔ (decoded? (kindOf j) j).isSome := by
    rw [isSome_decoded? hj]
    constructor
    · rintro ⟨kind, v, htype, hv, husable⟩
      have hkind : kindOf j = kind := by
        rw [kindOf, textAt, htype]
        rfl
      exact ⟨v, hkind ▸ hv, hkind ▸ husable⟩
    · rintro ⟨v, hv, husable⟩
      exact ⟨kindOf j, v, type_of_usable husable, hv, husable⟩
  rw [hrecognised, ofJson]
  cases hblock : decoded? (kindOf j) j with
  | none => simp [isIgnored]
  | some b => simp [isIgnored_of_decoded? hblock]

end Block

end Chat
end ChatDialect
