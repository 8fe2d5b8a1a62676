import ChatDialect.Proofs.Json.FieldRef

/-! Edits of a text at one place. Where one field of a record is written anew, one item of a list
changes or one more comes in, what is read changes at that place only, and still is read. -/
namespace ChatDialect.Json

/-- The trees differ at the field with a key, or at the position that stands for it in an array. -/
inductive Tree.AtField (key : String) (position : Nat) (R : Tree → Tree → Prop) :
    Tree → Tree → Prop
  | object {before after : List (Leaf String × Tree)} {k : Leaf String} {t t' : Tree}
      {close : Close} (hkey : k.value = .ok key) (h : R t t') :
      AtField key position R (.object (before ++ (k, t) :: after) close)
        (.object (before ++ (k, t') :: after) close)
  | array {before after : List Tree} {t t' : Tree} {close : Close}
      (hposition : before.length = position) (h : R t t') :
      AtField key position R (.array (before ++ t :: after) close)
        (.array (before ++ t' :: after) close)

/-- The second tree has `u` for the field with a key, whatever the first has there. -/
inductive Tree.WithField (key : String) (position : Nat) (u : Tree) : Tree → Tree → Prop
  | replaced {t t' : Tree} (h : AtField key position (fun _ s => s = u) t t') :
      WithField key position u t t'
  | added {before after : List (Leaf String × Tree)} {k : Leaf String} {close : Close}
      (hkey : k.value = .ok key) (habsent : ∀ entry ∈ before ++ after, entry.1.value ≠ .ok key) :
      WithField key position u (.object (before ++ after) close)
        (.object (before ++ (k, u) :: after) close)
  | appended {before : List Tree} {close : Close} (hposition : before.length = position) :
      WithField key position u (.array before close) (.array (before ++ [u]) close)

/-- The lists differ at one item. -/
inductive AtOne {α : Type} (R : α → α → Prop) : List α → List α → Prop
  | head {x x' : α} {xs : List α} (h : R x x') : AtOne R (x :: xs) (x' :: xs)
  | tail {x : α} {xs xs' : List α} (h : AtOne R xs xs') : AtOne R (x :: xs) (x :: xs')

theorem AtOne.imp {α : Type} {R S : α → α → Prop} (h : ∀ x x', R x x' → S x x') {xs xs' : List α}
    (hxs : AtOne R xs xs') : AtOne S xs xs' := by
  induction hxs with
  | head hx => exact .head (h _ _ hx)
  | tail _ ih => exact .tail ih

/-- The trees differ at one item. -/
inductive Tree.AtItem (R : Tree → Tree → Prop) : Tree → Tree → Prop
  | intro {ts ts' : List Tree} {close : Close} (h : AtOne R ts ts') :
      AtItem R (.array ts close) (.array ts' close)

/-- The second tree has one more item. -/
inductive Tree.Inserted (u : Tree) : Tree → Tree → Prop
  | intro {before after : List Tree} {close : Close} :
      Inserted u (.array (before ++ after) close) (.array (before ++ u :: after) close)

/-- Where trees are related, what is read of the first has a counterpart that is read of the
second. -/
def Codec.Follows {α : Type} (c : Codec α) (src : Source) (R : Tree → Tree → Prop)
    (S : α → α → Prop) : Prop :=
  ∀ t t' x, R t t' → c.decode src t = .ok x → ∃ x', c.decode src t' = .ok x' ∧ S x x'

namespace Codec

variable {α β ρ σ : Type} {fs : Fields ρ σ} {src inner : Source} {R : Tree → Tree → Prop}

/-- A record changes at one field if its text does. -/
theorem record_follows {build : ρ → β} {row : β → ρ} (hrow : ∀ r, row (build r) = r)
    (ref : Fields.Ref α fs) {key : String} (hkey : ref.Named key) (henter : src.enter = .ok inner)
    {S : α → α → Prop} (h : ref.field.codec.Follows inner R S) :
    (Codec.record fs build row).Follows src (Tree.AtField key ref.position R) fun y y' =>
      ∃ x, S (ref.get (row y)) x ∧ y' = build (ref.set x (row y)) := by
  intro t t' y hedit hread
  cases hedit with
  | @object before after k u u' close hk hu =>
    simp only [record, henter, bind, Except.bind] at hread ⊢
    obtain ⟨slots, hslots, hread⟩ := exists_of_bind hread
    obtain ⟨x, hx, hslot, hreplace⟩ := Fields.Ref.putAll_replace hkey hk hslots
    obtain ⟨x', hx', hS⟩ := h u u' x hu hx
    obtain ⟨_, hclose, hread⟩ := exists_of_bind hread
    split at hread
    · next r hr =>
      cases hread
      refine ⟨build (ref.set x' r), ?_, x', ?_, ?_⟩
      · simp only [hreplace u' x' hx', hclose, ref.row?_fill x' hr]
        rfl
      · rw [hrow, ref.get_of_row? hslot hr]
        exact hS
      · rw [hrow]
    · cases hread
  | @array before after u u' close hposition hu =>
    simp only [record, henter, bind, Except.bind] at hread ⊢
    obtain ⟨r, hr, hread⟩ := exists_of_bind hread
    cases hread
    obtain ⟨hx, hreplace⟩ := ref.rowOfItems_replace hposition hr
    obtain ⟨x', hx', hS⟩ := h u u' _ hu hx
    refine ⟨build (ref.set x' r), ?_, x', ?_, ?_⟩
    · simp only [hreplace u' x' hx']
      rfl
    · rw [hrow]
      exact hS
    · rw [hrow]

/-- A record takes any readable text for one of its fields. -/
theorem record_withField {build : ρ → β} {row : β → ρ} (hrow : ∀ r, row (build r) = r)
    (ref : Fields.Ref α fs) {key : String} (hkey : ref.Named key)
    (hnamed : ∀ k, ref.Named k → k = key) (henter : src.enter = .ok inner) {u : Tree} {x : α}
    (hu : ref.field.codec.decode inner u = .ok x) :
    (Codec.record fs build row).Follows src (Tree.WithField key ref.position u) fun y y' =>
      y' = build (ref.set x (row y)) := by
  intro t t' y hedit hread
  cases hedit with
  | replaced hreplaced =>
    have hvalue : ref.field.codec.Follows inner (fun _ s => s = u) fun _ x' => x' = x := by
      rintro _ _ _ rfl -
      exact ⟨x, hu, rfl⟩
    obtain ⟨y', hy', x', rfl, hbuild⟩ :=
      record_follows hrow ref hkey henter hvalue t t' y hreplaced hread
    exact ⟨y', hy', hbuild⟩
  | @added before after k close hk habsent =>
    simp only [record, henter, bind, Except.bind] at hread ⊢
    obtain ⟨slots, hslots, hread⟩ := exists_of_bind hread
    have hslot : ref.slot slots = none :=
      (Fields.Ref.slot_of_putAll_other hnamed habsent hslots).trans ref.slot_empty
    have hadd := Fields.Ref.putAll_add hkey hk hslots hslot hu
    obtain ⟨_, hclose, hread⟩ := exists_of_bind hread
    split at hread
    · next r hr =>
      cases hread
      refine ⟨build (ref.set x r), ?_, ?_⟩
      · simp only [hadd, hclose, ref.row?_fill x hr]
        rfl
      · rw [hrow]
    · cases hread
  | @appended before close hposition =>
    simp only [record, henter, bind, Except.bind] at hread ⊢
    obtain ⟨r, hr, hread⟩ := exists_of_bind hread
    cases hread
    refine ⟨build (ref.set x r), ?_, ?_⟩
    · simp only [ref.rowOfItems_add hposition hu hr]
      rfl
    · rw [hrow]

theorem decodeItems_follows {c : Codec α} {S : α → α → Prop} (h : c.Follows src R S)
    {ts ts' : List Tree} (hedit : AtOne R ts ts') {xs : List α}
    (hread : c.decodeItems src ts = .ok xs) :
    ∃ xs', c.decodeItems src ts' = .ok xs' ∧ AtOne S xs xs' := by
  induction hedit generalizing xs with
  | @head t t' ts ht =>
    obtain ⟨x, hx, hread⟩ := exists_of_bind hread
    obtain ⟨ys, hys, hread⟩ := exists_of_bind hread
    cases hread
    obtain ⟨x', hx', hS⟩ := h t t' x ht hx
    refine ⟨x' :: ys, ?_, .head hS⟩
    simp only [decodeItems, hx', hys, bind, Except.bind]
    rfl
  | tail _ ih =>
    obtain ⟨x, hx, hread⟩ := exists_of_bind hread
    obtain ⟨ys, hys, hread⟩ := exists_of_bind hread
    cases hread
    obtain ⟨ys', hys', hS⟩ := ih hys
    refine ⟨x :: ys', ?_, .tail hS⟩
    simp only [decodeItems, hx, hys', bind, Except.bind]
    rfl

/-- A list changes at one item if its text does. -/
theorem list_follows {c : Codec α} (henter : src.enter = .ok inner) {S : α → α → Prop}
    (h : c.Follows inner R S) : c.list.Follows src (Tree.AtItem R) (AtOne S) := by
  rintro _ _ xs ⟨hedit⟩ hread
  simp only [list, henter, bind, Except.bind] at hread ⊢
  obtain ⟨ys, hys, hread⟩ := exists_of_bind hread
  obtain ⟨_, hclose, hread⟩ := exists_of_bind hread
  cases hread
  obtain ⟨ys', hys', hS⟩ := decodeItems_follows h hedit hys
  refine ⟨ys', ?_, hS⟩
  simp only [hys', hclose]
  rfl

end Codec

theorem bufferItems_append {src : Source} (before after : List Tree) :
    Tree.bufferItems src (before ++ after) = do
      let xs ← Tree.bufferItems src before
      let ys ← Tree.bufferItems src after
      return xs ++ ys := by
  induction before with
  | nil =>
    simp only [List.nil_append, Tree.bufferItems, bind, Except.bind]
    cases Tree.bufferItems src after <;> rfl
  | cons t before ih =>
    simp only [List.cons_append, Tree.bufferItems, bind, Except.bind, ih]
    cases t.buffer src with
    | error e => rfl
    | ok x =>
      cases Tree.bufferItems src before with
      | error e => rfl
      | ok xs => cases Tree.bufferItems src after <;> rfl

/-- An array with one more item is read with the value of that item in its place. -/
theorem Codec.value_follows {src inner : Source} (henter : src.enter = .ok inner) {u : Tree}
    {v : Json} (hu : Codec.value.decode inner u = .ok v) :
    Codec.value.Follows src (Tree.Inserted u) fun j j' =>
      ∃ before after, j = .arr (before ++ after) ∧ j' = .arr (before ++ v :: after) := by
  obtain ⟨w, hw, hu⟩ := exists_of_bind hu
  cases hu
  intro t t' j hedit hread
  cases hedit with
  | @intro before after close =>
    simp only [value, Tree.buffer, henter, bind, Except.bind] at hread ⊢
    obtain ⟨k, hk, hread⟩ := exists_of_bind hread
    obtain ⟨items, hitems, hk⟩ := exists_of_bind hk
    obtain ⟨_, hclose, hk⟩ := exists_of_bind hk
    cases hk
    cases hread
    rw [bufferItems_append] at hitems
    obtain ⟨xs, hxs, hitems⟩ := exists_of_bind hitems
    obtain ⟨ys, hys, hitems⟩ := exists_of_bind hitems
    cases hitems
    refine ⟨.arr (normalizeItems xs ++ w.normalize :: normalizeItems ys), ?_,
      normalizeItems xs, normalizeItems ys, ?_, rfl⟩
    · simp only [bufferItems_append, hxs, hys, Tree.bufferItems, hw, hclose, bind, Except.bind]
      exact congrArg (fun items => Except.ok (arr items)) (normalizeItems_append xs (w :: ys))
    · exact congrArg arr (normalizeItems_append xs ys)

end ChatDialect.Json
