import Mathlib.Data.List.Forall2
import ChatDialect.Json.Tagged

/-! What codecs write. A codec is total if it can write every value of its type; a record is if its
fields are. The items of a list stand in their order, the fields of a record under their names. -/
namespace ChatDialect.Json

/-- The item at a position of the list under a key. -/
def item? (j : Json) (key : String) (position : Nat) : Option Json :=
  (j.get? key).bind fun items => items.arr?.bind (·[position]?)

namespace Codec

variable {α : Type} {c : Codec α}

/-- Every value has a written form. -/
def Total (c : Codec α) : Prop := ∀ x, ∃ j, c.encode x = some j

theorem string_total : string.Total := fun s => ⟨.str s, rfl⟩

theorem bool_total : bool.Total := fun b => ⟨.bool b, rfl⟩

theorem number_total (pick : Number → Option α) (put : α → Number) : (number pick put).Total :=
  fun x => ⟨.num (put x), rfl⟩

theorem name_total (pick : String → Option α) (put : α → String) : (name pick put).Total :=
  fun x => ⟨.str (put x), rfl⟩

theorem value_total : value.Total := fun j => ⟨j, rfl⟩

theorem option_total (h : c.Total) : c.option.Total
  | none => ⟨.null, rfl⟩
  | some x => h x

theorem Total.encodeItems (h : c.Total) (xs : List α) : ∃ js, c.encodeItems xs = some js := by
  induction xs with
  | nil => exact ⟨[], rfl⟩
  | cons x xs ih =>
    obtain ⟨j, hj⟩ := h x
    obtain ⟨js, hjs⟩ := ih
    refine ⟨j :: js, ?_⟩
    rw [Codec.encodeItems, hj, hjs]
    rfl

/-- Each value is written in its place. -/
theorem getElem?_encodeItems {xs : List α} {js : List Json} (h : c.encodeItems xs = some js)
    (i : Nat) : js[i]? = xs[i]?.bind c.encode := by
  induction xs generalizing js i with
  | nil =>
    cases h
    rfl
  | cons x xs ih =>
    obtain ⟨j, hj, h⟩ := Option.bind_eq_some_iff.mp h
    obtain ⟨js', hjs, h⟩ := Option.bind_eq_some_iff.mp h
    cases h
    cases i with
    | zero => exact hj.symm
    | succ i => exact ih hjs i

/-- Values with the same written forms, one by one, are written as the same items. -/
theorem encodeItems_congr {β : Type} {c' : Codec β} {xs : List α} {ys : List β}
    (h : List.Forall₂ (fun x y => c.encode x = c'.encode y) xs ys) :
    c.encodeItems xs = c'.encodeItems ys := by
  induction h with
  | nil => rfl
  | cons hxy _ ih => rw [encodeItems, encodeItems, hxy, ih]

theorem exists_items {xs : List α} {j : Json} (h : c.list.encode xs = some j) :
    ∃ js, j = .arr js ∧ c.encodeItems xs = some js := by
  obtain ⟨js, hjs, hj⟩ := Option.bind_eq_some_iff.mp h
  cases hj
  exact ⟨js, rfl, hjs⟩

theorem list_total (h : c.Total) : c.list.Total := by
  intro xs
  obtain ⟨js, hjs⟩ := h.encodeItems xs
  refine ⟨.arr js, ?_⟩
  simp only [list, hjs]
  rfl

/-- Items that a function writes are the items of a list. -/
theorem list_encode {f : α → Json} (h : ∀ x, c.encode x = some (f x)) (xs : List α) :
    c.list.encode xs = some (.arr (xs.map f)) := by
  have hitems : c.encodeItems xs = some (xs.map f) := by
    induction xs with
    | nil => rfl
    | cons x xs ih =>
      rw [encodeItems, h x, ih]
      rfl
  simp only [list, hitems]
  rfl

end Codec

namespace Fields

variable {ρ σ : Type}

/-- Every field can write every value. -/
def Total : {ρ σ : Type} → Fields ρ σ → Prop
  | _, _, .nil => True
  | _, _, .cons f rest => f.codec.Total ∧ rest.Total

theorem Total.encode {fs : Fields ρ σ} (h : fs.Total) (r : ρ) : ∃ js, fs.encode r = some js := by
  induction fs with
  | nil => exact ⟨[], rfl⟩
  | cons f rest ih =>
    obtain ⟨x, r⟩ := r
    obtain ⟨hf, hrest⟩ := h
    obtain ⟨js, hjs⟩ := ih hrest r
    obtain ⟨j, hj⟩ := hf x
    rw [Fields.encode, hjs, hj]
    split
    · exact ⟨js, rfl⟩
    · exact ⟨(f.name, j) :: js, rfl⟩

/-- A field that is written stands before the ones behind it. -/
theorem encode_cons {α : Type} {f : Field α} {rest : Fields ρ σ} {x : α} {r : ρ}
    {js : List (String × Json)} (h : (cons f rest).encode (x, r) = some js)
    (hwritten : f.omitted x = false) :
    ∃ j js', f.codec.encode x = some j ∧ rest.encode r = some js' ∧ js = (f.name, j) :: js' := by
  rw [encode, hwritten] at h
  obtain ⟨j, hj, h⟩ := Option.bind_eq_some_iff.mp h
  obtain ⟨js', hjs, h⟩ := Option.bind_eq_some_iff.mp h
  cases h
  exact ⟨j, js', hj, hjs, rfl⟩

end Fields

theorem Codec.record_total {α ρ σ : Type} {fs : Fields ρ σ} {build : ρ → α} {row : α → ρ}
    (h : fs.Total) : (Codec.record fs build row).Total := by
  intro x
  obtain ⟨js, hjs⟩ := h.encode (row x)
  refine ⟨.obj js, ?_⟩
  simp only [record, hjs]
  rfl

end ChatDialect.Json
