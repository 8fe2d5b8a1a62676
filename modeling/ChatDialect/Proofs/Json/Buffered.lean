import ChatDialect.Json.Tagged
import ChatDialect.Proofs.Json.Codec
import ChatDialect.Proofs.Json.Normal

/-! What is read as plain JSON first: any value, which reads back if its fields are in order, and
tagged values, which read back if the fields of their variant do. -/
namespace ChatDialect.Json

mutual
/-- A value is read as it was written wherever there is room for it. -/
theorem buffer_tree : (j : Json) → {src : Source} → src.Admits j.depth → j.tree.buffer src = .ok j
  | .null, _, _ => rfl
  | .bool _, _, _ => rfl
  | .num _, _, _ => rfl
  | .str _, _, _ => rfl
  | .arr items, src, h => by
    obtain ⟨inner, henter, hinner⟩ := h.enter
    simp only [tree, Tree.buffer, henter, bind, Except.bind, bufferItems_tree items hinner]
    rfl
  | .obj fields, src, h => by
    obtain ⟨inner, henter, hinner⟩ := h.enter
    simp only [tree, Tree.buffer, henter, bind, Except.bind, bufferFields_tree fields hinner]
    rfl

theorem bufferItems_tree : (items : List Json) → {src : Source} → src.Admits (depthItems items) →
    Tree.bufferItems src (treeItems items) = .ok items
  | [], _, _ => rfl
  | x :: items, src, h => by
    have hx := buffer_tree x (h.mono (Nat.le_max_left _ _))
    have hitems := bufferItems_tree items (h.mono (Nat.le_max_right _ _))
    simp only [treeItems, Tree.bufferItems, bind, Except.bind, hx, hitems]
    rfl

theorem bufferFields_tree : (fields : List (String × Json)) → {src : Source} →
    src.Admits (depthFields fields) → Tree.bufferFields src (treeFields fields) = .ok fields
  | [], _, _ => rfl
  | (k, x) :: fields, src, h => by
    have hx := buffer_tree x (h.mono (Nat.le_max_left _ _))
    have hfields := bufferFields_tree fields (h.mono (Nat.le_max_right _ _))
    simp only [treeFields, Tree.bufferFields, Leaf.clean, bind, Except.bind, hx, hfields]
    rfl
end

namespace Codec

/-- A value is read in its normal form. -/
theorem decode_tree {j : Json} {src : Source} (h : src.Admits j.depth) :
    value.decode src j.tree = .ok j.normalize := by
  simp only [value, bind, Except.bind, buffer_tree j h]
  rfl

theorem value_faithful {j : Json} {d : Nat} (hexact : j.isExact) (hnormal : j.normalize = j)
    (hdepth : j.depth ≤ d) : value.Faithful d j := by
  refine ⟨j, rfl, hexact, hdepth, ?_⟩
  intro src hsrc
  rw [decode_tree (hsrc.mono hdepth), hnormal]

/-- What is read as plain JSON first reads back if it is found in its written form. -/
theorem buffered_faithful {α : Type} {take : Json → Option α} {put : α → Option Json} {x : α}
    {j : Json} {d : Nat} (hput : put x = some j) (hexact : j.isExact) (hdepth : j.depth ≤ d)
    (htake : take j = some x) : (buffered take put).Faithful d x := by
  refine ⟨j, hput, hexact, hdepth, ?_⟩
  intro src hsrc
  simp only [buffered, bind, Except.bind, buffer_tree j (hsrc.mono hdepth), htake]
  rfl

/-- What is read carries no order. -/
theorem normal_of_decode {src : Source} {t : Tree} {j : Json} (h : value.decode src t = .ok j) :
    j.normalize = j := by
  obtain ⟨k, -, h⟩ := exists_of_bind h
  cases h
  exact normalize_normalize k

theorem normal_of_read {bs : List UInt8} {j : Json} (h : value.read bs = .ok j) :
    j.normalize = j := by
  unfold read at h
  obtain ⟨k, hk, h⟩ := exists_of_bind h
  obtain ⟨_, -, h⟩ := exists_of_bind h
  cases h
  exact normal_of_decode hk

end Codec

section Tagged

variable {α ρ σ : Type} {variants : List (Variant α)} {other : Option (Variant α)}

theorem gather_tree {fields : List (String × Json)} (h : ∀ field ∈ fields, field.1 ≠ "type")
    {src : Source} (hsrc : src.Admits (depthFields fields)) (tag : Option (Variant α)) :
    Tagged.gather variants other src (treeFields fields) tag = .ok (tag, fields) := by
  induction fields with
  | nil => rfl
  | cons field fields ih =>
    obtain ⟨k, x⟩ := field
    have hk : (k == "type") = false := beq_false_of_ne (h (k, x) List.mem_cons_self)
    have hx := buffer_tree x (hsrc.mono (Nat.le_max_left _ _))
    have hfields := ih (fun field hfield => h field (List.mem_cons_of_mem _ hfield))
      (hsrc.mono (Nat.le_max_right _ _))
    simp only [treeFields, Tagged.gather, Leaf.clean, bind, Except.bind, hk, hx, hfields,
      Bool.false_eq_true, if_false]
    rfl

/-- A value of a variant is written with the tag first. -/
theorem Codec.tagged_faithful (tag : String) {fs : Fields ρ σ} {build : ρ → α}
    {row? : α → Option ρ} {x : α} (r : ρ) {d : Nat}
    (hfind : Tagged.find variants other tag = .ok (.of tag fs build row?))
    (hencode : (Codec.tagged variants other).encode x =
      (fs.encode r).bind fun fields => some (.obj (("type", .str tag) :: fields)))
    (hfs : fs.distinct) (htype : "type" ∉ fs.names) (hbuild : build r = x)
    (h : fs.Faithful d r) : (Codec.tagged variants other).Faithful (d + 1) x := by
  obtain ⟨js, hjs, hexact, hdepth, hput⟩ := h.putAll_encode hfs
  have hkeys : ∀ field ∈ js, field.1 ≠ "type" := by
    intro field hfield htag
    exact htype (htag ▸ Fields.mem_names hjs field hfield)
  refine ⟨.obj (("type", .str tag) :: js), ?_, ?_, ?_, ?_⟩
  · rw [hencode, hjs]
    rfl
  · have hfields : isExactFields (("type", .str tag) :: js) :=
      isExactFields_cons.mpr ⟨rfl, hexact⟩
    exact hfields
  · exact Nat.succ_le_succ (Nat.max_le.mpr ⟨Nat.zero_le d, hdepth⟩)
  · intro src hsrc
    obtain ⟨inner, henter, hinner⟩ := hsrc.enter
    let v : Variant α := .of tag fs build row?
    have htag : Tagged.find variants other tag = .ok v := hfind
    have hrest : Tagged.gather variants other inner (treeFields js) (some v) =
        .ok (some v, js) := gather_tree hkeys (hinner.mono hdepth) (some v)
    have hslots : v.ofFields (treeFields js) = .ok x := by
      simp only [v, Variant.of, bind, Except.bind, hput .buffer trivial, h.row?_slotsOf, hbuild]
      rfl
    simp only [tagged, tree, treeFields, henter, bind, Except.bind, Tagged.gather, Leaf.clean,
      Tagged.readTag, htag, hrest, beq_self_eq_true, if_true]
    exact hslots

end Tagged

end ChatDialect.Json
