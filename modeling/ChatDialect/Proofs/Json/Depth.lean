import ChatDialect.Proofs.Json.Buffered

/-! How deep a value is. What was read as plain JSON is no deeper than what it was read from allows,
and its normal form is no deeper than the value. -/
namespace ChatDialect.Json

theorem depth_le_depthItems {items : List Json} {x : Json} (h : x ∈ items) :
    x.depth ≤ depthItems items := by
  induction items with
  | nil => cases h
  | cons y items ih =>
    rw [depthItems]
    rcases List.mem_cons.mp h with rfl | h
    · exact Nat.le_max_left _ _
    · exact Nat.le_trans (ih h) (Nat.le_max_right _ _)

theorem depthItems_le {items : List Json} {d : Nat} (h : ∀ x ∈ items, x.depth ≤ d) :
    depthItems items ≤ d := by
  induction items with
  | nil => exact Nat.zero_le d
  | cons x items ih =>
    have hx := h x List.mem_cons_self
    have hitems := ih fun x hx => h x (List.mem_cons_of_mem _ hx)
    exact Nat.max_le.mpr ⟨hx, hitems⟩

theorem depth_le_depthFields {fields : List (String × Json)} {field : String × Json}
    (h : field ∈ fields) : field.2.depth ≤ depthFields fields := by
  induction fields with
  | nil => cases h
  | cons first fields ih =>
    obtain ⟨k, x⟩ := first
    rw [depthFields]
    rcases List.mem_cons.mp h with rfl | h
    · exact Nat.le_max_left _ _
    · exact Nat.le_trans (ih h) (Nat.le_max_right _ _)

theorem depthFields_le {fields : List (String × Json)} {d : Nat}
    (h : ∀ field ∈ fields, field.2.depth ≤ d) : depthFields fields ≤ d := by
  induction fields with
  | nil => exact Nat.zero_le d
  | cons first fields ih =>
    obtain ⟨k, x⟩ := first
    have hx := h (k, x) List.mem_cons_self
    have hfields := ih fun field hfield => h field (List.mem_cons_of_mem _ hfield)
    exact Nat.max_le.mpr ⟨hx, hfields⟩

mutual
theorem depth_normalize_le : (j : Json) → j.normalize.depth ≤ j.depth
  | .null => Nat.le_refl _
  | .bool _ => Nat.le_refl _
  | .num _ => Nat.le_refl _
  | .str _ => Nat.le_refl _
  | .arr items => Nat.succ_le_succ (depthItems_le (depth_le_of_mem_items items))
  | .obj fields => by
    refine Nat.succ_le_succ (depthFields_le ?_)
    intro field hfield
    exact depth_le_of_mem_fields fields field (Keyed.mem_ofList hfield)

theorem depth_le_of_mem_items :
    (items : List Json) → ∀ x ∈ normalizeItems items, x.depth ≤ depthItems items
  | [], _, h => by cases h
  | y :: items, x, h => by
    rw [depthItems]
    rcases List.mem_cons.mp h with rfl | h
    · exact Nat.le_trans (depth_normalize_le y) (Nat.le_max_left _ _)
    · exact Nat.le_trans (depth_le_of_mem_items items x h) (Nat.le_max_right _ _)

theorem depth_le_of_mem_fields :
    (fields : List (String × Json)) →
      ∀ field ∈ normalizeFields fields, field.2.depth ≤ depthFields fields
  | [], _, h => by cases h
  | (_, y) :: fields, field, h => by
    rw [depthFields]
    rcases List.mem_cons.mp h with rfl | h
    · exact Nat.le_trans (depth_normalize_le y) (Nat.le_max_left _ _)
    · exact Nat.le_trans (depth_le_of_mem_fields fields field h) (Nat.le_max_right _ _)
end

theorem exists_of_mem_treeItems {items : List Json} {t : Tree} (h : t ∈ treeItems items) :
    ∃ x ∈ items, t = x.tree := by
  induction items with
  | nil => cases h
  | cons x items ih =>
    rcases List.mem_cons.mp h with rfl | h
    · exact ⟨x, List.mem_cons_self, rfl⟩
    · obtain ⟨y, hy, ht⟩ := ih h
      exact ⟨y, List.mem_cons_of_mem _ hy, ht⟩

theorem exists_of_mem_treeFields {fields : List (String × Json)} {entry : Leaf String × Tree}
    (h : entry ∈ treeFields fields) : ∃ field ∈ fields, entry.2 = field.2.tree := by
  induction fields with
  | nil => cases h
  | cons first fields ih =>
    obtain ⟨k, x⟩ := first
    rcases List.mem_cons.mp h with rfl | h
    · exact ⟨(k, x), List.mem_cons_self, rfl⟩
    · obtain ⟨field, hfield, ht⟩ := ih h
      exact ⟨field, List.mem_cons_of_mem _ hfield, ht⟩

/-- Reading the tree takes `d` arrays and objects one in another at most: text has no room for
more, and what is in a buffer is no deeper. -/
def Source.Bounds : Source → Tree → Nat → Prop
  | .text room, _, d => room ≤ d
  | .buffer, t, d => ∃ j : Json, t = j.tree ∧ j.depth ≤ d

namespace Source.Bounds

variable {src inner : Source} {close : Close} {d : Nat}

theorem items {items : List Tree} (h : src.Bounds (.array items close) (d + 1))
    (henter : src.enter = .ok inner) : ∀ t ∈ items, inner.Bounds t d := by
  intro t ht
  cases src with
  | text room =>
    cases room with
    | zero => cases henter
    | succ room =>
      cases henter
      exact Nat.le_of_succ_le_succ h
  | buffer =>
    cases henter
    obtain ⟨j, hj, hdepth⟩ := h
    cases j <;> cases hj
    obtain ⟨x, hx, rfl⟩ := exists_of_mem_treeItems ht
    exact ⟨x, rfl, Nat.le_trans (depth_le_depthItems hx) (Nat.le_of_succ_le_succ hdepth)⟩

theorem fields {fields : List (Leaf String × Tree)} (h : src.Bounds (.object fields close) (d + 1))
    (henter : src.enter = .ok inner) : ∀ entry ∈ fields, inner.Bounds entry.2 d := by
  intro entry hentry
  cases src with
  | text room =>
    cases room with
    | zero => cases henter
    | succ room =>
      cases henter
      exact Nat.le_of_succ_le_succ h
  | buffer =>
    cases henter
    obtain ⟨j, hj, hdepth⟩ := h
    cases j <;> cases hj
    obtain ⟨field, hfield, ht⟩ := exists_of_mem_treeFields hentry
    exact ⟨field.2, ht, Nat.le_trans (depth_le_depthFields hfield) (Nat.le_of_succ_le_succ hdepth)⟩

/-- There is no array or object without room for it. -/
theorem pos {t : Tree} (h : src.Bounds t d) (henter : src.enter = .ok inner)
    (ht : (∃ items, t = .array items close) ∨ ∃ fields, t = .object fields close) : 0 < d := by
  cases src with
  | text room =>
    cases room with
    | zero => cases henter
    | succ room => exact Nat.lt_of_lt_of_le (Nat.succ_pos room) h
  | buffer =>
    obtain ⟨j, hj, hdepth⟩ := h
    rcases ht with ⟨items, rfl⟩ | ⟨fields, rfl⟩
    · cases j <;> cases hj
      exact Nat.lt_of_lt_of_le (Nat.succ_pos _) hdepth
    · cases j <;> cases hj
      exact Nat.lt_of_lt_of_le (Nat.succ_pos _) hdepth

end Source.Bounds

mutual
theorem depth_le_of_buffer : (t : Tree) → {src : Source} → {d : Nat} → {j : Json} →
    src.Bounds t d → t.buffer src = .ok j → j.depth ≤ d
  | .missing _, _, _, _, _, h => by cases h
  | .null _, _, _, _, _, h => by
    obtain ⟨_, -, h⟩ := exists_of_bind h
    cases h
    exact Nat.zero_le _
  | .bool _ _, _, _, _, _, h => by
    obtain ⟨_, -, h⟩ := exists_of_bind h
    cases h
    exact Nat.zero_le _
  | .number _, _, _, _, _, h => by
    obtain ⟨_, -, h⟩ := exists_of_bind h
    cases h
    exact Nat.zero_le _
  | .text _, _, _, _, _, h => by
    obtain ⟨_, -, h⟩ := exists_of_bind h
    cases h
    exact Nat.zero_le _
  | .array items close, src, d, j, hbounds, h => by
    obtain ⟨inner, henter, h⟩ := exists_of_bind h
    obtain ⟨js, hjs, h⟩ := exists_of_bind h
    obtain ⟨_, -, h⟩ := exists_of_bind h
    cases h
    obtain ⟨d, rfl⟩ := Nat.exists_eq_succ_of_ne_zero
      (Nat.ne_of_gt (hbounds.pos henter (.inl ⟨items, rfl⟩)))
    exact Nat.succ_le_succ (depthItems_le_of_buffer items (hbounds.items henter) hjs)
  | .object fields close, src, d, j, hbounds, h => by
    obtain ⟨inner, henter, h⟩ := exists_of_bind h
    obtain ⟨js, hjs, h⟩ := exists_of_bind h
    obtain ⟨_, -, h⟩ := exists_of_bind h
    cases h
    obtain ⟨d, rfl⟩ := Nat.exists_eq_succ_of_ne_zero
      (Nat.ne_of_gt (hbounds.pos henter (.inr ⟨fields, rfl⟩)))
    exact Nat.succ_le_succ (depthFields_le_of_buffer fields (hbounds.fields henter) hjs)

theorem depthItems_le_of_buffer : (ts : List Tree) → {src : Source} → {d : Nat} →
    {js : List Json} → (∀ t ∈ ts, src.Bounds t d) → Tree.bufferItems src ts = .ok js →
    depthItems js ≤ d
  | [], _, _, _, _, h => by
    cases h
    exact Nat.zero_le _
  | t :: ts, _, _, _, hbounds, h => by
    obtain ⟨x, hx, h⟩ := exists_of_bind h
    obtain ⟨xs, hxs, h⟩ := exists_of_bind h
    cases h
    have hfirst := depth_le_of_buffer t (hbounds t List.mem_cons_self) hx
    have hrest := depthItems_le_of_buffer ts (fun t ht => hbounds t (List.mem_cons_of_mem _ ht)) hxs
    exact Nat.max_le.mpr ⟨hfirst, hrest⟩

theorem depthFields_le_of_buffer : (ts : List (Leaf String × Tree)) → {src : Source} → {d : Nat} →
    {js : List (String × Json)} → (∀ entry ∈ ts, src.Bounds entry.2 d) →
    Tree.bufferFields src ts = .ok js → depthFields js ≤ d
  | [], _, _, _, _, h => by
    cases h
    exact Nat.zero_le _
  | (key, t) :: ts, _, _, _, hbounds, h => by
    obtain ⟨k, -, h⟩ := exists_of_bind h
    obtain ⟨x, hx, h⟩ := exists_of_bind h
    obtain ⟨xs, hxs, h⟩ := exists_of_bind h
    cases h
    have hfirst := depth_le_of_buffer t (hbounds (key, t) List.mem_cons_self) hx
    have hrest := depthFields_le_of_buffer ts
      (fun entry hentry => hbounds entry (List.mem_cons_of_mem _ hentry)) hxs
    exact Nat.max_le.mpr ⟨hfirst, hrest⟩
end

end ChatDialect.Json
