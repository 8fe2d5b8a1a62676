import Mathlib.Data.List.Induction
import Mathlib.Data.String.Basic
import ChatDialect.Json.Basic

/-! Normal forms are in normal form: entries that are sorted stay as they are when they are sorted
again. -/
namespace ChatDialect

namespace Keyed

variable {β : Type} {key : String} {value : β} {entries : List (String × β)}

theorem mem_insert {entry : String × β} (h : entry ∈ insert key value entries) :
    entry = (key, value) ∨ entry ∈ entries := by
  induction entries with
  | nil => exact .inl (List.mem_singleton.mp h)
  | cons first rest ih =>
    obtain ⟨k, v⟩ := first
    rw [insert] at h
    split_ifs at h with hlt heq
    · exact List.mem_cons.mp h
    · rcases List.mem_cons.mp h with h | h
      · exact .inl h
      · exact .inr (List.mem_cons_of_mem _ h)
    · rcases List.mem_cons.mp h with rfl | h
      · exact .inr List.mem_cons_self
      · exact (ih h).imp_right (List.mem_cons_of_mem _)

theorem Sorted.insert (h : Sorted entries) : Sorted (insert key value entries) := by
  induction entries with
  | nil => exact List.pairwise_singleton _ _
  | cons first rest ih =>
    obtain ⟨k, v⟩ := first
    obtain ⟨hfirst, hrest⟩ := List.pairwise_cons.mp h
    rw [Keyed.insert]
    split_ifs with hlt heq
    · refine List.pairwise_cons.mpr ⟨?_, h⟩
      intro entry hentry
      rcases List.mem_cons.mp hentry with rfl | hentry
      · exact hlt
      · exact lt_trans hlt (hfirst entry hentry)
    · refine List.pairwise_cons.mpr ⟨?_, hrest⟩
      rw [heq]
      exact hfirst
    · refine List.pairwise_cons.mpr ⟨?_, ih hrest⟩
      intro entry hentry
      rcases mem_insert hentry with rfl | hentry
      · exact lt_of_le_of_ne (not_lt.mp hlt) (Ne.symm heq)
      · exact hfirst entry hentry

/-- An entry under a key behind all others goes to the end. -/
theorem insert_of_lt (h : ∀ entry ∈ entries, entry.1 < key) :
    insert key value entries = entries ++ [(key, value)] := by
  induction entries with
  | nil => rfl
  | cons first rest ih =>
    have hfirst : first.1 < key := h first List.mem_cons_self
    rw [insert, if_neg (not_lt_of_gt hfirst), if_neg (ne_of_gt hfirst),
      ih fun entry hentry => h entry (List.mem_cons_of_mem _ hentry)]
    rfl

theorem ofList_concat (entry : String × β) :
    ofList (entries ++ [entry]) = insert entry.1 entry.2 (ofList entries) := by
  simp [ofList]

theorem mem_ofList {entry : String × β} (h : entry ∈ ofList entries) : entry ∈ entries := by
  induction entries using List.reverseRecOn with
  | nil => exact h
  | append_singleton entries last ih =>
    rw [ofList_concat] at h
    rw [List.mem_append, List.mem_singleton]
    exact (mem_insert h).symm.imp_left ih

theorem sorted_ofList (entries : List (String × β)) : Sorted (ofList entries) := by
  induction entries using List.reverseRecOn with
  | nil => exact .nil
  | append_singleton entries last ih =>
    rw [ofList_concat]
    exact ih.insert

theorem Sorted.ofList_eq (h : Sorted entries) : ofList entries = entries := by
  induction entries using List.reverseRecOn with
  | nil => rfl
  | append_singleton entries last ih =>
    obtain ⟨hentries, -, hlast⟩ := List.pairwise_append.mp h
    rw [ofList_concat, ih hentries,
      insert_of_lt fun entry hentry => hlast entry hentry last (List.mem_singleton_self last)]

end Keyed

namespace Json

theorem normalizeItems_of_normal {items : List Json} (h : ∀ x ∈ items, x.normalize = x) :
    normalizeItems items = items := by
  induction items with
  | nil => rfl
  | cons x items ih =>
    rw [normalizeItems, h x List.mem_cons_self, ih fun x hx => h x (List.mem_cons_of_mem _ hx)]

theorem normalizeFields_of_normal {fields : List (String × Json)}
    (h : ∀ field ∈ fields, field.2.normalize = field.2) : normalizeFields fields = fields := by
  induction fields with
  | nil => rfl
  | cons field fields ih =>
    rw [normalizeFields, h field List.mem_cons_self,
      ih fun field hfield => h field (List.mem_cons_of_mem _ hfield)]

theorem normalizeItems_append (xs ys : List Json) :
    normalizeItems (xs ++ ys) = normalizeItems xs ++ normalizeItems ys := by
  induction xs with
  | nil => rfl
  | cons x xs ih => rw [List.cons_append, normalizeItems, normalizeItems, ih, List.cons_append]

mutual
theorem normalize_normalize : (j : Json) → j.normalize.normalize = j.normalize
  | .null => rfl
  | .bool _ => rfl
  | .num _ => rfl
  | .str _ => rfl
  | .arr items => by
    rw [normalize, normalize, normalizeItems_of_normal (normal_of_mem_items items)]
  | .obj fields => by
    have hfields : ∀ field ∈ Keyed.ofList (normalizeFields fields), field.2.normalize = field.2 :=
      fun field hfield => normal_of_mem_fields fields field (Keyed.mem_ofList hfield)
    rw [normalize, normalize, normalizeFields_of_normal hfields,
      (Keyed.sorted_ofList _).ofList_eq]

theorem normal_of_mem_items : (items : List Json) → ∀ x ∈ normalizeItems items, x.normalize = x
  | [], _, h => by cases h
  | x :: items, y, h => by
    rcases List.mem_cons.mp h with rfl | h
    · exact normalize_normalize x
    · exact normal_of_mem_items items y h

theorem normal_of_mem_fields :
    (fields : List (String × Json)) → ∀ field ∈ normalizeFields fields,
      field.2.normalize = field.2
  | [], _, h => by cases h
  | (_, x) :: fields, field, h => by
    rcases List.mem_cons.mp h with rfl | h
    · exact normalize_normalize x
    · exact normal_of_mem_fields fields field h
end

end Json
end ChatDialect
