import ChatDialect.Proofs.Json.Codec
import ChatDialect.Proofs.Json.Normal

/-! What stands under the keys of an object. Sorting an object moves its fields and changes nothing
else, and a record whose fields have one name each reads what stands under those names, in whatever
order it was written. -/
namespace ChatDialect

namespace Keyed

variable {β : Type} {entries : List (String × β)}

theorem lookup_cons (key : String) (value : β) (entries : List (String × β)) (k : String) :
    ((key, value) :: entries).lookup k = if k = key then some value else entries.lookup k := by
  rw [List.lookup_cons]
  split_ifs with hk
  · rw [beq_iff_eq.mpr hk]
  · rw [beq_false_of_ne hk]

theorem lookup_insert (key : String) (value : β) (entries : List (String × β)) (k : String) :
    (insert key value entries).lookup k = if k = key then some value else entries.lookup k := by
  induction entries with
  | nil => exact lookup_cons key value [] k
  | cons first rest ih =>
    obtain ⟨k', v⟩ := first
    rw [insert]
    by_cases hlt : key < k'
    · rw [if_pos hlt, lookup_cons]
    · rw [if_neg hlt]
      by_cases heq : key = k'
      · rw [if_pos heq, lookup_cons, lookup_cons, ← heq]
        split_ifs <;> rfl
      · rw [if_neg heq, lookup_cons, lookup_cons, ih]
        split_ifs with hk' hk
        · exact absurd (hk.symm.trans hk') heq
        · rfl
        · rfl
        · rfl

/-- Sorting keeps what stands under the keys, if no key stands twice. -/
theorem lookup_ofList (h : (entries.map Prod.fst).Nodup) (k : String) :
    (ofList entries).lookup k = entries.lookup k := by
  induction entries using List.reverseRecOn with
  | nil => rfl
  | append_singleton entries last ih =>
    obtain ⟨key, value⟩ := last
    rw [List.map_append, List.nodup_append] at h
    obtain ⟨hentries, -, hapart⟩ := h
    rw [ofList_concat, lookup_insert, ih hentries, List.lookup_append, lookup_cons]
    split_ifs with hk
    · have hnone : entries.lookup k = none := by
        refine List.lookup_eq_none_iff.mpr ?_
        intro entry hentry
        have hne := hapart entry.1 (List.mem_map_of_mem hentry) key (by simp)
        simpa [hk] using hne.symm
      rw [hnone, Option.none_or]
    · rw [List.lookup_nil, Option.or_none]

theorem Sorted.nodup (h : Sorted entries) : (entries.map Prod.fst).Nodup := by
  rw [List.nodup_iff_pairwise_ne, List.pairwise_map]
  exact h.imp fun hlt => ne_of_lt hlt

end Keyed

namespace Json

theorem lookup_normalizeFields (fields : List (String × Json)) (key : String) :
    (normalizeFields fields).lookup key = (fields.lookup key).map normalize := by
  induction fields with
  | nil => rfl
  | cons field fields ih =>
    obtain ⟨k, x⟩ := field
    rw [normalizeFields, List.lookup_cons, List.lookup_cons]
    split
    · rfl
    · exact ih

theorem keys_normalizeFields (fields : List (String × Json)) :
    (normalizeFields fields).map Prod.fst = fields.map Prod.fst := by
  induction fields with
  | nil => rfl
  | cons field fields ih => exact congrArg (field.1 :: ·) ih

theorem get?_normalize {fields : List (String × Json)} (h : (fields.map Prod.fst).Nodup)
    (key : String) : (obj fields).normalize.get? key = (fields.lookup key).map normalize := by
  change (Keyed.ofList (normalizeFields fields)).lookup key = _
  rw [Keyed.lookup_ofList (by rwa [keys_normalizeFields]), lookup_normalizeFields]

/-- The values in a value in normal form are in normal form. -/
theorem normal_of_get? {j v : Json} {key : String} (hj : j.normalize = j)
    (h : j.get? key = some v) : v.normalize = v := by
  cases j with
  | obj fields =>
    obtain ⟨k, hmem⟩ : ∃ k, (k, v) ∈ fields := by
      obtain ⟨before, after, rfl, -⟩ := List.lookup_eq_some_iff.mp h
      exact ⟨key, by simp⟩
    have hfields : Keyed.ofList (normalizeFields fields) = fields := obj.inj hj
    rw [← hfields] at hmem
    exact normal_of_mem_fields fields (k, v) (Keyed.mem_ofList hmem)
  | _ => cases h

/-- The keys of an object in normal form are distinct. -/
theorem nodup_of_normal {fields : List (String × Json)} (h : (obj fields).normalize = .obj fields) :
    (fields.map Prod.fst).Nodup := by
  have hfields : Keyed.ofList (normalizeFields fields) = fields := obj.inj h
  rw [← hfields]
  exact (Keyed.sorted_ofList _).nodup

mutual
/-- Text without faults is passed over. -/
theorem skip_tree : (j : Json) → j.tree.skip = .ok ()
  | .null => rfl
  | .bool _ => rfl
  | .num _ => rfl
  | .str _ => rfl
  | .arr items => by
    rw [tree, Tree.skip, skipItems_tree items]
    rfl
  | .obj fields => by
    rw [tree, Tree.skip, skipFields_tree fields]
    rfl

theorem skipItems_tree : (items : List Json) → Tree.skipItems (treeItems items) = .ok ()
  | [] => rfl
  | x :: items => by
    rw [treeItems, Tree.skipItems, skip_tree x, skipItems_tree items]
    rfl

theorem skipFields_tree : (fields : List (String × Json)) →
    Tree.skipFields (treeFields fields) = .ok ()
  | [] => rfl
  | (k, x) :: fields => by
    rw [treeFields, Tree.skipFields, skip_tree x, skipFields_tree fields]
    rfl
end

/-- The value of a field, given what is in its slot and what stands under its name: a full slot
takes no value. -/
def Field.under? {α : Type} (f : Field α) : Option α → Option Json → Option α
  | none, none => f.absent
  | none, some j => f.codec.ofJson? j
  | some x, none => some x
  | some _, some _ => none

namespace Fields

variable {ρ σ : Type} {fs : Fields ρ σ} {key : String} {x : Json} {fields : List (String × Json)}

/-- Every field has one name only. -/
def plain : {ρ σ : Type} → Fields ρ σ → Bool
  | _, _, .nil => true
  | _, _, .cons f rest => f.aliases.isEmpty && rest.plain

/-- The row that slots and the values under the names of their fields give together. -/
def rowUnder? (get : String → Option Json) : {ρ σ : Type} → Fields ρ σ → σ → Option ρ
  | _, _, .nil, _ => some ()
  | _, _, .cons f rest, (slot, slots) => do
    let x ← f.under? slot (get f.name)
    let r ← rest.rowUnder? get slots
    return (x, r)

theorem rowUnder?_congr {get get' : String → Option Json} (slots : σ)
    (h : ∀ name ∈ fs.names, get name = get' name) :
    fs.rowUnder? get slots = fs.rowUnder? get' slots := by
  induction fs with
  | nil => rfl
  | cons f rest ih =>
    obtain ⟨slot, slots⟩ := slots
    have hfirst : get f.name = get' f.name := h f.name List.mem_cons_self
    have hrest := ih slots fun name hname => h name (List.mem_cons_of_mem _ hname)
    rw [rowUnder?, rowUnder?, hfirst, hrest]

theorem rowUnder?_nil (slots : σ) :
    fs.rowUnder? (List.lookup · ([] : List (String × Json))) slots = fs.row? slots := by
  induction fs with
  | nil => rfl
  | cons f rest ih =>
    obtain ⟨slot, slots⟩ := slots
    rw [rowUnder?, row?, ih]
    cases slot <;> rfl

theorem answersTo_of_plain {α : Type} {f : Field α} (h : f.aliases.isEmpty) (key : String) :
    f.answersTo key = (f.name == key) := by
  rw [Field.answersTo, List.isEmpty_iff.mp h, List.contains_nil, Bool.or_false]

/-- One more value goes to the field with its name. -/
theorem rowUnder?_cons (hplain : fs.plain) (hfs : fs.distinct) (slots : σ)
    (hkey : fields.lookup key = none) :
    fs.rowUnder? (List.lookup · ((key, x) :: fields)) slots =
      match fs.put .buffer key x.tree slots with
      | none => fs.rowUnder? (List.lookup · fields) slots
      | some result => result.toOption.bind (fs.rowUnder? (List.lookup · fields)) := by
  induction fs with
  | nil => rfl
  | cons f rest ih =>
    obtain ⟨slot, slots⟩ := slots
    rw [plain, Bool.and_eq_true] at hplain
    rw [distinct, Bool.and_eq_true] at hfs
    obtain ⟨hf, hplain⟩ := hplain
    obtain ⟨hapart, hfs⟩ := hfs
    have hanswers := answersTo_of_plain hf
    unfold put
    rw [rowUnder?, hanswers, List.lookup_cons]
    by_cases hname : f.name = key
    · -- the names of the other fields are not affected
      have hothers : rest.rowUnder? (List.lookup · ((key, x) :: fields)) slots =
          rest.rowUnder? (List.lookup · fields) slots := by
        refine rowUnder?_congr slots ?_
        intro name hmem
        have hne : f.answersTo name = false := by
          simpa using List.all_eq_true.mp hapart name hmem
        rw [hanswers, hname] at hne
        rw [List.lookup_cons, beq_false_of_ne fun h => ne_of_beq_false hne h.symm]
      rw [hothers, hname, beq_self_eq_true, if_pos rfl]
      cases slot with
      | some y => rfl
      | none =>
        cases hx : f.codec.decode .buffer x.tree with
        | error e =>
          have hnone : f.under? none (some x) = none := congrArg Except.toOption hx
          rw [hnone]
          rfl
        | ok y =>
          have hsome : f.under? none (some x) = some y := congrArg Except.toOption hx
          change _ = (cons f rest).rowUnder? (List.lookup · fields) (some y, slots)
          rw [hsome, rowUnder?, hname, hkey]
          rfl
    · rw [beq_false_of_ne hname, if_neg Bool.false_ne_true, ih hplain hfs slots]
      cases rest.put .buffer key x.tree slots with
      | none => rfl
      | some result =>
        cases result with
        | error e =>
          simp only [Except.toOption, Option.bind, bind]
          split <;> rfl
        | ok slots => rfl

theorem putAll_tree (hplain : fs.plain) (hfs : fs.distinct) (slots : σ)
    (hkeys : (fields.map Prod.fst).Nodup) :
    (fs.putAll .buffer (treeFields fields) slots).toOption.bind fs.row? =
      fs.rowUnder? (List.lookup · fields) slots := by
  induction fields generalizing slots with
  | nil => exact (rowUnder?_nil slots).symm
  | cons field fields ih =>
    obtain ⟨key, x⟩ := field
    obtain ⟨hkey, hkeys⟩ := List.nodup_cons.mp hkeys
    have hnone : fields.lookup key = none := by
      refine List.lookup_eq_none_iff.mpr ?_
      intro entry hentry
      have hmem := List.mem_map_of_mem hentry (f := Prod.fst)
      have hne : key ≠ entry.1 := fun h => hkey (h ▸ hmem)
      simpa using hne
    rw [rowUnder?_cons hplain hfs slots hnone]
    simp only [treeFields, putAll, Leaf.clean, bind, Except.bind]
    cases fs.put .buffer key x.tree slots with
    | none =>
      simp only [skip_tree]
      exact ih slots hkeys
    | some result =>
      cases result with
      | error e => rfl
      | ok slots => exact ih slots hkeys

end Fields

/-- A record reads what stands under the names of its fields. -/
theorem Codec.record_ofJson? {α ρ σ : Type} {fs : Fields ρ σ} {build : ρ → α} {row : α → ρ}
    (hplain : fs.plain) (hfs : fs.distinct) {fields : List (String × Json)}
    (hkeys : (fields.map Prod.fst).Nodup) :
    (Codec.record fs build row).ofJson? (.obj fields) =
      (fs.rowUnder? (List.lookup · fields) fs.empty).map build := by
  rw [← Fields.putAll_tree hplain hfs fs.empty hkeys]
  simp only [ofJson?, record, tree, Source.enter, bind, Except.bind, Close.fault?, check]
  cases fs.putAll .buffer (treeFields fields) fs.empty with
  | error e => rfl
  | ok slots =>
    simp only [Except.toOption, Option.bind]
    cases fs.row? slots <;> rfl

/-- What is read does not depend on the order of fields. -/
def Codec.Unordered {α : Type} (c : Codec α) : Prop := ∀ j, c.ofJson? j.normalize = c.ofJson? j

theorem Codec.string_unordered : string.Unordered := by
  intro j
  cases j <;> rfl

theorem Codec.option_unordered {α : Type} {c : Codec α} (h : c.Unordered) :
    c.option.Unordered := by
  have hsome (j : Json) (hj : j ≠ .null) : c.option.ofJson? j = (c.ofJson? j).map some := by
    have hdecode : c.option.decode .buffer j.tree = (c.decode .buffer j.tree).map some := by
      cases j with
      | null => exact absurd rfl hj
      | _ => rfl
    rw [ofJson?, ofJson?, hdecode]
    cases c.decode .buffer j.tree <;> rfl
  intro j
  by_cases hj : j = .null
  · rw [hj]
    rfl
  · have hnormal : j.normalize ≠ .null := by
      cases j <;> first | exact absurd rfl hj | exact nofun
    rw [hsome j hj, hsome j.normalize hnormal, h j]

/-- No field depends on the order of the fields in its value. -/
def Fields.Unordered : {ρ σ : Type} → Fields ρ σ → Prop
  | _, _, .nil => True
  | _, _, .cons f rest => f.codec.Unordered ∧ rest.Unordered

theorem Fields.Unordered.rowUnder? {ρ σ : Type} {fs : Fields ρ σ} (h : fs.Unordered)
    (get : String → Option Json) (slots : σ) :
    fs.rowUnder? (fun name => (get name).map normalize) slots = fs.rowUnder? get slots := by
  induction fs with
  | nil => rfl
  | cons f rest ih =>
    obtain ⟨slot, slots⟩ := slots
    obtain ⟨hf, hrest⟩ := h
    rw [Fields.rowUnder?, Fields.rowUnder?, ih hrest slots]
    cases get f.name with
    | none => rfl
    | some j =>
      cases slot with
      | none => simp only [Option.map_some, Field.under?, hf j]
      | some x => rfl

/-- A record reads the same from an object and from its normal form. -/
theorem Codec.record_ofJson?_normalize {α ρ σ : Type} {fs : Fields ρ σ} {build : ρ → α}
    {row : α → ρ} (hplain : fs.plain) (hfs : fs.distinct) (hunordered : fs.Unordered)
    {fields : List (String × Json)} (hkeys : (fields.map Prod.fst).Nodup) :
    (Codec.record fs build row).ofJson? (Json.obj fields).normalize =
      (Codec.record fs build row).ofJson? (.obj fields) := by
  have hsorted := Keyed.sorted_ofList (normalizeFields fields)
  have hget : (List.lookup · (Keyed.ofList (normalizeFields fields))) =
      fun name => (fields.lookup name).map normalize := funext (get?_normalize hkeys)
  rw [normalize, record_ofJson? hplain hfs hsorted.nodup, record_ofJson? hplain hfs hkeys, hget,
    hunordered.rowUnder?]

theorem Fields.keys_encode {ρ σ : Type} {fs : Fields ρ σ} {r : ρ} {js : List (String × Json)}
    (h : fs.encode r = some js) : (js.map Prod.fst).Sublist fs.names := by
  induction fs generalizing js with
  | nil =>
    cases h
    exact .slnil
  | cons f rest ih =>
    obtain ⟨x, r⟩ := r
    rw [encode] at h
    split at h
    · exact (ih h).cons f.name
    · obtain ⟨j, -, h⟩ := Option.bind_eq_some_iff.mp h
      obtain ⟨js', hjs, h⟩ := Option.bind_eq_some_iff.mp h
      cases h
      exact (ih hjs).cons_cons f.name

theorem Fields.nodup_names {ρ σ : Type} {fs : Fields ρ σ} (h : fs.distinct) :
    fs.names.Nodup := by
  induction fs with
  | nil => exact .nil
  | cons f rest ih =>
    rw [distinct, Bool.and_eq_true] at h
    obtain ⟨hapart, hrest⟩ := h
    refine List.nodup_cons.mpr ⟨?_, ih hrest⟩
    intro hname
    have hself := List.all_eq_true.mp hapart f.name hname
    simp [Field.answersTo] at hself

/-- What is written of a record is also read after its fields were sorted. -/
theorem Codec.Faithful.normalized {α ρ σ : Type} {fs : Fields ρ σ} {build : ρ → α} {row : α → ρ}
    {d : Nat} {x : α} (h : (Codec.record fs build row).Faithful d x) (hplain : fs.plain)
    (hfs : fs.distinct) (hunordered : fs.Unordered) :
    ∃ fields, (Codec.record fs build row).encode x = some (.obj fields) ∧ isExactFields fields ∧
      (Json.obj fields).depth ≤ d ∧
      (Codec.record fs build row).ofJson? (Json.obj fields).normalize = some x := by
  obtain ⟨j, hencode, hexact, hdepth, hdecode⟩ := h
  obtain ⟨fields, hfields, hj⟩ := Option.bind_eq_some_iff.mp hencode
  cases hj
  have hkeys := (Fields.keys_encode hfields).nodup (Fields.nodup_names hfs)
  refine ⟨fields, hencode, hexact, hdepth, ?_⟩
  rw [record_ofJson?_normalize hplain hfs hunordered hkeys, ofJson?, hdecode .buffer trivial]
  rfl

end Json
end ChatDialect
