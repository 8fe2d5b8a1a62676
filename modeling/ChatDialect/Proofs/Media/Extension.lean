import ChatDialect.Media.Kind
import ChatDialect.Proofs.Text.Blank
import ChatDialect.Proofs.Text.Cuts

/-! What the path of a URL suggests. -/
namespace ChatDialect.Media

open Text

/-- The characters that end the path of a URL. -/
def endsPath (c : Char) : Bool := c == '?' || c == '#'

def pathOf (url : List Char) : List Char := ((splitFirst endsPath url).map Prod.fst).getD url

/-- The last segment of a path. -/
def fileOf (path : List Char) : List Char := ((splitLast (· == '/') path).map Prod.snd).getD path

def extension? (file : List Char) : Option (List Char) := (splitLast (· == '.') file).map Prod.snd

theorem ofUrl?_eq (url : String) : ofUrl? url =
    (extension? (fileOf (pathOf url.toList))).bind fun cs => ofExtension? (String.ofList cs) := by
  unfold ofUrl? pathOf fileOf extension? endsPath
  rw [Option.bind_map]
  dsimp only
  cases splitFirst (fun c => c == '?' || c == '#') url.toList with
  | none =>
    dsimp only [Option.map_none, Option.getD_none]
    cases splitLast (· == '/') url.toList <;> rfl
  | some e =>
    dsimp only [Option.map_some, Option.getD_some]
    cases splitLast (· == '/') e.1 <;> rfl

theorem pathOf_append {cs : List Char} (h : ∀ c ∈ cs, endsPath c = false) (rest : List Char) :
    pathOf (cs ++ rest) = cs ++ pathOf rest := by
  unfold pathOf
  rw [splitFirst_append, splitFirst_eq_none h]
  cases splitFirst endsPath rest <;> rfl

section Padding
variable {before after cs : List Char}

/-- Blanks behind a URL belong to its path if nothing else ends the path. -/
theorem pathOf_padded (hafter : ∀ c ∈ after, isBlank c) :
    pathOf (cs ++ after) = pathOf cs ++ if cs.any endsPath then [] else after := by
  have hends {cs : List Char} (h : ∀ c ∈ cs, endsPath c = false) : pathOf cs = cs := by
    rw [pathOf, splitFirst_eq_none h]
    rfl
  cases hany : cs.any endsPath with
  | true =>
    have hsome := isSome_splitFirst (List.any_eq_true.mp hany)
    obtain ⟨e, he⟩ := Option.isSome_iff_exists.mp hsome
    rw [if_pos rfl, List.append_nil, pathOf, pathOf, splitFirst_append, he]
    rfl
  | false =>
    have hcs : ∀ c ∈ cs, endsPath c = false := by simpa using hany
    rw [if_neg nofun, pathOf_append hcs, hends hcs,
      hends fun c hc => (apart_of_blank (hafter c hc)).1]

/-- Blanks before the last slash do not matter, and those behind it belong to the file. -/
theorem fileOf_padded (hafter : ∀ c ∈ after, isBlank c) (hslash : '/' ∈ cs) :
    fileOf (before ++ (cs ++ after)) = fileOf cs ++ after := by
  have hnone : splitLast (· == '/') after = none :=
    splitLast_eq_none fun c hc => (apart_of_blank (hafter c hc)).2.1
  have hsome : (splitLast (· == '/') cs).isSome :=
    isSome_splitLast ⟨'/', hslash, rfl⟩
  obtain ⟨e, he⟩ := Option.isSome_iff_exists.mp hsome
  unfold fileOf
  rw [splitLast_append, splitLast_append, hnone, he]
  rfl

theorem extension?_padded (hafter : ∀ c ∈ after, isBlank c) (file : List Char) :
    extension? (file ++ after) = (extension? file).map (· ++ after) := by
  have hnone : splitLast (· == '.') after = none :=
    splitLast_eq_none fun c hc => (apart_of_blank (hafter c hc)).2.2.1
  unfold extension?
  rw [splitLast_append, hnone]
  cases splitLast (· == '.') file <;> rfl

/-- No extension ends in a blank. -/
theorem ofExtension?_padded (hafter : ∀ c ∈ after, isBlank c) (hsome : after ≠ [])
    (cs : List Char) : ofExtension? (String.ofList (cs ++ after)) = none := by
  have hvisible : (extensions.all fun entry => entry.1.toList.all (!isBlank ·)) = true := by rfl
  obtain ⟨c, hc⟩ := List.exists_mem_of_ne_nil after hsome
  obtain ⟨-, -, -, hlower⟩ := apart_of_blank (hafter c hc)
  refine List.lookup_eq_none_iff.mpr ?_
  intro entry hentry
  rw [bne_iff_ne]
  intro heq
  have hmem : c ∈ entry.1.toList := by
    rw [← heq, lower, String.toList_ofList, String.toList_ofList]
    refine List.mem_map.mpr ⟨c, List.mem_append_right _ hc, hlower⟩
  have hblank := List.all_eq_true.mp (List.all_eq_true.mp hvisible entry hentry) c hmem
  rw [hafter c hc] at hblank
  cases hblank

/-- Blanks around a URL with a slash in its path do not change the type that it suggests, but for
those that end up in the extension. -/
theorem ofUrl?_padded (hbefore : ∀ c ∈ before, isBlank c) (hafter : ∀ c ∈ after, isBlank c)
    (hslash : '/' ∈ pathOf cs) :
    ofUrl? (String.ofList (before ++ (cs ++ after))) =
      if after = [] ∨ cs.any endsPath then ofUrl? (String.ofList cs) else none := by
  rw [ofUrl?_eq, ofUrl?_eq, String.toList_ofList, String.toList_ofList,
    pathOf_append fun c hc => (apart_of_blank (hbefore c hc)).1, pathOf_padded hafter]
  cases cs.any endsPath with
  | true =>
    have hnone : ∀ c ∈ ([] : List Char), isBlank c := List.forall_mem_nil _
    rw [if_pos rfl, if_pos (.inr rfl), fileOf_padded hnone hslash, List.append_nil]
  | false =>
    rw [if_neg nofun, fileOf_padded hafter hslash, extension?_padded hafter]
    by_cases hempty : after = []
    · subst hempty
      simp
    · rw [if_neg (by simp [hempty])]
      cases extension? (fileOf (pathOf cs)) with
      | none => rfl
      | some extension => exact ofExtension?_padded hafter hempty extension

end Padding

end ChatDialect.Media
