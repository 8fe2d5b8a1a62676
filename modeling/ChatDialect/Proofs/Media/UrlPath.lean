import ChatDialect.Proofs.Media.Extension

/-! Which part of a URL suggests a type: the last segment of its path, whatever the other parts are.
Where there is no path at all the authority passes for that segment. -/
namespace ChatDialect.Media

open Text

/-- A URL by its parts. The path is empty or begins with a slash. -/
structure Url where
  scheme : List Char
  authority : List Char
  path : List Char
  query : Option (List Char)
  fragment : Option (List Char)
  scheme_plain : scheme.all (!endsPath ·)
  authority_plain : authority.all fun c => !endsPath c && c != '/'
  path_plain : path.all (!endsPath ·)
  path_rooted : path.head?.all (· == '/')

/-- A part behind its mark, if it is there. -/
def marked (mark : Char) (part : Option (List Char)) : List Char :=
  (part.map (mark :: ·)).getD []

namespace Url

/-- What stands before the query. -/
def place (u : Url) : List Char := u.scheme ++ ':' :: '/' :: '/' :: (u.authority ++ u.path)

def text (u : Url) : String :=
  String.ofList (u.place ++ (marked '?' u.query ++ marked '#' u.fragment))

end Url

/-- A name ends in a dot and this extension. -/
def NameExtends (name extension : List Char) : Prop :=
  ∃ stem, name = stem ++ '.' :: extension ∧ '.' ∉ extension

/-- The last segment of a path ends in a dot and this extension. -/
def PathExtends (path extension : List Char) : Prop :=
  ∃ folder name, path = folder ++ '/' :: name ∧ '/' ∉ name ∧ NameExtends name extension

/-- The table has this type for an extension, whatever the case of its letters. -/
def ExtensionSuggests (extension : List Char) (type : String) : Prop :=
  extensions.lookup (String.ofList (extension.map Char.toLower)) = some type

theorem ofExtension?_eq_some {extension : List Char} {type : String} :
    ofExtension? (String.ofList extension) = some type ↔ ExtensionSuggests extension type := by
  rw [ofExtension?, lower, String.toList_ofList]
  rfl

theorem extension?_eq_some {name extension : List Char} :
    extension? name = some extension ↔ NameExtends name extension := by
  rw [extension?, Option.map_eq_some_iff]
  constructor
  · rintro ⟨⟨stem, _⟩, hsplit, rfl⟩
    exact ⟨stem, splitLast_mark.mp hsplit⟩
  · rintro ⟨stem, hname⟩
    exact ⟨(stem, extension), splitLast_mark.mpr hname, rfl⟩

theorem fileOf_behind {name : List Char} (h : '/' ∉ name) (folder : List Char) :
    fileOf (folder ++ '/' :: name) = name := by
  rw [fileOf, splitLast_mark.mpr ⟨rfl, h⟩]
  rfl

theorem pathExtends_iff {path extension : List Char} (h : '/' ∈ path) :
    PathExtends path extension ↔ NameExtends (fileOf path) extension := by
  constructor
  · rintro ⟨folder, name, rfl, hslash, hname⟩
    rwa [fileOf_behind hslash]
  · intro hname
    have hsome := isSome_splitLast (p := (· == '/')) ⟨'/', h, rfl⟩
    obtain ⟨⟨folder, name⟩, hsplit⟩ := Option.isSome_iff_exists.mp hsome
    obtain ⟨hpath, hslash⟩ := splitLast_mark.mp hsplit
    rw [hpath, fileOf_behind hslash] at hname
    exact ⟨folder, name, hpath, hslash, hname⟩

theorem fileOf_append (before : List Char) {path : List Char} (h : '/' ∈ path) :
    fileOf (before ++ path) = fileOf path := by
  have hpadded : fileOf (before ++ (path ++ [])) = fileOf path ++ [] := fileOf_padded nofun h
  rwa [List.append_nil, List.append_nil] at hpadded

namespace Url

section Parts
variable (u : Url)

theorem slash_mem_path (h : u.path ≠ []) : '/' ∈ u.path := by
  obtain ⟨c, rest, hpath⟩ := List.exists_cons_of_ne_nil h
  have hrooted := u.path_rooted
  rw [hpath] at hrooted ⊢
  obtain rfl : c = '/' := by simpa using hrooted
  exact List.mem_cons_self

theorem slash_not_mem_authority : '/' ∉ u.authority := by
  intro hslash
  have hplain := List.all_eq_true.mp u.authority_plain '/' hslash
  exact absurd hplain (by decide)

theorem place_plain : ∀ c ∈ u.place, endsPath c = false := by
  have hscheme : ∀ c ∈ u.scheme, endsPath c = false := by simpa using u.scheme_plain
  have hauthority : ∀ c ∈ u.authority, endsPath c = false ∧ c ≠ '/' := by
    simpa using u.authority_plain
  have hpath : ∀ c ∈ u.path, endsPath c = false := by simpa using u.path_plain
  intro c hc
  simp only [place, List.mem_append, List.mem_cons] at hc
  rcases hc with hc | rfl | rfl | rfl | hc | hc
  · exact hscheme c hc
  · rfl
  · rfl
  · rfl
  · exact (hauthority c hc).1
  · exact hpath c hc

theorem pathOf_text : pathOf u.text.toList = u.place := by
  have hrest : pathOf (marked '?' u.query ++ marked '#' u.fragment) = [] := by
    cases u.query with
    | some query => rfl
    | none => cases u.fragment <;> rfl
  rw [text, String.toList_ofList, pathOf_append u.place_plain, hrest, List.append_nil]

/-- The name that is looked at. -/
theorem fileOf_place : fileOf u.place = if u.path = [] then u.authority else fileOf u.path := by
  split_ifs with hpath
  · have hplace : u.place = (u.scheme ++ [':', '/']) ++ '/' :: u.authority := by
      simp [place, hpath]
    rw [hplace, fileOf_behind u.slash_not_mem_authority]
  · have hplace : u.place = (u.scheme ++ ':' :: '/' :: '/' :: u.authority) ++ u.path := by
      simp [place]
    rw [hplace, fileOf_append _ (u.slash_mem_path hpath)]

theorem ofUrl?_text : ofUrl? u.text =
    (extension? (if u.path = [] then u.authority else fileOf u.path)).bind fun cs =>
      ofExtension? (String.ofList cs) := by
  rw [ofUrl?_eq, pathOf_text, fileOf_place]

/-- The table has this type for the extension of the last segment of the path. -/
def PathSuggests (type : String) : Prop :=
  ∃ extension, PathExtends u.path extension ∧ ExtensionSuggests extension type

/-- The table has this type for what stands behind the last dot of the authority. -/
def AuthoritySuggests (type : String) : Prop :=
  ∃ extension, NameExtends u.authority extension ∧ ExtensionSuggests extension type

theorem not_pathSuggests (h : u.path = []) (type : String) : ¬ u.PathSuggests type := by
  rintro ⟨_, ⟨folder, name, hpath, -⟩, -⟩
  rw [h] at hpath
  simp at hpath

theorem ofUrl?_of_path (h : u.path ≠ []) {type : String} :
    ofUrl? u.text = some type ↔ u.PathSuggests type := by
  rw [ofUrl?_text, if_neg h, Option.bind_eq_some_iff, PathSuggests]
  simp only [extension?_eq_some, ofExtension?_eq_some, pathExtends_iff (u.slash_mem_path h)]

theorem ofUrl?_of_no_path (h : u.path = []) {type : String} :
    ofUrl? u.text = some type ↔ u.AuthoritySuggests type := by
  rw [ofUrl?_text, if_pos h, Option.bind_eq_some_iff, AuthoritySuggests]
  simp only [extension?_eq_some, ofExtension?_eq_some]

end Parts

/-- A URL suggests what its path does, if and only if it is not one without a path whose authority
ends in a known extension; there the authority makes the type. Neither the query nor the fragment
makes a difference, and next to a path the authority makes none. -/
theorem suggestion_iff (u : Url) :
    ((∀ type, ofUrl? u.text = some type ↔ u.PathSuggests type) ↔
      ¬ (u.path = [] ∧ ∃ type, u.AuthoritySuggests type)) ∧
    (u.path = [] → ∀ type, ofUrl? u.text = some type ↔ u.AuthoritySuggests type) ∧
    ∀ u' : Url, u'.path = u.path → (u.path = [] → u'.authority = u.authority) →
      ofUrl? u'.text = ofUrl? u.text := by
  refine ⟨⟨?_, ?_⟩, fun hpath _ => u.ofUrl?_of_no_path hpath, ?_⟩
  · rintro hsuggests ⟨hpath, type, htype⟩
    have hgiven := (hsuggests type).mp ((u.ofUrl?_of_no_path hpath).mpr htype)
    exact u.not_pathSuggests hpath type hgiven
  · intro hnone type
    by_cases hpath : u.path = []
    · refine iff_of_false ?_ (u.not_pathSuggests hpath type)
      intro htype
      exact hnone ⟨hpath, type, (u.ofUrl?_of_no_path hpath).mp htype⟩
    · exact u.ofUrl?_of_path hpath
  · intro u' hpath hauthority
    rw [ofUrl?_text, ofUrl?_text, hpath]
    split_ifs with hempty
    · rw [hauthority hempty]
    · rfl

/-- The front page of a site in Moldova. -/
def frontPage : Url where
  scheme := "https".toList
  authority := "x.md".toList
  path := []
  query := none
  fragment := none
  scheme_plain := by decide
  authority_plain := by decide
  path_plain := by decide
  path_rooted := by decide

/-- The same page with a slash for its path, and a query. -/
def rootedFrontPage : Url where
  scheme := "https".toList
  authority := "x.md".toList
  path := ['/']
  query := some "next=/a.png".toList
  fragment := none
  scheme_plain := by decide
  authority_plain := by decide
  path_plain := by decide
  path_rooted := by decide

theorem frontPage_suggestion :
    (frontPage.path = [] ∧ frontPage.AuthoritySuggests "text/markdown") ∧
    (¬ ∀ type, ofUrl? frontPage.text = some type ↔ frontPage.PathSuggests type) ∧
    ofUrl? frontPage.text = some "text/markdown" ∧
    ofUrl? { rootedFrontPage with query := none }.text = ofUrl? rootedFrontPage.text := by
  have hsuggests : frontPage.AuthoritySuggests "text/markdown" :=
    ⟨"md".toList, ⟨['x'], by decide, by decide⟩, rfl⟩
  obtain ⟨hiff, hauthority, -⟩ := suggestion_iff frontPage
  obtain ⟨-, -, hsame⟩ := suggestion_iff rootedFrontPage
  refine ⟨⟨rfl, hsuggests⟩, ?_, (hauthority rfl _).mpr hsuggests, hsame _ rfl fun _ => rfl⟩
  intro hpath
  exact hiff.mp hpath ⟨rfl, _, hsuggests⟩

/-- Its URL suggests a type although it has no path. -/
theorem frontPage_typed :
    frontPage.text = "https://x.md" ∧ frontPage.path = [] ∧
      (¬ ∃ type, frontPage.PathSuggests type) ∧
      ofUrl? "https://x.md" = some "text/markdown" := by
  refine ⟨by decide, rfl, ?_, by decide⟩
  rintro ⟨type, htype⟩
  exact frontPage.not_pathSuggests rfl type htype

end Url
end ChatDialect.Media
