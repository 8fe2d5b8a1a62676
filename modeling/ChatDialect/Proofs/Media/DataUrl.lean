import ChatDialect.Media.Url
import ChatDialect.Proofs.Text.Blank
import ChatDialect.Proofs.Text.Cuts
import ChatDialect.Proofs.Text.Utf8

/-! The grammar of data URLs, and where a URL leads. A URL is told by what it begins with, whatever
the case of its letters, and its first characters show in its first bytes. -/
namespace ChatDialect

namespace Text

/-- The text is the word, whatever the case of its letters and with blanks around it. -/
def Names (word cs : List Char) : Prop :=
  ∃ before middle after, cs = before ++ (middle ++ after) ∧ (∀ c ∈ before, isBlank c) ∧
    (∀ c ∈ after, isBlank c) ∧ middle.map Char.toLower = word

/-- A word without blanks is named if trimming leaves it. -/
theorem names_iff {word cs : List Char} (hword : ∀ c ∈ word, isBlank c = false) :
    Names word cs ↔ (trimChars cs).map Char.toLower = word := by
  constructor
  · rintro ⟨before, middle, after, rfl, hbefore, hafter, hmiddle⟩
    rw [trimChars_around hbefore hafter, hmiddle]
    intro c hc
    cases hblank : isBlank c with
    | false => rfl
    | true =>
      obtain ⟨-, -, -, hlower⟩ := apart_of_blank hblank
      have hmem : c ∈ word := by
        rw [← hmiddle, ← hlower]
        exact List.mem_map_of_mem hc
      rw [hword c hmem] at hblank
      cases hblank
  · intro h
    obtain ⟨before, after, hcs, hbefore, hafter⟩ := exists_padding cs
    exact ⟨before, trimChars cs, after, hcs, hbefore, hafter, h⟩

end Text

namespace Media

open Text

/-- A data URL by its parts. The header is a type and parameters, one of them the base64 mark. -/
structure DataUrl.Parts where
  scheme : List Char
  kind : List Char
  params : List (List Char)
  data : List Char
  scheme_data : scheme.map Char.toLower = "data:".toList
  header_plain : ',' ∉ [';'].intercalate (kind :: params)
  segments_plain : ∀ segment ∈ kind :: params, ';' ∉ segment
  marked : ∃ param ∈ params, Names "base64".toList param

namespace DataUrl

def Parts.header (p : Parts) : List Char := [';'].intercalate (p.kind :: p.params)

def Parts.text (p : Parts) : String := String.ofList (p.scheme ++ (p.header ++ ',' :: p.data))

/-- The type, which is not always given, and all that stands behind the first comma. -/
def Parts.value (p : Parts) : DataUrl :=
  let type := trim (String.ofList p.kind)
  { mimeType := if type = "" then "application/octet-stream" else type
    data := String.ofList p.data }

theorem isBase64Mark_iff {cs : List Char} : isBase64Mark cs ↔ Names "base64".toList cs := by
  have hplain : ∀ c ∈ "base64".toList, isBlank c = false := by simp [isBlank]
  rw [names_iff hplain, isBase64Mark, beq_iff_eq]
  rfl

theorem typeOf_kind (kind : List Char) :
    (if (trimChars kind).isEmpty then octetStream else String.ofList (trimChars kind)) =
      if trim (String.ofList kind) = "" then "application/octet-stream"
      else trim (String.ofList kind) := by
  rw [trim, String.toList_ofList, octetStream]
  simp only [List.isEmpty_iff, String.ofList_eq_empty_iff]

/-- What is read as a data URL has the parts of one. -/
theorem exists_parts {cs : List Char} {d : DataUrl} (h : parse? cs = some d) :
    ∃ p : Parts, p.text = String.ofList cs ∧ p.value = d := by
  obtain ⟨rest, hrest, hbody⟩ := Option.bind_eq_some_iff.mp h
  obtain ⟨⟨header, data⟩, hcut, hread⟩ := Option.bind_eq_some_iff.mp hbody
  obtain ⟨scheme, hcs, hscheme⟩ := afterIgnoringCase?_eq_some.mp hrest
  obtain ⟨hbehind, hheader⟩ := splitFirst_mark.mp hcut
  cases hsegments : splitAll (· == ';') header with
  | nil =>
    simp only [hsegments] at hread
    cases hread
  | cons kind params =>
    obtain ⟨-, hplain, hjoined⟩ := splitAll_mark.mp hsegments
    simp only [hsegments] at hread
    split at hread
    · next hmark =>
      obtain ⟨param, hparam, hnames⟩ := List.any_eq_true.mp hmark
      rw [hjoined] at hheader
      refine ⟨⟨scheme, kind, params, data, hscheme, hheader, hplain,
        ⟨param, hparam, isBase64Mark_iff.mp hnames⟩⟩, ?_, ?_⟩
      · rw [hcs, hbehind, hjoined]
        rfl
      · rw [← Option.some.inj hread, typeOf_kind]
        rfl
    · cases hread

theorem parse?_text (p : Parts) : parse? p.text.toList = some p.value := by
  obtain ⟨scheme, kind, params, data, hscheme, hheader, hplain, param, hparam, hnames⟩ := p
  let header := [';'].intercalate (kind :: params)
  have hrest : afterIgnoringCase? dataScheme (scheme ++ (header ++ ',' :: data)) =
      some (header ++ ',' :: data) := afterIgnoringCase?_eq_some.mpr ⟨scheme, rfl, hscheme⟩
  have hcut : splitFirst (· == ',') (header ++ ',' :: data) = some (header, data) :=
    splitFirst_mark.mpr ⟨rfl, hheader⟩
  have hsegments : splitAll (· == ';') header = kind :: params :=
    splitAll_mark.mpr ⟨List.cons_ne_nil _ _, hplain, rfl⟩
  have hmark : params.any isBase64Mark :=
    List.any_eq_true.mpr ⟨param, hparam, isBase64Mark_iff.mpr hnames⟩
  have hread : parse? (scheme ++ (header ++ ',' :: data)) = some
      { mimeType := if (trimChars kind).isEmpty then octetStream else String.ofList (trimChars kind)
        data := String.ofList data } := by
    simp only [parse?, bind, Option.bind, hrest, hcut, hsegments, hmark, if_true]
  rw [Parts.text, String.toList_ofList]
  exact hread.trans
    (congrArg (fun type => some (DataUrl.mk type (String.ofList data))) (typeOf_kind kind))

/-- A text is read as a data URL if and only if it has the parts of one. -/
theorem parse?_eq_some {url : String} {d : DataUrl} :
    parse? url.toList = some d ↔ ∃ p : Parts, p.text = url ∧ p.value = d := by
  constructor
  · intro h
    have hparts := exists_parts h
    rwa [String.ofList_toList] at hparts
  · rintro ⟨p, rfl, rfl⟩
    exact parse?_text p

end DataUrl

/-- The URL begins with the scheme, whatever the case of its letters. -/
def HasScheme (scheme url : String) : Prop := scheme.toList <+: url.toList.map Char.toLower

instance (scheme url : String) : Decidable (HasScheme scheme url) :=
  inferInstanceAs (Decidable (_ <+: _))

theorem isRemote_iff {cs : List Char} :
    isRemote cs ↔ ∃ scheme ∈ remoteSchemes, scheme <+: cs.map Char.toLower := by
  unfold isRemote
  rw [List.any_eq_true]
  simp only [isSome_afterIgnoringCase?]

theorem toList_remote {url place : String} (h : classify url = .remote place) :
    place.toList = trimChars url.toList := by
  simp only [classify] at h
  split at h
  · split at h <;> cases h
  · split at h
    · cases h
      exact String.toList_ofList
    · cases h

section Classify

variable {url : String}

theorem isData_iff : isData (trimChars url.toList) ↔ HasScheme "data:" (trim url) := by
  rw [HasScheme, toList_trim]
  exact isSome_afterIgnoringCase?

theorem isRemote_trim : isRemote (trimChars url.toList) ↔
    ∃ scheme ∈ ["http://", "https://", "file://"], HasScheme scheme (trim url) := by
  rw [isRemote_iff]
  simp only [HasScheme, toList_trim, remoteSchemes, List.mem_cons,
    List.not_mem_nil, or_false, exists_eq_or_imp, exists_eq_left]

/-- No URL has the scheme of inline data and one that leads elsewhere. -/
theorem not_data_of_remote {scheme : String} (h : scheme ∈ ["http://", "https://", "file://"])
    (hscheme : HasScheme scheme url) : ¬HasScheme "data:" url := by
  intro hdata
  have happart : ∀ scheme ∈ ["http://", "https://", "file://"],
      ¬(scheme.toList <+: "data:".toList ∨ "data:".toList <+: scheme.toList) := by decide
  exact happart scheme h (List.prefix_or_prefix_of_prefix hscheme hdata)

theorem classify_data (h : HasScheme "data:" (trim url)) :
    classify url = ((DataUrl.parse? (trim url).toList).map .inline).getD .unsupported := by
  simp only [classify, if_pos (isData_iff.mpr h), toList_trim]
  cases DataUrl.parse? (trimChars url.toList) <;> rfl

theorem classify_remote {scheme : String} (h : scheme ∈ ["http://", "https://", "file://"])
    (hscheme : HasScheme scheme (trim url)) : classify url = .remote (trim url) := by
  have hdata : ¬isData (trimChars url.toList) := fun hdata =>
    not_data_of_remote h hscheme (isData_iff.mp hdata)
  simp only [classify, if_neg hdata, if_pos (isRemote_trim.mpr ⟨scheme, h, hscheme⟩)]
  rfl

theorem classify_unsupported
    (h : ∀ scheme ∈ ["data:", "http://", "https://", "file://"], ¬HasScheme scheme (trim url)) :
    classify url = .unsupported := by
  obtain ⟨hdata, hremote⟩ := List.forall_mem_cons.mp h
  have hremote : ¬isRemote (trimChars url.toList) := fun hplace => by
    obtain ⟨scheme, hmem, hscheme⟩ := isRemote_trim.mp hplace
    exact hremote scheme hmem hscheme
  simp only [classify, if_neg (isData_iff.not.mpr hdata), if_neg hremote]

end Classify

/-- What a text is read as and where it leads as a URL. Whatever characters it begins with, their
bytes show its scheme. -/
theorem urls_classified (url : String) :
    (∀ d, DataUrl.parse? url.toList = some d ↔
      ∃ p : DataUrl.Parts, p.text = url ∧ p.value = d) ∧
    (HasScheme "data:" (trim url) →
      classify url = ((DataUrl.parse? (trim url).toList).map .inline).getD .unsupported) ∧
    (∀ scheme ∈ ["http://", "https://", "file://"], HasScheme scheme (trim url) →
      classify url = .remote (trim url)) ∧
    ((∀ scheme ∈ ["data:", "http://", "https://", "file://"], ¬HasScheme scheme (trim url)) →
      classify url = .unsupported) ∧
    ∀ scheme ∈ ["data:", "http://", "https://", "file://"],
      HasScheme scheme url ↔
        Utf8.ofString scheme <+: (Utf8.ofString url).map Utf8.lowerByte := by
  refine ⟨fun d => DataUrl.parse?_eq_some, classify_data, fun scheme h => classify_remote h,
    classify_unsupported, fun scheme h => (Utf8.encode_prefix_iff ?_).symm⟩
  have hascii : ∀ scheme ∈ ["data:", "http://", "https://", "file://"],
      scheme.toList.all fun c => c.toNat < 0x80 := by decide
  simpa using hascii scheme h

/-- A mark among several parameters, commas and semicolons in the data, a blank type, a data URL
without the mark, a remote place between blanks, and a text that begins with a character of three
bytes. -/
theorem oddUrls_classified :
    DataUrl.parse? "DaTA:a/b ;x; BASE64,;A,=".toList =
      some { mimeType := "a/b", data := ";A,=" } ∧
    DataUrl.parse? "data: ;base64,AA".toList =
      some { mimeType := "application/octet-stream", data := "AA" } ∧
    classify " data:,base64" = .unsupported ∧
    classify " HTTP://é\n" = .remote "HTTP://é" ∧
    classify "…ata:;base64,AA==" = .unsupported ∧
    ¬Utf8.ofString "data:" <+: (Utf8.ofString "…ata:;base64,AA==").map Utf8.lowerByte := by
  refine ⟨?_, ?_, ?_, ?_, ?_, ?_⟩
  · let parts : DataUrl.Parts :=
      { scheme := "DaTA:".toList, kind := "a/b ".toList
        params := ["x".toList, " BASE64".toList], data := ";A,=".toList
        scheme_data := by decide
        header_plain := by decide
        segments_plain := by decide
        marked := ⟨" BASE64".toList, by decide, [' '], "BASE64".toList, [], rfl,
          List.forall_mem_singleton.mpr rfl, List.forall_mem_nil _, rfl⟩ }
    exact ((urls_classified _).1 _).mpr ⟨parts, by decide, by decide⟩
  · let parts : DataUrl.Parts :=
      { scheme := "data:".toList, kind := [' '], params := ["base64".toList], data := "AA".toList
        scheme_data := by decide
        header_plain := by decide
        segments_plain := by decide
        marked := ⟨"base64".toList, by decide, [], "base64".toList, [], rfl,
          List.forall_mem_nil _, List.forall_mem_nil _, rfl⟩ }
    exact ((urls_classified _).1 _).mpr ⟨parts, by decide, by decide⟩
  · exact ((urls_classified _).2.1 (by decide)).trans (by decide)
  · exact ((urls_classified _).2.2.1 "http://" (by decide) (by decide)).trans (by decide)
  · exact (urls_classified _).2.2.2.1 (by decide)
  · exact ((urls_classified _).2.2.2.2 "data:" (by decide)).not.mp (by decide)

end Media
end ChatDialect
