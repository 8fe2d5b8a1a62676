import ChatDialect.Proofs.Correspondence
import ChatDialect.Proofs.Media.Extension

/-! Which files are PDFs. Both providers go by the type that the file states for itself, by its
format or by the extension in its URL, but only one of them ignores the blanks behind the URL. -/
namespace ChatDialect

theorem Text.eq_slash_of_toLower {c : Char} (h : c.toLower = '/') : c = '/' := by
  unfold Char.toLower at h
  split at h
  · next hupper =>
    have hval := congrArg (fun d : Char => d.val.toNat) h
    simp [UInt32.le_iff_toNat_le] at hupper hval
    omega
  · exact h

namespace Media

open Text

/-- The path of a remote URL has a slash in it, that of the scheme. -/
theorem slash_mem_pathOf {cs : List Char} (h : isRemote cs) : '/' ∈ pathOf cs := by
  obtain ⟨scheme, hscheme, rest, hrest⟩ := isRemote_iff.mp h
  obtain ⟨head, tail, rfl, rfl, -⟩ := List.map_eq_append_iff.mp hrest.symm
  have hends : ∀ c ∈ head, endsPath c = false := by
    have hmarks : ∀ scheme ∈ remoteSchemes, '?' ∉ scheme ∧ '#' ∉ scheme := by decide
    obtain ⟨hquery, hfragment⟩ := hmarks _ hscheme
    intro c hc
    have hlower : c.toLower ∈ head.map Char.toLower := List.mem_map_of_mem hc
    rw [endsPath, Bool.or_eq_false_iff, beq_eq_false_iff_ne, beq_eq_false_iff_ne]
    constructor
    · rintro rfl
      exact hquery hlower
    · rintro rfl
      exact hfragment hlower
  have hslash : '/' ∈ head := by
    have hschemes : ∀ scheme ∈ remoteSchemes, '/' ∈ scheme := by decide
    obtain ⟨c, hc, hlower⟩ := List.mem_map.mp (hschemes _ hscheme)
    rwa [← eq_slash_of_toLower hlower]
  rw [pathOf_append hends]
  exact List.mem_append_left _ hslash

/-- Two spellings of a remote URL, with the blanks around it and without them: the type is lost if
and only if blanks run into the extension. -/
theorem ofUrl?_remote {url place : String} (h : classify url = .remote place) :
    ofUrl? url =
      if url.toList.getLast?.any isBlank && !place.toList.any endsPath then none
      else ofUrl? place := by
  have hplace := toList_remote h
  have hremote : isRemote place.toList := by
    rw [hplace]
    simp only [classify] at h
    split at h
    · split at h <;> cases h
    · split at h
      · assumption
      · cases h
  have hslash := slash_mem_pathOf hremote
  have hnonempty : trimChars url.toList ≠ [] := by
    rw [← hplace]
    intro hempty
    rw [hempty] at hslash
    cases hslash
  obtain ⟨before, after, hurl, hbefore, hafter, hlast⟩ := exists_trimmed hnonempty
  rw [← hplace] at hurl
  have hpadded := ofUrl?_padded hbefore hafter hslash
  rw [← hurl, String.ofList_toList, String.ofList_toList] at hpadded
  rw [hpadded]
  cases place.toList.any endsPath with
  | true => simp
  | false =>
    by_cases hempty : after = []
    · have hkept : url.toList.getLast?.any isBlank = false := by simpa [hempty] using hlast
      simp [hempty, hkept]
    · simp [hempty, hlast.mpr hempty]

end Media

open Media (classify stated? ofUrl? ofFile)

def pdf : String := "application/pdf"

/-- Whether a reference leads to a local file. -/
def isLocal (url : String) : Bool := (Text.afterIgnoringCase? "file://".toList url.toList).isSome

/-- Whether a part is a PDF that is not in a local file. -/
def Vertex.Part.isPdf (p : Part) : Bool :=
  p.inlineData.any (·.mimeType == pdf) ||
    p.fileData.any fun f => f.mimeType == pdf && !isLocal f.uri

theorem Vertex.Part.isPdf_data (mimeType data : String) :
    (Item.data mimeType data).part.isPdf = (mimeType == pdf) := Bool.or_false _

theorem Vertex.Part.isPdf_file (mimeType uri : String) :
    (Item.file mimeType uri).part.isPdf = (mimeType == pdf && !isLocal uri) := Bool.false_or _

/-- A document and a part with the same bytes, or with the same reference to them. -/
inductive SamePdf : Anthropic.ContentBlock → Vertex.Part → Prop
  | data (data : String) :
    SamePdf (.document (.base64 "application/pdf" data))
      (Vertex.Item.data "application/pdf" data).part
  | url (url : String) :
    SamePdf (.document (.url url)) (Vertex.Item.file "application/pdf" url).part

/-- Files whose extension alone says that they are PDFs, and is followed by blanks. -/
structure Overlooked (f : Chat.FileRef) (url place : String) : Prop where
  given : f.url? = some url
  remote : classify url = .remote place
  web : isLocal place = false
  unstated : stated? f.format = none
  suggested : ofUrl? place = some pdf
  spaced : url.toList.getLast?.any Text.isBlank
  plain : place.toList.any Media.endsPath = false

theorem Anthropic.ofBlock?_file {f : Chat.FileRef} {url : String} (hurl : f.url? = some url) :
    ofBlock? (.file f) =
      if fileType url f.format = pdf then (mediaSource? url).map ContentBlock.document
      else none := by
  rw [ofBlock?, document?, hurl]
  rfl

section Remote
variable {f : Chat.FileRef} {url place : String} (hurl : f.url? = some url)
  (hplace : classify url = .remote place)
include hurl hplace

theorem Anthropic.ofBlock?_remote : ofBlock? (.file f) =
    if ofFile url f.format = pdf ∧ isLocal place = false then
      some (ContentBlock.document (.url place))
    else none := by
  have hsource : mediaSource? url = if isLocal place then none else some (.url place) := by
    rw [mediaSource?, hplace]
    rfl
  have htype : fileType url f.format = ofFile url f.format := by
    rw [fileType, hplace]
  rw [ofBlock?_file hurl, htype, hsource]
  cases isLocal place <;> simp

theorem Vertex.ofBlock?_remote :
    ofBlock? (.file f) = some (Item.file (ofFile place f.format) place).part := by
  rw [ofBlock?, hurl, Option.bind_some, mediaPart?, hplace]
  rfl

theorem Vertex.pdf_remote : (ofBlock? (.file f)).filter Part.isPdf =
    if ofFile place f.format = pdf ∧ isLocal place = false then some (Item.file pdf place).part
    else none := by
  rw [ofBlock?_remote hurl hplace, Option.filter_some, Part.isPdf_file]
  by_cases htype : ofFile place f.format = pdf
  · rw [htype]
    cases isLocal place <;> simp
  · simp [htype]

/-- The blanks behind a URL only hide the type if nothing else states it. -/
theorem ofFile_remote (hweb : isLocal place = false) :
    ofFile url f.format = pdf ↔ ofFile place f.format = pdf ∧ ¬ Overlooked f url place := by
  unfold ofFile
  cases hstated : stated? f.format with
  | some mimeType =>
    rw [Option.some_or, Option.some_or]
    refine (and_iff_left ?_).symm
    intro h
    rw [h.unstated] at hstated
    cases hstated
  | none =>
    rw [Option.none_or, Option.none_or, Media.ofUrl?_remote hplace]
    split_ifs with hhidden
    · rw [Bool.and_eq_true, Bool.not_eq_true'] at hhidden
      obtain ⟨hspaced, hplain⟩ := hhidden
      refine iff_of_false (by decide) ?_
      rintro ⟨htype, hseen⟩
      have hsuggested : ofUrl? place = some pdf := by
        cases htypes : ofUrl? place with
        | none =>
          rw [htypes] at htype
          exact absurd htype (by decide)
        | some mimeType =>
          rw [htypes] at htype
          exact congrArg some htype
      exact hseen ⟨hurl, hplace, hweb, hstated, hsuggested, hspaced, hplain⟩
    · refine (and_iff_left ?_).symm
      intro h
      exact hhidden (by rw [h.spaced, h.plain]; rfl)

end Remote

theorem inline_agree {f : Chat.FileRef} {url : String} {data : Media.DataUrl}
    (hurl : f.url? = some url) (hplace : classify url = .inline data) :
    Option.Rel SamePdf (Anthropic.ofBlock? (.file f))
      ((Vertex.ofBlock? (.file f)).filter Vertex.Part.isPdf) := by
  have hdocument : Anthropic.ofBlock? (.file f) =
      if data.mimeType = pdf then
        some (Anthropic.ContentBlock.document (.base64 data.mimeType data.data))
      else none := by
    rw [Anthropic.ofBlock?_file hurl, Anthropic.fileType, Anthropic.mediaSource?, hplace]
    rfl
  have hpart : Vertex.ofBlock? (.file f) =
      some (Vertex.Item.data data.mimeType data.data).part := by
    rw [Vertex.ofBlock?, hurl, Option.bind_some, Vertex.mediaPart?, hplace]
    rfl
  rw [hdocument, hpart, Option.filter_some, Vertex.Part.isPdf_data]
  by_cases htype : data.mimeType = pdf
  · rw [htype, if_pos rfl, if_pos (beq_self_eq_true _)]
    exact .some (.data data.data)
  · rw [if_neg htype, if_neg (by simpa using htype)]
    exact .none

theorem remote_agree {f : Chat.FileRef} {url place : String} (hurl : f.url? = some url)
    (hplace : classify url = .remote place) (hseen : ¬ Overlooked f url place) :
    Option.Rel SamePdf (Anthropic.ofBlock? (.file f))
      ((Vertex.ofBlock? (.file f)).filter Vertex.Part.isPdf) := by
  have htype : (ofFile url f.format = pdf ∧ isLocal place = false) ↔
      (ofFile place f.format = pdf ∧ isLocal place = false) := by
    refine and_congr_left fun hweb => ?_
    rw [ofFile_remote hurl hplace hweb, and_iff_left hseen]
  rw [Anthropic.ofBlock?_remote hurl hplace, Vertex.pdf_remote hurl hplace]
  simp only [htype]
  split_ifs
  · exact .some (.url place)
  · exact .none

theorem Overlooked.hidden {f : Chat.FileRef} {url place : String} (h : Overlooked f url place) :
    Anthropic.ofBlock? (.file f) = none ∧
      Vertex.ofBlock? (.file f) = some (Vertex.Item.file "application/pdf" place).part := by
  have hhidden : ofFile url f.format ≠ pdf := fun htype =>
    ((ofFile_remote h.given h.remote h.web).mp htype).2 h
  have hshown : ofFile place f.format = pdf := by
    rw [ofFile, h.unstated, h.suggested]
    rfl
  constructor
  · rw [Anthropic.ofBlock?_remote h.given h.remote, if_neg fun hboth => hhidden hboth.1]
  · rw [Vertex.ofBlock?_remote h.given h.remote, hshown, pdf]

/-- The documents of the one provider are the PDF files of the other, local ones apart, with the
same bytes or the same reference; but it overlooks those with blanks behind the extension. -/
theorem documents_agree_iff (f : Chat.FileRef) :
    (Option.Rel SamePdf (Anthropic.ofBlock? (.file f))
        ((Vertex.ofBlock? (.file f)).filter Vertex.Part.isPdf) ↔
      ¬ ∃ url place, Overlooked f url place) ∧
    ∀ url place, Overlooked f url place → Anthropic.ofBlock? (.file f) = none ∧
      Vertex.ofBlock? (.file f) = some (Vertex.Item.file "application/pdf" place).part := by
  refine ⟨⟨?_, ?_⟩, fun url place h => h.hidden⟩
  · rintro hagree ⟨url, place, h⟩
    have hweb : (Vertex.Item.file "application/pdf" place).part.isPdf := by
      rw [Vertex.Part.isPdf_file, h.web]
      rfl
    obtain ⟨hdocument, hpart⟩ := h.hidden
    rw [hdocument, hpart, Option.filter_some, if_pos hweb] at hagree
    cases hagree
  · intro hseen
    cases hurl : f.url? with
    | none =>
      have hdocument : Anthropic.ofBlock? (.file f) = none := by
        rw [Anthropic.ofBlock?, Anthropic.document?, hurl]
        rfl
      rw [hdocument, Vertex.ofBlock?, hurl, Option.bind_none]
      exact .none
    | some url =>
      cases hplace : classify url with
      | inline data => exact inline_agree hurl hplace
      | remote place => exact remote_agree hurl hplace fun h => hseen ⟨url, place, h⟩
      | unsupported =>
        have hdocument : Anthropic.ofBlock? (.file f) = none := by
          rw [Anthropic.ofBlock?_file hurl, Anthropic.mediaSource?, hplace]
          exact ite_self _
        rw [hdocument, Vertex.ofBlock?, hurl, Option.bind_some, Vertex.mediaPart?, hplace]
        exact .none

/-- A reference to a PDF with a blank behind it. -/
def spacedPdf : Chat.FileRef := ⟨none, some "https://x.test/a.pdf ", none, none⟩

theorem spacedPdf_hidden :
    let plain : Chat.FileRef := { spacedPdf with fileData := some "https://x.test/a.pdf" }
    Option.Rel SamePdf (Anthropic.ofBlock? (.file plain))
        ((Vertex.ofBlock? (.file plain)).filter Vertex.Part.isPdf) ∧
      Overlooked spacedPdf "https://x.test/a.pdf " "https://x.test/a.pdf" ∧
      Anthropic.ofBlock? (.file spacedPdf) = none ∧
      Vertex.ofBlock? (.file spacedPdf) =
        some (Vertex.Item.file "application/pdf" "https://x.test/a.pdf").part := by
  intro plain
  have hseen : ¬ ∃ url place, Overlooked plain url place := by
    rintro ⟨url, place, h⟩
    cases h.given
    exact absurd h.spaced (by decide)
  have hoverlooked : Overlooked spacedPdf "https://x.test/a.pdf " "https://x.test/a.pdf" :=
    ⟨by rfl, by rfl, by rfl, by rfl, by rfl, by rfl, by rfl⟩
  exact ⟨(documents_agree_iff plain).1.mpr hseen, hoverlooked,
    (documents_agree_iff spacedPdf).2 _ _ hoverlooked⟩

theorem spacedPdf_overlooked :
    Anthropic.ofBlock? (.file spacedPdf) = none ∧
      ∃ part, Vertex.ofBlock? (.file spacedPdf) = some part ∧ part.isPdf := by
  refine ⟨by decide, (Vertex.Item.file "application/pdf" "https://x.test/a.pdf").part, by rfl,
    by decide⟩

end ChatDialect
