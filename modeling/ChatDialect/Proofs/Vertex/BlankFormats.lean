import ChatDialect.Proofs.Text.Blank
import ChatDialect.Proofs.Vertex.Parts
import ChatDialect.Vertex.FromChat

/-! Blank formats. They are as good as none for images and files, whose type is then the one that the
URL suggests; of a video they make an MP4. -/
namespace ChatDialect

open Media (classify ofUrl?)

namespace Chat.Block

/-- The URL of an image, a video or a file. -/
def url? : Block → Option String
  | .image m => some m.url
  | .video m => some m.url
  | .file f => f.url?
  | .text _ => none
  | .audio _ => none
  | .ignored _ => none

/-- An image, a video or a file with this format, or with none. -/
def stating (format : Option String) : Block → Block
  | .image m => .image { m with format }
  | .video m => .video { m with format }
  | .file f => .file { f with format }
  | .text s => .text s
  | .audio a => .audio a
  | .ignored kind => .ignored kind

def isVideo : Block → Bool
  | .video _ => true
  | _ => false

/-- A video somewhere else whose URL suggests another type than MP4, or none. -/
def IsOtherVideo (b : Block) : Prop :=
  b.isVideo ∧ ∃ url place, b.url? = some url ∧ classify url = .remote place ∧
    (ofUrl? place).getD "application/octet-stream" ≠ "video/mp4"

end Chat.Block

section Blank
variable {format : String} (hblank : ∀ c ∈ format.toList, Text.isBlank c)
include hblank

theorem Media.stated?_blank : stated? (some format) = none := by
  change (if Text.trim format = "" then none else _) = none
  exact if_pos (Text.trim_of_blank hblank)

theorem Media.ofFile_blank (url : String) :
    ofFile url (some format) = (ofUrl? url).getD "application/octet-stream" := by
  rw [ofFile, stated?_blank hblank, Option.none_or]
  rfl

/-- The table of formats has no blank one, and what it does not have is MP4. -/
theorem Vertex.videoType_blank : videoType format = "video/mp4" := by
  have hslash : Text.contains format '/' = false := by
    rw [Text.contains, List.any_eq_false]
    intro c hc
    rw [(Text.apart_of_blank (hblank c hc)).2.1]
    exact Bool.false_ne_true
  rw [videoType, hslash, Media.ofVideoFormat, Text.trim_of_blank hblank]
  rfl

end Blank

namespace Vertex

/-- A medium somewhere else becomes a file, whose type is the one that is stated for it. -/
theorem mediaPart?_remote {url place : String} (h : classify url = .remote place)
    (format : Option String) :
    mediaPart? url format = some (Item.file (Media.ofFile place format) place).part := by
  rw [mediaPart?, h]
  rfl

/-- What stands in a data URL, or leads nowhere, takes no type from its format. -/
theorem mediaPart?_congr {url : String} {format format' : Option String}
    (h : ∀ place, classify url = .remote place →
      Media.ofFile place format = Media.ofFile place format') :
    mediaPart? url format = mediaPart? url format' := by
  rw [mediaPart?, mediaPart?]
  cases hplace : classify url with
  | inline data => rfl
  | unsupported => rfl
  | remote place =>
    dsimp only
    rw [h place hplace]

theorem ofBlock?_stating_none {b : Chat.Block} {url place : String} (hurl : b.url? = some url)
    (hplace : classify url = .remote place) :
    ofBlock? (b.stating none) =
      some (Item.file ((ofUrl? place).getD "application/octet-stream") place).part := by
  cases b with
  | image m =>
    cases hurl
    exact mediaPart?_remote hplace none
  | video m =>
    cases hurl
    exact mediaPart?_remote hplace none
  | file f =>
    have hgiven : Chat.FileRef.url? { f with format := none } = some url := hurl
    rw [Chat.Block.stating, ofBlock?, hgiven]
    exact mediaPart?_remote hplace none
  | _ => cases hurl

section Blank
variable {format : String} (hblank : ∀ c ∈ format.toList, Text.isBlank c)
include hblank

theorem mediaPart?_blank (url : String) : mediaPart? url (some format) = mediaPart? url none :=
  mediaPart?_congr fun place _ => Media.ofFile_blank hblank place

/-- By the kind of the block; only that of a video makes a type of the format first. -/
theorem ofBlock?_blank {b : Chat.Block} (hb : b.isVideo = false) :
    ofBlock? (b.stating (some format)) = ofBlock? (b.stating none) := by
  cases b with
  | video m => cases hb
  | image m => exact mediaPart?_blank hblank m.url
  | file f => exact Option.bind_congr fun url _ => mediaPart?_blank hblank url
  | text s => rfl
  | audio a => rfl
  | ignored kind => rfl

theorem ofBlock?_blank_video (m : Chat.MediaUrl) :
    ofBlock? (.video { m with format := some format }) = mediaPart? m.url (some "video/mp4") := by
  rw [ofBlock?, Option.map_some, videoType_blank hblank]

theorem blank_video_iff (m : Chat.MediaUrl) :
    ofBlock? (.video { m with format := some format }) =
        ofBlock? (.video { m with format := none }) ↔
      ∀ place, classify m.url = .remote place →
        (ofUrl? place).getD "application/octet-stream" = "video/mp4" := by
  have hnone : ofBlock? (.video { m with format := none }) = mediaPart? m.url none := rfl
  have hstated (place : String) : Media.ofFile place (some "video/mp4") = "video/mp4" := by rfl
  rw [ofBlock?_blank_video hblank, hnone]
  constructor
  · intro hsame place hplace
    rw [mediaPart?_remote hplace, mediaPart?_remote hplace, hstated] at hsame
    have htypes := congrArg (fun part => (part.bind (·.fileData)).map (·.mimeType)) hsame
    exact (Option.some.inj htypes).symm
  · intro hmp4
    refine mediaPart?_congr fun place hplace => ?_
    rw [hstated]
    exact (hmp4 place hplace).symm

end Blank

/-- A blank format is as good as none but for videos. Every video somewhere else becomes an MP4 by it,
so it makes a difference if and only if the URL of a video suggests something else. -/
theorem blank_format_iff (b : Chat.Block) {format : String}
    (hall : format.toList.all Text.isBlank) :
    (ofBlock? (b.stating (some format)) = ofBlock? (b.stating none) ↔ ¬ b.IsOtherVideo) ∧
    ∀ url place, b.url? = some url → classify url = .remote place →
      let suggested := (ofUrl? place).getD "application/octet-stream"
      ofBlock? (b.stating none) = some (Item.file suggested place).part ∧
      ofBlock? (b.stating (some format)) =
        some (Item.file (if b.isVideo then "video/mp4" else suggested) place).part := by
  have hblank := List.all_eq_true.mp hall
  cases hvideo : b.isVideo with
  | false =>
    have hsame := ofBlock?_blank hblank hvideo
    refine ⟨iff_of_true hsame fun hother => ?_, ?_⟩
    · rw [Chat.Block.IsOtherVideo, hvideo] at hother
      exact Bool.false_ne_true hother.1
    · intro url place hurl hplace
      rw [hsame]
      exact ⟨ofBlock?_stating_none hurl hplace, ofBlock?_stating_none hurl hplace⟩
  | true =>
    cases b with
    | video m =>
      refine ⟨(blank_video_iff hblank m).trans ?_, ?_⟩
      · constructor
        · rintro hmp4 ⟨-, url, place, hurl, hplace, hother⟩
          cases hurl
          exact hother (hmp4 place hplace)
        · intro hnone place hplace
          by_contra hother
          exact hnone ⟨rfl, m.url, place, rfl, hplace, hother⟩
      · intro url place hurl hplace
        refine ⟨ofBlock?_stating_none hurl hplace, ?_⟩
        cases hurl
        exact (ofBlock?_blank_video hblank m).trans (mediaPart?_remote hplace _)
    | _ => cases hvideo

/-- A place whose extension says that it is a WebM file. -/
def webm : String := "https://x.test/a.webm"

def webmVideo : Chat.Block := .video ⟨webm, none, none⟩

theorem webmVideo_blank :
    (" \t".toList.all Text.isBlank ∧ webmVideo.url? = some webm ∧
      classify webm = .remote webm) ∧
    ofBlock? (webmVideo.stating (some " \t")) ≠ ofBlock? (webmVideo.stating none) ∧
    ofBlock? (webmVideo.stating none) = some (Item.file "video/webm" webm).part ∧
    ofBlock? (webmVideo.stating (some " \t")) = some (Item.file "video/mp4" webm).part := by
  have hblank : " \t".toList.all Text.isBlank := by decide
  have hplace : classify webm = .remote webm := by decide
  have htype : (ofUrl? webm).getD "application/octet-stream" = "video/webm" := by decide
  have hother : webmVideo.IsOtherVideo := ⟨rfl, webm, webm, rfl, hplace, by rw [htype]; decide⟩
  obtain ⟨hiff, hparts⟩ := blank_format_iff webmVideo hblank
  obtain ⟨hnone, hblanked⟩ := hparts webm webm rfl hplace
  rw [htype] at hnone
  exact ⟨⟨hblank, rfl, hplace⟩, fun hsame => hiff.mp hsame hother, hnone, hblanked⟩

/-- A blank format makes an MP4 of it. -/
theorem webmVideo_retyped :
    " ".toList.all Text.isBlank ∧
      ofBlock? (webmVideo.stating (some " ")) ≠ ofBlock? (webmVideo.stating none) := by
  refine ⟨by decide, ?_⟩
  intro hsame
  have htypes := congrArg (fun part => (part.bind (·.fileData)).map (·.mimeType)) hsame
  exact absurd htypes (by decide)

end Vertex
end ChatDialect
