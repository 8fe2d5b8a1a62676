import ChatDialect.Gateway
import ChatDialect.Proofs.Anthropic.Identity
import ChatDialect.Proofs.Chat.Written
import ChatDialect.Proofs.Sse.Payloads
import ChatDialect.Proofs.Text.Blank

/-! The lines that carry payloads, and the frames of chunks, each of which is such a line and an
empty one. -/
namespace ChatDialect

namespace Sse

open Chat

/-- A text that the payload of a line can be: it has no control characters, and no blanks at its
ends. -/
structure Fits (text : String) : Prop where
  visible : Json.Visible text.toList
  head : text.toList.head?.any fun c => !Text.isBlank c
  last : text.toList.getLast?.any fun c => !Text.isBlank c

theorem fits_done : Fits "[DONE]" := ⟨by decide, by decide, by decide⟩

/-- The line that carries a payload. -/
def dataLine (text : String) : List UInt8 := frameHead ++ Utf8.ofString text ++ [10]

namespace Fits

variable {text : String} (h : Fits text)
include h

theorem ne_empty : text ≠ "" := by
  intro hempty
  have hhead := h.head
  rw [hempty] at hhead
  cases hhead

theorem last_append (cs : List Char) :
    (cs ++ text.toList).getLast?.any fun c => !Text.isBlank c := by
  have hlast := h.last
  rw [List.getLast?_append]
  cases htext : text.toList.getLast? with
  | none =>
    rw [htext] at hlast
    cases hlast
  | some c => rwa [htext] at hlast

/-- Trimmed, a data line ends with its payload. -/
theorem trimChars_line : Text.trimChars (['d', 'a', 't', 'a', ':', ' '] ++ text.toList ++ ['\n']) =
    ['d', 'a', 't', 'a', ':', ' '] ++ text.toList := by
  have hlast := h.last_append ['d', 'a', 't', 'a', ':', ' ']
  exact Text.trimChars_between [] ['\n'] nofun (List.forall_mem_singleton.mpr rfl) rfl hlast

theorem trimChars_payload : Text.trimChars (' ' :: text.toList) = text.toList := by
  have htrim := Text.trimChars_between [' '] [] (List.forall_mem_singleton.mpr rfl) nofun
    h.head h.last
  rwa [List.append_nil] at htrim

end Fits

theorem payload?_dataLine {text : String} (h : Fits text) :
    payload? (dataLine text) = some text := by
  have hbytes : dataLine text =
      Utf8.encode (['d', 'a', 't', 'a', ':', ' '] ++ text.toList ++ ['\n']) := by
    rw [dataLine, Utf8.encode_append, Utf8.encode_append]
    rfl
  unfold payload? dataPayload?
  rw [hbytes, Utf8.lossy_encode, String.toList_ofList, h.trimChars_line]
  simp only [List.cons_append, List.nil_append, Text.after?, if_true, Option.map_some,
    h.trimChars_payload, String.ofList_toList]
  exact Option.filter_eq_some_iff.mpr ⟨rfl, by simpa using h.ne_empty⟩

theorem cutLines_line {line : List UInt8} (h : 10 ∉ line) :
    cutLines (line ++ [10]) = ([line ++ [10]], []) := by
  induction line with
  | nil => rfl
  | cons b bs ih =>
    rw [List.mem_cons, not_or] at h
    have hb : b ≠ 10 := Ne.symm h.1
    rw [List.cons_append, cutLines, ih h.2]
    simp only [hb, if_false]

theorem cutLines_dataLine {text : String} (h : Fits text) :
    cutLines (dataLine text) = ([dataLine text], []) := by
  apply cutLines_line
  intro hmem
  rcases List.mem_append.mp hmem with hmem | hmem
  · revert hmem
    decide
  · have hle := Utf8.le_of_mem_encode (by decide) h.visible hmem
    exact absurd hle (by decide)

/-- A data line is the first line of the input that it stands before. -/
theorem Input.lines_dataLine {text : String} (h : Fits text) (rest : List UInt8)
    (fault : Option String) :
    Input.lines ⟨dataLine text ++ rest, fault⟩ = dataLine text :: Input.lines ⟨rest, fault⟩ := by
  rw [Input.lines_append, cutLines_dataLine h]
  rfl

/-- A chunk goes out as the one payload that it is written as, which is not that of the
terminator. -/
theorem frame?_eq (c : Chunk) :
    ∃ text, frame? c = some (dataLine text ++ [10]) ∧ Fits text ∧
      text ≠ "[DONE]" ∧ Chunk.codec.read (Utf8.ofString text) = .ok c ∧
      Chunk.codec.write c = some (Utf8.ofString text) := by
  obtain ⟨fields, hexact, hwrite, hread⟩ := c.read_write
  have hchars : (Json.obj fields).text.toList =
      '\x7b' :: (Json.fieldChars fields ++ ['\x7d']) := by
    rw [Json.text, String.toList_ofList, Json.chars]
  have hbytes : Utf8.ofString (Json.obj fields).text = (Json.obj fields).bytes := by
    rw [Utf8.ofString, Json.text, String.toList_ofList]
    rfl
  refine ⟨(Json.obj fields).text, ?_, ⟨?_, ?_, ?_⟩, ?_, ?_, ?_⟩
  · rw [frame?, hwrite, dataLine, hbytes, List.append_assoc]
    rfl
  · rw [Json.text, String.toList_ofList]
    exact Json.chars_visible (.obj fields) hexact
  · rw [hchars]
    rfl
  · rw [hchars, List.getLast?_cons, List.getLast?_concat]
    rfl
  · intro hdone
    rw [hdone] at hchars
    exact absurd (List.cons.inj hchars).1 (by decide)
  · rw [hbytes, hread]
  · rw [hbytes, hwrite]

theorem length_frames (chunks : List Chunk) :
    (chunks.filterMap frame?).length = chunks.length := by
  induction chunks with
  | nil => rfl
  | cons c chunks ih =>
    obtain ⟨text, hframe, -⟩ := frame?_eq c
    rw [List.filterMap_cons_some hframe, List.length_cons, List.length_cons, ih]

/-- Two lines of a stream, each of which says something. -/
def greetings : List UInt8 := dataLine Anthropic.greetingText ++ dataLine Anthropic.greetingText

theorem fits_greetingText : Fits Anthropic.greetingText := by
  have hvisible : (Anthropic.greetingText.toList.all fun c => 0x20 ≤ c.toNat) = true := by cbv
  refine ⟨?_, by cbv, by cbv⟩
  unfold Json.Visible
  simpa using hvisible

theorem payloads_greetings (fault : Option String) :
    (Input.lines ⟨greetings, fault⟩).filterMap payload? =
      [Anthropic.greetingText, Anthropic.greetingText] := by
  have hlast := Input.lines_dataLine fits_greetingText [] fault
  have hempty : Input.lines ⟨[], fault⟩ = [] := by cases fault <;> rfl
  rw [List.append_nil, hempty] at hlast
  rw [greetings, Input.lines_dataLine fits_greetingText, hlast]
  simp [payload?_dataLine fits_greetingText]

theorem takePayloads_greetings (model : String) (now : Int64) (ids : Ids) :
    ∃ c d s, takePayloads ProviderStream.payload (.new .anthropic model now ids)
      [Anthropic.greetingText, Anthropic.greetingText] = ([c, d], some s) := by
  have hpayload (s : Anthropic.Stream) :
      ∃ c s', ProviderStream.payload (.anthropic s) Anthropic.greetingText =
        (.anthropic s', .one c) := by
    simp only [ProviderStream.payload, Anthropic.Stream.payload_eq, Anthropic.ofText?_greetingText]
    exact ⟨_, _, rfl⟩
  obtain ⟨c, s, hc⟩ := hpayload (.new model now ids)
  obtain ⟨d, s', hd⟩ := hpayload s
  refine ⟨c, d, .anthropic s', ?_⟩
  rw [ProviderStream.new, takePayloads, hc]
  simp only [Step.one, takePayloads, hd]
  rfl

end Sse
end ChatDialect
