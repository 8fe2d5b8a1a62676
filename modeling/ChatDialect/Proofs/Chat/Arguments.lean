import ChatDialect.Chat.Arguments
import ChatDialect.Proofs.Json.Buffered
import ChatDialect.Proofs.Text.Blank

/-! What a text of arguments stands for. Blank text is no JSON, so every value can be read from its
text; an object stands for itself, and all else has its place in one. -/
namespace ChatDialect

namespace Json

/-- The bytes that blanks outside the grammar begin with. -/
def foreignBlanks : List UInt8 := [0x0B, 0x0C, 0xC2, 0xE1, 0xE2, 0xE3]

theorem encodeChar_of_blank {c : Char} (h : Text.isBlank c) :
    (∃ b, Utf8.encodeChar c = [b] ∧ isSpace b) ∨
      ∃ b r, Utf8.encodeChar c = b :: r ∧ b ∈ foreignBlanks := by
  have hblanks : ∀ n ∈ Text.blanks,
      ((Utf8.encodeChar (Char.ofNat n)).head?.any isSpace ∧
        (Utf8.encodeChar (Char.ofNat n)).tail = []) ∨
      (Utf8.encodeChar (Char.ofNat n)).head?.any (foreignBlanks.contains ·) := by decide
  have hc := hblanks c.toNat (Text.mem_blanks h)
  rw [Char.ofNat_toNat] at hc
  cases hbytes : Utf8.encodeChar c with
  | nil => simp [hbytes] at hc
  | cons b r =>
    simp only [hbytes, List.head?_cons, Option.any_some, List.tail_cons,
      List.contains_iff_mem] at hc
    rcases hc with ⟨hspace, rfl⟩ | hforeign
    · exact .inl ⟨b, rfl, hspace⟩
    · exact .inr ⟨b, r, rfl, hforeign⟩

theorem skipSpace_of_blank {cs : List Char} (h : ∀ c ∈ cs, Text.isBlank c) :
    skipSpace (Utf8.encode cs) = [] ∨
      ∃ b r, skipSpace (Utf8.encode cs) = b :: r ∧ b ∈ foreignBlanks := by
  induction cs with
  | nil => exact .inl rfl
  | cons c cs ih =>
    have hcons : Utf8.encode (c :: cs) = Utf8.encodeChar c ++ Utf8.encode cs := rfl
    rcases encodeChar_of_blank (h c List.mem_cons_self) with ⟨b, hc, hb⟩ | ⟨b, r, hc, hb⟩
    · have hskip : skipSpace (Utf8.encode (c :: cs)) = skipSpace (Utf8.encode cs) := by
        rw [hcons, hc, skipSpace, skipSpace, List.singleton_append, List.dropWhile_cons_of_pos hb]
      rw [hskip]
      exact ih fun c hc => h c (List.mem_cons_of_mem _ hc)
    · have hforeign : foreignBlanks.all (!isSpace ·) := rfl
      have hspace : isSpace b = false := by simpa using List.all_eq_true.mp hforeign b hb
      refine .inr ⟨b, r ++ Utf8.encode cs, ?_, hb⟩
      rw [hcons, hc, skipSpace, List.cons_append, List.dropWhile_cons_of_neg (by simp [hspace])]

/-- No value stands in blank text. -/
theorem readTree_of_blank {cs : List Char} (h : ∀ c ∈ cs, Text.isBlank c) (fuel : Nat) :
    ∃ f, readTree (fuel + 1) (Utf8.encode cs) = (.missing f, none) := by
  rcases skipSpace_of_blank h with hnil | ⟨b, r, hcons, hb⟩
  · refine ⟨.truncated, ?_⟩
    rw [readTree, hnil]
    rfl
  · refine ⟨.malformed, ?_⟩
    rw [readTree, hcons]
    simp only [foreignBlanks, List.mem_cons, List.not_mem_nil, or_false] at hb
    rcases hb with rfl | rfl | rfl | rfl | rfl | rfl <;> rfl

theorem read_ne_ok_of_blank {s : String} (h : Text.trim s = "") (j : Json) :
    Codec.value.read (Utf8.ofString s) ≠ .ok j := by
  obtain ⟨f, htree⟩ :=
    readTree_of_blank (Text.isBlank_of_trim h) (2 * (Utf8.ofString s).length + 1)
  intro hread
  simp only [Codec.read, readDocument, Utf8.ofString] at hread htree
  rw [htree] at hread
  cases hread

end Json

namespace Chat.Arguments

open Json.Codec

/-- An object as it is, and anything else as the value of one. -/
def enclose : Json → Json
  | .obj fields => .obj fields
  | j => .obj [("value", j)]

/-- The object that stands for a value; `null` is no argument at all. -/
def objectOf : Json → Json
  | .null => .obj []
  | j => enclose j

theorem parse_eq_enclose {text : String} {j : Json}
    (h : value.read (Utf8.ofString text) = .ok j) : parse text = enclose j := by
  have hblank : (Text.trim text).isEmpty = false := by
    rw [← Bool.not_eq_true, String.isEmpty_iff]
    intro htrim
    exact Json.read_ne_ok_of_blank htrim _ h
  rw [parse, hblank, h]
  cases j <;> rfl

theorem parse_of_read {text : String} {fields : List (String × Json)}
    (h : value.read (Utf8.ofString text) = .ok (.obj fields)) : parse text = .obj fields :=
  parse_eq_enclose h

/-- What is no JSON is told apart from what is, and comes along as it is. -/
theorem parse_of_error {text : String} {f : Json.Fault} (hblank : Text.trim text ≠ "")
    (h : value.read (Utf8.ofString text) = .error f) :
    parse text =
      .obj [("error", .str "invalid tool call arguments"), ("raw_arguments", .str text)] := by
  have hempty : (Text.trim text).isEmpty = false := by
    rwa [← Bool.not_eq_true, String.isEmpty_iff]
  rw [parse, hempty, h]
  rfl

theorem exists_fields (text : String) : ∃ fields, parse text = .obj fields := by
  by_cases hblank : Text.trim text = ""
  · rw [parse, hblank]
    exact ⟨[], rfl⟩
  · cases hread : value.read (Utf8.ofString text) with
    | error f => exact ⟨_, parse_of_error hblank hread⟩
    | ok j =>
      rw [parse_eq_enclose hread]
      cases j <;> exact ⟨_, rfl⟩

/-- The text of a value is read as the value, in its normal form. -/
theorem read_text {j : Json} (hexact : j.isExact) (hdepth : j.depth ≤ Json.nestingLimit) :
    value.read (Utf8.ofString j.text) = .ok j.normalize := by
  rw [Json.text, Utf8.ofString, String.toList_ofList]
  exact read_bytes hexact (decode_tree hdepth)

theorem parse_print {j : Json} (hexact : j.isExact) (hdepth : j.depth ≤ Json.nestingLimit) :
    parse (print j) = objectOf j.normalize := by
  cases j with
  | null => rfl
  | _ => exact parse_eq_enclose (read_text hexact hdepth)

theorem read_print {fields : List (String × Json)}
    (h : value.Faithful Json.nestingLimit (.obj fields)) :
    value.read (Utf8.ofString (print (.obj fields))) = .ok (.obj fields) := by
  obtain ⟨-, -, hread⟩ := h.read_write rfl
  rw [print, Json.text, Utf8.ofString, String.toList_ofList]
  · exact hread
  · nofun

/-- From the text of its arguments a call gets back the object that stands for them, its fields in
order; and any text at all stands for some object, which holds the text itself if it is no JSON. -/
theorem arguments_carried :
    (∀ j : Json, j.isExact → j.depth ≤ 127 → parse (print j) = objectOf j.normalize) ∧
    ∀ text : String, ∃ fields, parse text = .obj fields ∧
      (¬ text.toList.all Text.isBlank → ∀ f, value.read (Utf8.ofString text) = .error f →
        (Json.obj fields).get? "raw_arguments" = some (.str text)) := by
  refine ⟨fun j hexact hdepth => parse_print hexact hdepth, ?_⟩
  intro text
  obtain ⟨fields, hfields⟩ := exists_fields text
  refine ⟨fields, hfields, ?_⟩
  intro hvisible f hread
  have hblank : Text.trim text ≠ "" := by
    intro htrim
    exact hvisible (List.all_eq_true.mpr (Text.isBlank_of_trim htrim))
  rw [← hfields, parse_of_error hblank hread]
  rfl

/-- Arguments with a control character, a quotation mark and the empty list. -/
def trickyArguments : Json :=
  .obj [("a", .arr []), ("b", .str "\"\n\x01é"), ("c", .obj [("", .null)])]

theorem trickyArguments_carried :
    trickyArguments.isExact ∧ trickyArguments.depth ≤ 127 ∧
    parse (print trickyArguments) = trickyArguments ∧
    (¬ "\x7boops".toList.all Text.isBlank ∧
      value.read (Utf8.ofString "\x7boops") = .error .malformed) ∧
    ∃ fields, parse "\x7boops" = .obj fields ∧
      (Json.obj fields).get? "raw_arguments" = some (.str "\x7boops") := by
  have hexact : trickyArguments.isExact := by rfl
  have hdepth : trickyArguments.depth ≤ 127 := by decide
  have hnormal : trickyArguments.normalize = trickyArguments := by rfl
  have hkept := arguments_carried.1 trickyArguments hexact hdepth
  rw [hnormal] at hkept
  have hvisible : ¬ "\x7boops".toList.all Text.isBlank := by decide
  have hread : value.read (Utf8.ofString "\x7boops") = .error .malformed := by rfl
  obtain ⟨fields, hfields, hraw⟩ := arguments_carried.2 "\x7boops"
  exact ⟨hexact, hdepth, hkept, ⟨hvisible, hread⟩, fields, hfields, hraw hvisible _ hread⟩

end Chat.Arguments
end ChatDialect
