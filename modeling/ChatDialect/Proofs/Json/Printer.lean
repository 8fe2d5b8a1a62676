import ChatDialect.Json.Reader
import ChatDialect.Proofs.Json.Numeral
import ChatDialect.Proofs.Json.Quoted

/-! A value without floating-point numbers that was written reads back as it was. The bytes behind
it are left as they are, if a number does not go on with them. What was written has no line feed in
it, nor any other control character. -/
namespace ChatDialect.Json

mutual
/-- Whether all numbers are integers. -/
def isExact : Json → Bool
  | .num (.int _) => true
  | .num (.float _) => false
  | .arr items => isExactItems items
  | .obj fields => isExactFields fields
  | .null => true
  | .bool _ => true
  | .str _ => true

def isExactItems : List Json → Bool
  | [] => true
  | x :: xs => x.isExact && isExactItems xs

def isExactFields : List (String × Json) → Bool
  | [] => true
  | (_, x) :: xs => x.isExact && isExactFields xs
end

@[simp] theorem isExactItems_cons {x : Json} {xs : List Json} :
    isExactItems (x :: xs) ↔ x.isExact ∧ isExactItems xs := by
  rw [isExactItems, Bool.and_eq_true]

@[simp] theorem isExactFields_cons {k : String} {x : Json} {xs : List (String × Json)} :
    isExactFields ((k, x) :: xs) ↔ x.isExact ∧ isExactFields xs := by
  rw [isExactFields, Bool.and_eq_true]

/-- A byte that a value begins with. -/
def Begins (b : UInt8) : Prop := isSpace b = false ∧ b ≠ 0x5D

theorem skipSpace_of_begins {b : UInt8} (h : Begins b) (r : List UInt8) :
    skipSpace (b :: r) = b :: r := by
  unfold skipSpace
  rw [List.dropWhile_cons, h.1]
  rfl

theorem encode_quote (s : String) :
    Utf8.encode (quote s) = 0x22 :: (Utf8.encode (s.toList.flatMap escape) ++ [0x22]) := by
  have hopen (cs : List Char) : Utf8.encode ('"' :: cs) = 0x22 :: Utf8.encode cs := rfl
  rw [quote, hopen, Utf8.encode_append]
  rfl

theorem bytes_arr (items : List Json) :
    (arr items).bytes = 0x5B :: (Utf8.encode (itemChars items) ++ [0x5D]) := by
  have hopen (cs : List Char) : Utf8.encode ('[' :: cs) = 0x5B :: Utf8.encode cs := rfl
  rw [bytes, chars, hopen, Utf8.encode_append]
  rfl

theorem bytes_obj (fields : List (String × Json)) :
    (obj fields).bytes = 0x7B :: (Utf8.encode (fieldChars fields) ++ [0x7D]) := by
  have hopen (cs : List Char) : Utf8.encode ('\x7b' :: cs) = 0x7B :: Utf8.encode cs := rfl
  rw [bytes, chars, hopen, Utf8.encode_append]
  rfl

theorem encode_items (x y : Json) (rest : List Json) :
    Utf8.encode (itemChars (x :: y :: rest)) =
      x.bytes ++ 0x2C :: Utf8.encode (itemChars (y :: rest)) := by
  have hcomma (cs : List Char) : Utf8.encode (',' :: cs) = 0x2C :: Utf8.encode cs := rfl
  rw [itemChars, Utf8.encode_append, hcomma]
  rfl

/-- The first field, and what stands behind it. -/
theorem encode_fields (k : String) (x : Json) (rest : List (String × Json)) :
    Utf8.encode (fieldChars ((k, x) :: rest)) =
      0x22 :: (Utf8.encode (k.toList.flatMap escape) ++ 0x22 :: 0x3A :: (x.bytes ++
        if rest.isEmpty then [] else 0x2C :: Utf8.encode (fieldChars rest))) := by
  have hcolon (cs : List Char) : Utf8.encode (':' :: cs) = 0x3A :: Utf8.encode cs := rfl
  have hcomma (cs : List Char) : Utf8.encode (',' :: cs) = 0x2C :: Utf8.encode cs := rfl
  cases rest with
  | nil => simp [fieldChars, Utf8.encode_append, encode_quote, hcolon, bytes]
  | cons y rest => simp [fieldChars, Utf8.encode_append, encode_quote, hcolon, hcomma, bytes]

theorem number_head (w : Whole) :
    ∃ b r, (num (.int w)).bytes = b :: r ∧ (b = 0x2D ∨ (Numeral.digit? b).isSome) := by
  have hchars : (num (.int w)).bytes = Utf8.encode
      (if w.val < 0 then '-' :: Nat.toDigits 10 w.val.natAbs
        else Nat.toDigits 10 w.val.natAbs) := rfl
  rw [hchars]
  split
  · exact ⟨0x2D, _, rfl, .inl rfl⟩
  · obtain ⟨c, cs, hcs, -⟩ := Numeral.toDigits_head w.val.natAbs
    have hc : c.isDigit = true := Numeral.isDigit_of_mem (n := w.val.natAbs) (by simp [hcs])
    refine ⟨c.toNat.toUInt8, Utf8.encode cs, ?_, .inr ?_⟩
    · rw [hcs, Numeral.encode_cons_of_isDigit hc]
    · rw [Numeral.digit?_of_isDigit hc]
      rfl

/-- A byte that a number begins with is none of those that other values begin with. -/
theorem begins_of_number {b : UInt8} (h : b = 0x2D ∨ (Numeral.digit? b).isSome) :
    Begins b ∧ b ∉ [0x22, 0x5B, 0x7B, 0x6E, 0x74, 0x66] := by
  rcases h with rfl | h
  · exact ⟨⟨rfl, by decide⟩, by decide⟩
  · have hne (x : UInt8) (hx : Numeral.digit? x = none) : b ≠ x := by
      intro hb
      rw [hb, hx] at h
      cases h
    refine ⟨⟨?_, hne _ rfl⟩, ?_⟩
    · simp [isSpace, hne 0x20 rfl, hne 0x09 rfl, hne 0x0A rfl, hne 0x0D rfl]
    · simp [hne 0x22 rfl, hne 0x5B rfl, hne 0x7B rfl, hne 0x6E rfl, hne 0x74 rfl, hne 0x66 rfl]

theorem bytes_head {j : Json} (h : j.isExact) : ∃ b r, j.bytes = b :: r ∧ Begins b := by
  cases j with
  | null => exact ⟨0x6E, _, rfl, rfl, by decide⟩
  | bool b =>
    cases b
    · exact ⟨0x66, _, rfl, rfl, by decide⟩
    · exact ⟨0x74, _, rfl, rfl, by decide⟩
  | num n =>
    cases n with
    | int w =>
      obtain ⟨b, r, hb, hhead⟩ := number_head w
      exact ⟨b, r, hb, (begins_of_number hhead).1⟩
    | float x => cases h
  | str s => exact ⟨0x22, _, encode_quote s, rfl, by decide⟩
  | arr items => exact ⟨0x5B, _, bytes_arr items, rfl, by decide⟩
  | obj fields => exact ⟨0x7B, _, bytes_obj fields, rfl, by decide⟩

theorem items_head {x : Json} {xs : List Json} (h : isExactItems (x :: xs)) :
    ∃ b r, Utf8.encode (itemChars (x :: xs)) = b :: r ∧ Begins b := by
  obtain ⟨b, r, hbytes, hb⟩ := bytes_head (isExactItems_cons.mp h).1
  cases xs with
  | nil => exact ⟨b, r, hbytes, hb⟩
  | cons y xs =>
    refine ⟨b, r ++ 0x2C :: Utf8.encode (itemChars (y :: xs)), ?_, hb⟩
    rw [encode_items, hbytes, List.cons_append]

theorem readTree_number (w : Whole) (fuel : Nat) {rest : List UInt8} (hrest : Numeral.Ends rest) :
    readTree (fuel + 1) ((num (.int w)).bytes ++ rest) = ((num (.int w)).tree, some rest) := by
  have hread : Numeral.read ((num (.int w)).bytes ++ rest) = (.clean (.int w), some rest) :=
    Numeral.read_chars w hrest
  obtain ⟨b, r, hb, hhead⟩ := number_head w
  obtain ⟨hbegins, hother⟩ := begins_of_number hhead
  rw [hb, List.cons_append] at hread ⊢
  simp only [List.mem_cons, List.not_mem_nil, or_false, not_or] at hother
  obtain ⟨hquote, hbracket, hbrace, hn, ht, hf⟩ := hother
  have hplain : readPlain (b :: (r ++ rest)) = ((num (.int w)).tree, some rest) := by
    unfold readPlain
    split
    · next heq => cases heq
    · next heq => exact absurd (List.cons.inj heq).1 hn
    · next heq => exact absurd (List.cons.inj heq).1 ht
    · next heq => exact absurd (List.cons.inj heq).1 hf
    · next b' r' _ _ _ heq =>
      obtain ⟨rfl, rfl⟩ := List.cons.inj heq
      rw [if_pos hhead, hread]
      rfl
  unfold readTree
  rw [skipSpace_of_begins hbegins]
  split
  · next heq => exact absurd (List.cons.inj heq).1 hquote
  · next heq => exact absurd (List.cons.inj heq).1 hbracket
  · next heq => exact absurd (List.cons.inj heq).1 hbrace
  · exact hplain

theorem ends_of_comma (r : List UInt8) : Numeral.Ends (0x2C :: r) := by
  refine ⟨rfl, ?_, ?_, ?_⟩ <;> decide

theorem ends_of_bracket (r : List UInt8) : Numeral.Ends (0x5D :: r) := by
  refine ⟨rfl, ?_, ?_, ?_⟩ <;> decide

theorem ends_of_brace (r : List UInt8) : Numeral.Ends (0x7D :: r) := by
  refine ⟨rfl, ?_, ?_, ?_⟩ <;> decide

theorem length_pos_of_isExact {j : Json} (h : j.isExact) : 0 < j.bytes.length := by
  obtain ⟨b, r, hbytes, -⟩ := bytes_head h
  rw [hbytes]
  exact Nat.succ_pos _

section Productions
variable (fuel : Nat)

theorem readTree_quote (r : List UInt8) :
    readTree (fuel + 1) (0x22 :: r) = (.text (Quoted.read r).1, (Quoted.read r).2) := rfl

theorem readTree_bracket {b : UInt8} (hb : Begins b) (r : List UInt8) :
    readTree (fuel + 1) (0x5B :: b :: r) =
      (.array (readItems fuel (b :: r)).1 (readItems fuel (b :: r)).2.1,
        (readItems fuel (b :: r)).2.2) := by
  have hopen : skipSpace (0x5B :: b :: r) = 0x5B :: b :: r := rfl
  rw [readTree, hopen]
  simp only [skipSpace_of_begins hb]
  split
  · next heq => cases heq
  · next heq => exact absurd (List.cons.inj heq).1 hb.2
  · next heq =>
    cases heq
    rfl

theorem readTree_brace (r : List UInt8) :
    readTree (fuel + 1) (0x7B :: 0x22 :: r) =
      (.object (readFields fuel r).1 (readFields fuel r).2.1, (readFields fuel r).2.2) := rfl

variable {fuel} {bs r rest : List UInt8} {t : Tree} {key : Leaf String}

theorem readItems_last (h : readTree fuel bs = (t, some (0x5D :: rest))) :
    readItems (fuel + 1) bs = ([t], .closed, some rest) := by
  have hclose : skipSpace (0x5D :: rest) = 0x5D :: rest := rfl
  rw [readItems, h]
  simp only [hclose]

theorem readItems_comma {b : UInt8} (hb : Begins b)
    (h : readTree fuel bs = (t, some (0x2C :: b :: r))) :
    readItems (fuel + 1) bs =
      (t :: (readItems fuel (b :: r)).1, (readItems fuel (b :: r)).2.1,
        (readItems fuel (b :: r)).2.2) := by
  have hcomma : skipSpace (0x2C :: b :: r) = 0x2C :: b :: r := rfl
  rw [readItems, h]
  simp only [hcomma, skipSpace_of_begins hb]
  split
  · next heq => cases heq
  · next heq => exact absurd (List.cons.inj heq).1 hb.2
  · next heq =>
    cases heq
    rfl

theorem readFields_last (hkey : Quoted.read bs = (key, some (0x3A :: r)))
    (h : readTree fuel r = (t, some (0x7D :: rest))) :
    readFields (fuel + 1) bs = ([(key, t)], .closed, some rest) := by
  have hcolon : skipSpace (0x3A :: r) = 0x3A :: r := rfl
  have hclose : skipSpace (0x7D :: rest) = 0x7D :: rest := rfl
  rw [readFields, hkey]
  simp only [hcolon, h, hclose]

theorem readFields_comma (hkey : Quoted.read bs = (key, some (0x3A :: r)))
    (h : readTree fuel r = (t, some (0x2C :: 0x22 :: rest))) :
    readFields (fuel + 1) bs =
      ((key, t) :: (readFields fuel rest).1, (readFields fuel rest).2.1,
        (readFields fuel rest).2.2) := by
  have hcolon : skipSpace (0x3A :: r) = 0x3A :: r := rfl
  have hcomma : skipSpace (0x2C :: 0x22 :: rest) = 0x2C :: 0x22 :: rest := rfl
  have hquote : skipSpace (0x22 :: rest) = 0x22 :: rest := rfl
  rw [readFields, hkey]
  simp only [hcolon, h, hcomma, hquote]

end Productions

section Steps
variable (fuel : Nat)

/-- Every value takes two steps of fuel for each of its bytes at most. -/
def ReadsTrees : Prop :=
  ∀ j : Json, j.isExact → 2 * j.bytes.length ≤ fuel → ∀ rest, Numeral.Ends rest →
    readTree fuel (j.bytes ++ rest) = (j.tree, some rest)

def ReadsItems : Prop :=
  ∀ x xs, isExactItems (x :: xs) → 2 * (Utf8.encode (itemChars (x :: xs))).length + 1 ≤ fuel →
    ∀ rest, readItems fuel (Utf8.encode (itemChars (x :: xs)) ++ 0x5D :: rest) =
      (treeItems (x :: xs), .closed, some rest)

/-- The first quote is read before the fields are. -/
def ReadsFields : Prop :=
  ∀ k x fields, isExactFields ((k, x) :: fields) →
    2 * (Utf8.encode (fieldChars ((k, x) :: fields))).length ≤ fuel →
    ∀ rest, readFields fuel ((Utf8.encode (fieldChars ((k, x) :: fields))).tail ++ 0x7D :: rest) =
      (treeFields ((k, x) :: fields), .closed, some rest)

variable {fuel}

theorem readsTrees_succ (hitems : ReadsItems fuel) (hfields : ReadsFields fuel) :
    ReadsTrees (fuel + 1) := by
  intro j h hfuel rest hrest
  match j with
  | .null => rfl
  | .bool true => rfl
  | .bool false => rfl
  | .num (.int w) => exact readTree_number w fuel hrest
  | .num (.float x) => cases h
  | .str s =>
    have hbytes : (str s).bytes ++ rest =
        0x22 :: (Utf8.encode (s.toList.flatMap escape) ++ 0x22 :: rest) := by
      rw [bytes, chars, encode_quote, List.cons_append, List.append_assoc, List.singleton_append]
    rw [hbytes, readTree_quote, Quoted.read_quote]
    rfl
  | .arr [] => rfl
  | .arr (x :: xs) =>
    rw [bytes_arr, List.length_cons, List.length_append, List.length_singleton] at hfuel
    have hinner := hitems x xs h (by omega) rest
    obtain ⟨b, r, hbytes, hb⟩ := items_head h
    rw [bytes_arr, List.cons_append, List.append_assoc, List.singleton_append]
    rw [hbytes, List.cons_append] at hinner ⊢
    rw [readTree_bracket fuel hb, hinner]
    rfl
  | .obj [] => rfl
  | .obj ((k, x) :: fields) =>
    rw [bytes_obj, List.length_cons, List.length_append, List.length_singleton] at hfuel
    have hinner := hfields k x fields h (by omega) rest
    rw [bytes_obj, List.cons_append, List.append_assoc, List.singleton_append]
    rw [encode_fields, List.tail_cons] at hinner
    rw [encode_fields, List.cons_append, readTree_brace, hinner]
    rfl

theorem readsItems_succ (htrees : ReadsTrees fuel) (hitems : ReadsItems fuel) :
    ReadsItems (fuel + 1) := by
  intro x xs h hfuel rest
  obtain ⟨hx, hxs⟩ := isExactItems_cons.mp h
  match xs with
  | [] =>
    have hbytes : Utf8.encode (itemChars [x]) = x.bytes := rfl
    rw [hbytes] at hfuel ⊢
    have hfirst := htrees x hx (by omega) _ (ends_of_bracket rest)
    exact readItems_last hfirst
  | y :: ys =>
    obtain ⟨b, r, hbytes, hb⟩ := items_head hxs
    rw [encode_items, List.length_append, List.length_cons] at hfuel
    have hfirst := htrees x hx (by omega) _
      (ends_of_comma (Utf8.encode (itemChars (y :: ys)) ++ 0x5D :: rest))
    have hothers := hitems y ys hxs (by omega) rest
    rw [encode_items, List.append_assoc, List.cons_append]
    rw [hbytes, List.cons_append] at hfirst hothers ⊢
    rw [readItems_comma hb hfirst, hothers]
    rfl

theorem readsFields_succ (htrees : ReadsTrees fuel) (hfields : ReadsFields fuel) :
    ReadsFields (fuel + 1) := by
  intro k x fields h hfuel rest
  obtain ⟨hx, hothers⟩ := isExactFields_cons.mp h
  rw [encode_fields, List.length_cons, List.length_append, List.length_cons, List.length_cons,
    List.length_append] at hfuel
  rw [encode_fields, List.tail_cons, List.append_assoc, List.cons_append, List.cons_append,
    List.append_assoc]
  match fields with
  | [] =>
    have hvalue := htrees x hx (by omega) _ (ends_of_brace rest)
    exact readFields_last (Quoted.read_quote k _) hvalue
  | (k', y) :: fields =>
    have hopen : Utf8.encode (fieldChars ((k', y) :: fields)) =
        0x22 :: (Utf8.encode (fieldChars ((k', y) :: fields))).tail := by
      rw [encode_fields, List.tail_cons]
    simp only [List.isEmpty_cons, Bool.false_eq_true, if_false, List.length_cons] at hfuel ⊢
    have hvalue := htrees x hx (by omega) _
      (ends_of_comma (Utf8.encode (fieldChars ((k', y) :: fields)) ++ 0x7D :: rest))
    have hinner := hfields k' y fields hothers (by omega) rest
    rw [hopen, List.cons_append] at hvalue
    rw [List.cons_append, hopen, List.cons_append,
      readFields_comma (Quoted.read_quote k _) hvalue, hinner]
    rfl

theorem reads (fuel : Nat) : ReadsTrees fuel ∧ ReadsItems fuel ∧ ReadsFields fuel := by
  induction fuel with
  | zero =>
    refine ⟨?_, ?_, ?_⟩
    · intro j h hfuel
      have hpos := length_pos_of_isExact h
      omega
    · intro x xs h hfuel
      omega
    · intro k x fields h hfuel
      rw [encode_fields, List.length_cons] at hfuel
      omega
  | succ fuel ih =>
    obtain ⟨htrees, hitems, hfields⟩ := ih
    exact ⟨readsTrees_succ hitems hfields, readsItems_succ htrees hitems,
      readsFields_succ htrees hfields⟩

end Steps

/-- A written value reads back as its tree, with nothing behind it. -/
theorem readDocument_bytes {j : Json} (h : j.isExact) : readDocument j.bytes = (j.tree, none) := by
  have hread := (reads (2 * j.bytes.length + 2)).1 j h (by omega) [] trivial
  rw [List.append_nil] at hread
  unfold readDocument
  rw [hread]
  rfl

section Visible

/-- No control character is among the characters. -/
def Visible (cs : List Char) : Prop := ∀ c ∈ cs, 0x20 ≤ c.toNat

instance (cs : List Char) : Decidable (Visible cs) := List.decidableBAll _ cs

theorem Visible.cons {c : Char} {cs : List Char} (hc : 0x20 ≤ c.toNat) (h : Visible cs) :
    Visible (c :: cs) :=
  List.forall_mem_cons.mpr ⟨hc, h⟩

theorem Visible.append {cs cs' : List Char} (h : Visible cs) (h' : Visible cs') :
    Visible (cs ++ cs') :=
  List.forall_mem_append.mpr ⟨h, h'⟩

theorem Visible.between {a z : Char} {cs : List Char} (h : Visible cs) (ha : 0x20 ≤ a.toNat)
    (hz : 0x20 ≤ z.toNat) : Visible (a :: (cs ++ [z])) :=
  .cons ha (h.append (.cons hz nofun))

theorem escape_visible (c : Char) : Visible (escape c) := by
  have hcontrol : ∀ n < 0x20, Visible (escape (Char.ofNat n)) := by decide
  by_cases hc : c.toNat < 0x20
  · have hvisible := hcontrol c.toNat hc
    rwa [Char.ofNat_toNat] at hvisible
  · unfold escape
    simp only [hc, if_false]
    split
    · decide
    · split
      · decide
      · exact .cons (Nat.not_lt.mp hc) nofun

theorem quote_visible (s : String) : Visible (quote s) := by
  have hescaped : Visible (s.toList.flatMap escape) := by
    intro c hc
    obtain ⟨c', -, hc⟩ := List.mem_flatMap.mp hc
    exact escape_visible c' c hc
  exact hescaped.between (by decide) (by decide)

theorem number_visible (w : Whole) : Visible (num (.int w)).chars := by
  have hdigits : Visible (Nat.toDigits 10 w.val.natAbs) := by
    intro c hc
    have hrange := Numeral.range_of_isDigit (Numeral.isDigit_of_mem hc)
    omega
  rw [chars, Number.chars]
  split
  · exact .cons (by decide) hdigits
  · exact hdigits

mutual
theorem chars_visible : (j : Json) → j.isExact → Visible j.chars
  | .null, _ => by decide
  | .bool true, _ => by decide
  | .bool false, _ => by decide
  | .num (.int w), _ => number_visible w
  | .num (.float _), h => by cases h
  | .str s, _ => quote_visible s
  | .arr items, h => by
    rw [chars]
    exact (itemChars_visible items h).between (by decide) (by decide)
  | .obj fields, h => by
    rw [chars]
    exact (fieldChars_visible fields h).between (by decide) (by decide)

theorem itemChars_visible : (items : List Json) → isExactItems items → Visible (itemChars items)
  | [], _ => nofun
  | [x], h => chars_visible x (isExactItems_cons.mp h).1
  | x :: y :: rest, h => by
    obtain ⟨hx, hrest⟩ := isExactItems_cons.mp h
    rw [itemChars]
    exact (chars_visible x hx).append (.cons (by decide) (itemChars_visible (y :: rest) hrest))

theorem fieldChars_visible :
    (fields : List (String × Json)) → isExactFields fields → Visible (fieldChars fields)
  | [], _ => nofun
  | [(k, x)], h => by
    obtain ⟨hx, -⟩ := isExactFields_cons.mp h
    rw [fieldChars]
    exact (quote_visible k).append (.cons (by decide) (chars_visible x hx))
  | (k, x) :: y :: rest, h => by
    obtain ⟨hx, hrest⟩ := isExactFields_cons.mp h
    rw [fieldChars]
    exact (quote_visible k).append (.cons (by decide) ((chars_visible x hx).append
      (.cons (by decide) (fieldChars_visible (y :: rest) hrest))))
end

end Visible

end ChatDialect.Json
