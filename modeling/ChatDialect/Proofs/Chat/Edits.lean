import ChatDialect.Proofs.Chat.Recognised
import ChatDialect.Proofs.Json.Edits

/-! Edits of the content of a message in the text of a request. Whatever is written there is read,
and nothing else in the request is read differently. -/
namespace ChatDialect.Chat

open Json Json.Codec

/-- The content that a message has from a value: none from `null`. -/
def Content.ofJson? : Json → Option Content
  | .null => none
  | j => some (ofJson j)

/-- Content is read from whatever is a value. -/
theorem Content.decode_eq (src : Source) (t : Tree) :
    codec.option.decode src t = (value.decode src t).map ofJson? := by
  by_cases hnull : ∃ broken, t = .null broken
  · obtain ⟨broken, rfl⟩ := hnull
    cases broken <;> rfl
  · have ht : ∀ broken, t ≠ .null broken := fun broken h => hnull ⟨broken, h⟩
    have hdecode : codec.option.decode src t = (codec.decode src t).map some := by
      cases t with
      | null broken => exact absurd rfl (ht broken)
      | _ => rfl
    rw [hdecode]
    simp only [codec, buffered, value, bind, Except.bind]
    cases hj : t.buffer src with
    | error e => rfl
    | ok j =>
      have hvalue : j.normalize ≠ .null :=
        normalize_ne_null fun h => buffer_ne_null ht (h ▸ hj)
      simp only [Except.map, pure, Except.pure, ofJson?]

variable {R : Tree → Tree → Prop} {bs bs' : List UInt8} {r : Request} {t' u : Tree} {j : Json}

/-- One more item of a list of blocks is one more block. -/
theorem Content.follows_inserted {src inner : Source} (henter : src.enter = .ok inner)
    (hu : value.decode inner u = .ok j) :
    codec.option.Follows src (Tree.Inserted u) fun content content' =>
      ∃ before after, content = some (.blocks (before ++ after)) ∧
        content' = some (.blocks (before ++ Block.ofJson j :: after)) := by
  intro t t' content hedit hread
  rw [decode_eq] at hread
  cases hvalue : value.decode src t with
  | error e =>
    rw [hvalue] at hread
    cases hread
  | ok k =>
    rw [hvalue] at hread
    cases hread
    obtain ⟨k', hk', before, after, rfl, rfl⟩ := value_follows henter hu t t' k hedit hvalue
    refine ⟨ofJson? (.arr (before ++ j :: after)), ?_, before.map Block.ofJson,
      after.map Block.ofJson, ?_, ?_⟩
    · rw [decode_eq, hk']
      rfl
    · rw [← List.map_append]
      rfl
    · rw [← List.map_cons, ← List.map_append]
      rfl

/-- A message follows its content. -/
theorem Message.follows_content {src inner : Source} (henter : src.enter = .ok inner)
    {S : Option Content → Option Content → Prop} (h : Content.codec.option.Follows inner R S) :
    codec.Follows src (Tree.AtField "content" 1 R) fun m m' =>
      ∃ content, S m.content content ∧ m' = { m with content } := by
  refine record_follows ?_ (.there _ (.here _ _)) ?_ henter h
  · exact fun _ => rfl
  · exact ⟨rfl, rfl⟩

/-- A message takes any value for its content. -/
theorem Message.follows_value {src inner : Source} (henter : src.enter = .ok inner)
    (hu : value.decode inner u = .ok j) :
    codec.Follows src (Tree.WithField "content" 1 u) fun m m' =>
      m' = { m with content := Content.ofJson? j } := by
  refine record_withField ?_ (.there _ (.here _ _)) ?_ ?_ henter ?_
  · exact fun _ => rfl
  · exact ⟨rfl, rfl⟩
  · rintro key ⟨-, hkey⟩
    exact (eq_of_beq ((Bool.or_false _).symm.trans hkey)).symm
  · exact (Content.decode_eq inner u).trans (congrArg (Except.map Content.ofJson?) hu)

/-- A request follows its messages. -/
theorem Request.follows_messages {src inner : Source} (henter : src.enter = .ok inner)
    {S : List Message → List Message → Prop} (h : Message.codec.list.Follows inner R S) :
    codec.Follows src (Tree.AtField "messages" 1 R) fun r r' =>
      ∃ messages, S r.messages messages ∧ r' = { r with messages } := by
  refine record_follows ?_ (.there _ (.here _ _)) ?_ henter h
  · exact fun _ => rfl
  · exact ⟨rfl, rfl⟩

/-- A text in which one message was edited is read as the request with that message edited. -/
theorem Request.read_edited {S : Message → Message → Prop}
    (h : Message.codec.Follows (.text (nestingLimit - 2)) R S) (hread : codec.read bs = .ok r)
    (hbs' : readDocument bs' = (t', none))
    (hedit : Tree.AtField "messages" 1 (Tree.AtItem R) (readDocument bs).1 t') :
    ∃ messages, AtOne S r.messages messages ∧ codec.read bs' = .ok { r with messages } := by
  have hlist : Message.codec.list.Follows (.text (nestingLimit - 1)) (Tree.AtItem R) (AtOne S) :=
    list_follows rfl h
  have henter : (Source.text nestingLimit).enter = .ok (.text (nestingLimit - 1)) := rfl
  have hrequest := follows_messages henter hlist
  obtain ⟨r', hr', hread⟩ := exists_of_bind hread
  obtain ⟨_, -, hread⟩ := exists_of_bind hread
  cases hread
  obtain ⟨_, hback, messages, hmessages, rfl⟩ := hrequest _ _ _ hedit hr'
  refine ⟨messages, hmessages, ?_⟩
  simp only [Codec.read, hbs', hback, bind, Except.bind]
  rfl

end ChatDialect.Chat
