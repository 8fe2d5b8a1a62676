import ChatDialect.Proofs.Anthropic.Identity
import ChatDialect.Proofs.Vertex.CallNumbers

/-! The assistant is announced once in a stream: by the first chunk that has choices, in all of
them. -/
namespace ChatDialect

namespace Chat

/-- The first chunk that has choices announces the assistant in all of them, unless that was
`announced` before, and no other does. -/
def Announced (announced : Bool) : List Chunk → Prop
  | [] => True
  | c :: rest =>
    (∀ choice ∈ c.choices, choice.delta.role = if announced then none else some "assistant") ∧
      Announced (announced || !c.choices.isEmpty) rest

variable {announced : Bool}

theorem announced_append (xs ys : List Chunk) :
    Announced announced (xs ++ ys) ↔
      Announced announced xs ∧ Announced (announced || !(said xs).isEmpty) ys := by
  induction xs generalizing announced with
  | nil => simp [Announced]
  | cons c xs ih =>
    have hsaid : (said (c :: xs)).isEmpty = (c.choices.isEmpty && (said xs).isEmpty) := by
      cases h : c.choices <;> simp [said, h]
    rw [List.cons_append, Announced, Announced, ih, hsaid, and_assoc, Bool.not_and, Bool.or_assoc]

/-- What a chunk announces depends on what was said before it. -/
theorem Announced.role {before after : List Chunk} {c : Chunk} {choice : ChunkChoice}
    (h : Announced false (before ++ c :: after)) (hchoice : choice ∈ c.choices) :
    choice.delta.role = if said before = [] then some "assistant" else none := by
  rw [announced_append, Announced] at h
  rw [h.2.1 choice hchoice]
  cases said before <;> rfl

/-- If every step announces as a flag of the state tells and keeps the flag up to date, so does the
whole run. -/
theorem announced_chunksFrom {σ α : Type} (step : σ → α → σ × Step) (flag : σ → Bool)
    (hstep : ∀ s a, Announced (flag s) (step s a).2.passed ∧
      flag (step s a).1 = (flag s || !(said (step s a).2.passed).isEmpty))
    (s : σ) (inputs : List α) : Announced (flag s) (chunksFrom step s inputs) := by
  induction inputs generalizing s with
  | nil => trivial
  | cons a rest ih =>
    rw [chunksFrom_cons, announced_append, ← (hstep s a).2]
    exact ⟨(hstep s a).1, ih _⟩

end Chat

open Chat

theorem Anthropic.Stream.announced_event (s : Anthropic.Stream) (e : Anthropic.Event) :
    Announced s.announced (s.event e).2.passed ∧
      (s.event e).1.announced = (s.announced || !(said (s.event e).2.passed).isEmpty) := by
  have hrole := (s.utterance?_views e).2.2.2.2.2
  rw [event_passed, event_state]
  cases hu : s.utterance? e with
  | none => simp [Announced]
  | some u =>
    rw [hu, Option.bind_some] at hrole
    have hsaid : said [(s.noting e).chunkOf u] =
        [⟨0, (s.noting e).announcing u.delta, u.finish⟩] := rfl
    refine ⟨⟨?_, trivial⟩, ?_⟩
    · intro choice hchoice
      obtain rfl : choice = ⟨0, (s.noting e).announcing u.delta, u.finish⟩ :=
        List.mem_singleton.mp hchoice
      simp only [announcing, noting_announced, hrole]
    · simp only [Option.toList_some, List.map_singleton, hsaid]
      rfl

theorem Vertex.Stream.announced_response (s : Vertex.Stream) (r : Vertex.Response) :
    Announced s.announced (s.response r).2.passed ∧
      (s.response r).1.announced = (s.announced || !(said (s.response r).2.passed).isEmpty) := by
  constructor
  · rw [response_passed, chunk?]
    split
    · trivial
    · refine ⟨?_, trivial⟩
      intro choice hchoice
      cases hs : s.announced with
      | true =>
        simp only [hs, if_true] at hchoice
        exact (s.mem_choices hchoice).2
      | false =>
        obtain ⟨c, _, rfl⟩ : ∃ c ∈ s.choices r, announce c = choice := by
          simpa [hs, Chunk.ofChoices] using hchoice
        rfl
  · rw [said_response, response_eq]
    cases s.announced <;> simp

/-- An Anthropic payload gives at most one chunk, which has one choice, and the first of all chunks
announces the assistant. In a Vertex stream the first chunk that has choices does so in each of them.
Nothing else announces anything. -/
theorem announced_once (model : String) (now : Int64) (ids : Ids) (texts : List String) :
    (∀ s text, (Anthropic.Stream.payload s text).2.passed.length ≤ 1) ∧
      (∀ before c after,
        chunksFrom Anthropic.Stream.payload (.new model now ids) texts = before ++ c :: after →
          ∃ delta finish, c.choices = [⟨0, delta, finish⟩] ∧
            delta.role = if before = [] then some "assistant" else none) ∧
      ∀ before c after,
        chunksFrom Vertex.Stream.payload (.new model now ids) texts = before ++ c :: after →
          ∀ choice ∈ c.choices, choice.delta.role =
            if ∀ b ∈ before, b.choices = [] then some "assistant" else none := by
  refine ⟨?_, ?_, ?_⟩
  · intro s text
    rw [Anthropic.Stream.payload_eq]
    cases Anthropic.Event.ofText? text with
    | none => simp
    | some e =>
      rw [Anthropic.Stream.event_passed, List.length_map]
      exact Option.length_toList_le
  · intro before c after hchunks
    rw [Anthropic.Stream.chunksFrom_payload] at hchunks
    have hannounced := announced_chunksFrom Anthropic.Stream.event (·.announced)
      Anthropic.Stream.announced_event (.new model now ids) (texts.filterMap Anthropic.Event.ofText?)
    have hone := Anthropic.Stream.choices_chunksFrom (.new model now ids)
      (texts.filterMap Anthropic.Event.ofText?)
    rw [hchunks] at hone
    obtain ⟨delta, finish, hchoices⟩ := hone c (by simp)
    have hchoice : ⟨0, delta, finish⟩ ∈ c.choices := by simp [hchoices]
    rw [hchunks] at hannounced
    have hrole := hannounced.role hchoice
    have hfirst : said before = [] ↔ before = [] := by
      cases before with
      | nil => simp
      | cons b before =>
        obtain ⟨_, _, hb⟩ := hone b (by simp)
        simp [said, hb]
    simp only [hfirst] at hrole
    exact ⟨delta, finish, hchoices, hrole⟩
  · intro before c after hchunks choice hchoice
    rw [Vertex.Stream.chunksFrom_payload] at hchunks
    have hannounced := announced_chunksFrom Vertex.Stream.response (·.announced)
      Vertex.Stream.announced_response (.new model now ids)
      (texts.filterMap Vertex.Response.ofText?)
    rw [hchunks] at hannounced
    have hfirst : said before = [] ↔ ∀ b ∈ before, b.choices = [] := List.flatMap_eq_nil_iff
    have hrole := hannounced.role hchoice
    simp only [hfirst] at hrole
    exact hrole

/-- Tokens are counted before anything is said. -/
def countText : String := "\x7b\"usageMetadata\":\x7b\x7d\x7d"

theorem ofText?_countText : Vertex.Response.ofText? countText =
    some ⟨[], some ⟨0, 0, none, none, none, [], []⟩, none, none, none⟩ :=
  Vertex.Response.ofText?_eq_some
    (.object [(.clean "usageMetadata", .object [] .closed)] .closed) (by decide) (by cbv) (by cbv)

theorem announced_after_count :
    let ids := Ids.ofSource (.sequential "chatcmpl-t")
    let greetings := chunksFrom Anthropic.Stream.payload (.new "m" 7 ids)
      [Anthropic.greetingText, Anthropic.greetingText]
    let rolls := chunksFrom Vertex.Stream.payload (.new "m" 7 ids)
      [countText, Vertex.rollText, Vertex.rollText]
    (∃ c d, greetings = [c, d] ∧ c.choices.map (·.delta.role) = [some "assistant"] ∧
      d.choices.map (·.delta.role) = [none]) ∧
      ∃ a b c, rolls = [a, b, c] ∧ a.choices = [] ∧ b.choices ≠ [] ∧
        (∀ choice ∈ b.choices, choice.delta.role = some "assistant") ∧
        ∀ choice ∈ c.choices, choice.delta.role = none := by
  intro ids greetings rolls
  have hgreetings : ∃ c d, greetings = [c, d] := by
    simp only [greetings, Anthropic.Stream.chunksFrom_payload, List.filterMap_cons,
      List.filterMap_nil, Anthropic.ofText?_greetingText]
    exact ⟨_, _, rfl⟩
  have hrolls : ∃ a b c, rolls = [a, b, c] ∧ a.choices = [] ∧ b.choices ≠ [] := by
    simp only [rolls, Vertex.Stream.chunksFrom_payload, List.filterMap_cons, List.filterMap_nil,
      ofText?_countText, Vertex.ofText?_rollText]
    exact ⟨_, _, _, rfl, rfl, by decide⟩
  constructor
  · obtain ⟨c, d, hchunks⟩ := hgreetings
    obtain ⟨-, hrole, -⟩ :=
      announced_once "m" 7 ids [Anthropic.greetingText, Anthropic.greetingText]
    obtain ⟨_, _, hc, hcrole⟩ := hrole [] c [d] hchunks
    obtain ⟨_, _, hd, hdrole⟩ := hrole [c] d [] hchunks
    exact ⟨c, d, hchunks, by simp [hc, hcrole], by simp [hd, hdrole]⟩
  · obtain ⟨a, b, c, hchunks, ha, hb⟩ := hrolls
    obtain ⟨-, -, hrole⟩ :=
      announced_once "m" 7 ids [countText, Vertex.rollText, Vertex.rollText]
    have hbrole := hrole [a] b [c] hchunks
    have hcrole := hrole [a, b] c [] hchunks
    exact ⟨a, b, c, hchunks, ha, hb, by simpa [ha] using hbrole, by simpa [hb] using hcrole⟩

end ChatDialect
