import ChatDialect.Vertex.ToChat

/-! The choices of a response, one for each candidate, and the ids that their tool calls get. -/
namespace ChatDialect.Vertex

/-- The calls are numbered on from the next id. -/
theorem nameCalls_eq (ids : Ids) (calls : List FunctionCall) :
    nameCalls ids calls =
      ((calls.zipIdx ids.next).map fun (call, n) =>
        .ofFunction (ids.source.toolCall n) call.name (Chat.Arguments.print call.args),
        { ids with next := ids.next + calls.length }) := by
  induction calls generalizing ids with
  | nil => rfl
  | cons call calls ih =>
    have hlength : ids.next + 1 + calls.length = ids.next + (calls.length + 1) := by omega
    simp only [nameCalls, Ids.newToolCall, ih, hlength]
    rfl

theorem map_id_nameCalls (ids : Ids) (calls : List FunctionCall) :
    (nameCalls ids calls).1.map (·.id) =
      (List.range' ids.next calls.length).map ids.source.toolCall := by
  rw [nameCalls_eq, List.map_map, ← List.zipIdx_map_snd ids.next calls, List.map_map]
  rfl

/-- A candidate takes as many ids as it has calls. -/
theorem Candidate.ids_choice (c : Candidate) (position : Nat) (ids : Ids) :
    (c.choice position ids).2 = { ids with next := ids.next + (callsOf c.parts).length } := by
  rw [choice, nameCalls_eq]

theorem length_choicesFrom (position : Nat) (ids : Ids) (cs : List Candidate) :
    (choicesFrom position ids cs).1.length = cs.length := by
  induction cs generalizing position ids with
  | nil => rfl
  | cons c cs ih => rw [choicesFrom, List.length_cons, ih, List.length_cons]

/-- A choice is the one of its candidate, drawing its ids from the same source. -/
theorem getElem?_choicesFrom {cs : List Candidate} {c : Candidate} {i : Nat} (h : cs[i]? = some c)
    (position : Nat) (ids : Ids) :
    ∃ next, ids.next ≤ next ∧ (choicesFrom position ids cs).1[i]? =
      some (c.choice (position + i) { ids with next }).1 := by
  induction cs generalizing i position ids with
  | nil => cases h
  | cons first cs ih =>
    have hids := first.ids_choice position ids
    cases i with
    | zero =>
      cases h
      exact ⟨ids.next, Nat.le_refl _, rfl⟩
    | succ i =>
      have hlater : (choicesFrom position ids (first :: cs)).1[i + 1]? =
          (choicesFrom (position + 1) (first.choice position ids).2 cs).1[i]? := rfl
      obtain ⟨next, hnext, hchoice⟩ := ih h (position + 1) (first.choice position ids).2
      rw [hids] at hnext hchoice
      rw [hlater, hids, hchoice, Nat.add_right_comm, Nat.add_assoc]
      exact ⟨next, Nat.le_trans (Nat.le_add_right _ _) hnext, rfl⟩

/-- The ids that are left for the choices: a response without an id takes one first. -/
def Response.idsLeft (r : Response) (ids : Ids) : Ids :=
  { ids with next := if r.responseId.isSome then ids.next else ids.next + 1 }

theorem Response.le_idsLeft (r : Response) (ids : Ids) : ids.next ≤ (r.idsLeft ids).next := by
  unfold idsLeft
  dsimp only
  split
  · exact Nat.le_refl _
  · exact Nat.le_succ _

/-- With candidates the response has their choices, otherwise one that holds a placeholder. -/
theorem Response.toChat_choices (r : Response) (model : String) (now : Int64) (ids : Ids) :
    (r.toChat model now ids).1.choices =
      if r.candidates.isEmpty then [emptyChoice r.blockReason?.isSome]
      else (choicesFrom 0 (r.idsLeft ids) r.candidates).1 := by
  have hempty (ids : Ids) : (choicesFrom 0 ids r.candidates).1.isEmpty = r.candidates.isEmpty := by
    rw [Bool.eq_iff_iff, List.isEmpty_iff_length_eq_zero, length_choicesFrom,
      List.isEmpty_iff_length_eq_zero]
  cases h : r.responseId with
  | none => simp [toChat, idsLeft, h, hempty, Ids.newResponse]
  | some id => simp [toChat, idsLeft, h, hempty]

end ChatDialect.Vertex
