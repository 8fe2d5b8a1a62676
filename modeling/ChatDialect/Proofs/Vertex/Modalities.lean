import Mathlib
import ChatDialect.Proofs.Json.FieldRef
import ChatDialect.Proofs.Requests
import ChatDialect.Proofs.Text.Spelling

/-! Modalities of a response. A request may ask for them in three places. What is sent is the union
of the lists without repetitions, in the order of first sight; letter case and the blanks around a
name make no difference. -/
namespace ChatDialect.Vertex

theorem toList_modalityName (s : String) :
    (modalityName s).toList = (Text.trimChars s.toList).map Char.toUpper := by
  rw [modalityName, Text.upper, String.toList_ofList, Text.toList_trim]

/-- Two entries give one name if and only if one is the other in another spelling. -/
theorem modalityName_eq_iff {s t : String} :
    modalityName s = modalityName t ↔ Text.Respelled s t := by
  rw [← String.toList_inj, toList_modalityName, toList_modalityName]
  constructor
  · intro h
    exact ⟨_, _, Text.padded_trimChars s, Text.padded_trimChars t, Text.map_toUpper_eq_iff.mp h⟩
  · rintro ⟨core, core', hs, ht, hcore⟩
    have hupper := Text.map_toUpper_eq_iff.mpr hcore
    rw [hs.trimChars, ht.trimChars, ← Text.trimChars_map_toUpper, hupper,
      Text.trimChars_map_toUpper]

/-- A name is its own name. -/
theorem modalityName_modalityName (s : String) : modalityName (modalityName s) = modalityName s := by
  rw [← String.toList_inj, toList_modalityName, toList_modalityName, Text.trimChars_map_toUpper,
    Text.trimChars_trimChars, List.map_map]
  simp [Function.comp_def]

/-- The names that entries give; blank entries give none. -/
def namesOf (entries : List String) : List String := (entries.map modalityName).filter (· ≠ "")

/-- The members of `names` without repetitions, in the order in which they first stand there. -/
structure ListsOnce (names out : List String) : Prop where
  nodup : out.Nodup
  mem_iff (name : String) : name ∈ out ↔ name ∈ names
  ordered : out.Pairwise fun a b => names.idxOf a < names.idxOf b

namespace ListsOnce

variable {names out : List String}

theorem nil : ListsOnce [] [] := ⟨.nil, fun _ => .rfl, .nil⟩

/-- There is only one such list. -/
theorem unique {out' : List String} (h : ListsOnce names out) (h' : ListsOnce names out') :
    out = out' := by
  have hsame : out.Perm out' := (List.perm_ext_iff_of_nodup h.nodup h'.nodup).mpr fun name =>
    (h.mem_iff name).trans (h'.mem_iff name).symm
  refine hsame.eq_of_pairwise ?_ h.ordered h'.ordered
  intro a b _ _ hab hba
  exact absurd hba hab.asymm

/-- A list without repetitions is as it should be. -/
theorem self (h : out.Nodup) : ListsOnce out out := by
  refine ⟨h, fun _ => .rfl, List.pairwise_iff_getElem.mpr ?_⟩
  intro i j hi hj hij
  rwa [h.idxOf_getElem i hi, h.idxOf_getElem j hj]

/-- One more name goes to the end, unless it was seen before. -/
theorem concat (h : ListsOnce names out) (name : String) :
    ListsOnce (names ++ [name]) (if name ∈ out then out else out ++ [name]) := by
  have hold : out.Pairwise fun a b =>
      (names ++ [name]).idxOf a < (names ++ [name]).idxOf b := by
    refine h.ordered.imp_of_mem ?_
    intro a b ha hb hab
    rwa [List.idxOf_append_of_mem ((h.mem_iff a).mp ha),
      List.idxOf_append_of_mem ((h.mem_iff b).mp hb)]
  split_ifs with hseen
  · refine ⟨h.nodup, ?_, hold⟩
    intro other
    rw [List.mem_append, List.mem_singleton, ← h.mem_iff]
    exact ⟨.inl, fun hother => hother.elim id fun heq => heq ▸ hseen⟩
  · have hnew : name ∉ names := mt (h.mem_iff name).mpr hseen
    refine ⟨?_, ?_, ?_⟩
    · refine List.nodup_append.mpr ⟨h.nodup, List.nodup_singleton name, ?_⟩
      intro a ha b hb heq
      rw [List.mem_singleton] at hb
      exact hseen (hb ▸ heq ▸ ha)
    · intro other
      rw [List.mem_append, List.mem_append, h.mem_iff]
    · refine List.pairwise_append.mpr ⟨hold, List.pairwise_singleton _ _, ?_⟩
      intro a ha b hb
      rw [List.mem_singleton] at hb
      have hmem := (h.mem_iff a).mp ha
      have hbefore : names.idxOf a < names.length := List.idxOf_lt_length_iff.mpr hmem
      rw [hb, List.idxOf_append_of_mem hmem, List.idxOf_append_of_notMem hnew]
      omega

end ListsOnce

/-- One more entry, after the names that were seen. -/
def addModality (seen : List String) (s : String) : List String :=
  if modalityName s = "" ∨ modalityName s ∈ seen then seen else seen ++ [modalityName s]

theorem collectModalities_eq (lists : List (List String)) :
    collectModalities lists = lists.flatten.foldl addModality [] := rfl

theorem namesOf_append (entries more : List String) :
    namesOf (entries ++ more) = namesOf entries ++ namesOf more := by
  rw [namesOf, List.map_append, List.filter_append]
  rfl

/-- What one more entry keeps. -/
theorem ListsOnce.addModality {entries seen : List String} (h : ListsOnce (namesOf entries) seen)
    (s : String) : ListsOnce (namesOf (entries ++ [s])) (addModality seen s) := by
  rw [namesOf_append]
  unfold Vertex.addModality
  by_cases hblank : modalityName s = ""
  · have hnone : namesOf [s] = [] := by simp [namesOf, hblank]
    rw [hnone, List.append_nil, if_pos (.inl hblank)]
    exact h
  · have hone : namesOf [s] = [modalityName s] := by simp [namesOf, hblank]
    rw [hone]
    simp only [hblank, false_or]
    exact h.concat (modalityName s)

/-- By induction on the entries that are left, from what one more entry keeps. -/
theorem ListsOnce.foldl {entries seen : List String} (h : ListsOnce (namesOf entries) seen)
    (more : List String) :
    ListsOnce (namesOf (entries ++ more)) (more.foldl Vertex.addModality seen) := by
  induction more generalizing entries seen with
  | nil => rwa [List.append_nil]
  | cons s more ih =>
    have hrest := ih (h.addModality s)
    rw [List.append_assoc, List.singleton_append] at hrest
    rw [List.foldl_cons]
    exact hrest

theorem listsOnce_collected (entries : List String) :
    ListsOnce (namesOf entries) (entries.foldl addModality []) := by
  have hnone : ListsOnce (namesOf []) [] := .nil
  exact hnone.foldl entries

theorem mem_collected {entries : List String} {name : String} :
    name ∈ entries.foldl addModality [] ↔ name ≠ "" ∧ ∃ s ∈ entries, modalityName s = name := by
  rw [(listsOnce_collected entries).mem_iff, namesOf, List.mem_filter, List.mem_map,
    decide_eq_true_iff]
  exact and_comm

/-- What was collected is collected again. -/
theorem collected_collected (entries : List String) :
    (entries.foldl addModality []).foldl addModality [] = entries.foldl addModality [] := by
  have honce := listsOnce_collected entries
  have hnames : namesOf (entries.foldl addModality []) = entries.foldl addModality [] := by
    have hkept : ∀ name ∈ entries.foldl addModality [],
        name ≠ "" ∧ modalityName name = name := by
      intro name hname
      obtain ⟨hne, s, -, rfl⟩ := mem_collected.mp hname
      exact ⟨hne, modalityName_modalityName s⟩
    have hmap : (entries.foldl addModality []).map modalityName =
        (entries.foldl addModality []).map id :=
      List.map_congr_left fun name hname => (hkept name hname).2
    rw [namesOf, hmap, List.map_id, List.filter_eq_self]
    intro name hname
    exact decide_eq_true (hkept name hname).1
  have hagain := listsOnce_collected (entries.foldl addModality [])
  rw [hnames] at hagain
  exact hagain.unique (.self honce.nodup)

/-- `more` has the entries of `entries` and, behind some of them, these again in other spellings. -/
inductive Repeats (entries : List String) : List String → Prop
  | none : Repeats entries entries
  | again {front rest : List String} {s t : String} (h : Repeats entries (front ++ rest))
    (hs : s ∈ front) (ht : Text.Respelled s t) : Repeats entries (front ++ t :: rest)

/-- An entry that comes again is not seen any more. -/
theorem collected_again {front rest : List String} {s t : String} (hs : s ∈ front)
    (ht : Text.Respelled s t) :
    (front ++ t :: rest).foldl addModality [] = (front ++ rest).foldl addModality [] := by
  have hname : modalityName t = modalityName s := (modalityName_eq_iff.mpr ht).symm
  have hseen : addModality (front.foldl addModality []) t = front.foldl addModality [] := by
    refine if_pos ?_
    rw [hname]
    by_cases hblank : modalityName s = ""
    · exact .inl hblank
    · exact .inr (mem_collected.mpr ⟨hblank, s, hs, rfl⟩)
  rw [List.foldl_append, List.foldl_append, List.foldl_cons, hseen]

theorem Repeats.collected {entries more : List String} (h : Repeats entries more) :
    more.foldl addModality [] = entries.foldl addModality [] := by
  induction h with
  | none => rfl
  | again _ hs ht ih => rw [collected_again hs ht, ih]

/-- The modalities that a request asks for: itself, in its extensions, and in the generation
settings of its extensions. -/
structure ModalityLists where
  request : Option (List String)
  extensions : Option (List String)
  overrides : Option (List String)

namespace ModalityLists

def ofChat (r : Chat.Request) : ModalityLists where
  request := r.modalities
  extensions := r.extraBody.bind (·.modalities)
  overrides := (r.extraBody.bind (·.generationConfig)).bind (·.responseModalities)

/-- All entries in order. -/
def entries (lists : ModalityLists) : List String :=
  lists.request.getD [] ++ lists.extensions.getD [] ++ lists.overrides.getD []

def united (lists : ModalityLists) : List String :=
  collectModalities [lists.request.getD [], lists.extensions.getD [], lists.overrides.getD []]

theorem united_eq (lists : ModalityLists) :
    lists.united = lists.entries.foldl addModality [] := by
  rw [united, collectModalities_eq, entries, List.append_assoc]
  simp only [List.flatten_cons, List.flatten_nil, List.append_nil]

end ModalityLists

section Request

variable (r : Chat.Request) (model : String)

theorem responseModalities_configOf :
    (configOf r model).responseModalities =
      if (ModalityLists.ofChat r).united = [] then none
      else some (ModalityLists.ofChat r).united := by
  change (if (ModalityLists.ofChat r).united.isEmpty then none else _) = _
  simp only [List.isEmpty_iff]
  rfl

/-- The modalities are in the settings, which are only left out if nothing is set. -/
theorem responseModalities_ofChat :
    (Request.ofChat r model).generationConfig.bind (·.responseModalities) =
      if (ModalityLists.ofChat r).united = [] then none
      else some (ModalityLists.ofChat r).united := by
  rw [← responseModalities_configOf r (targetModel model r.model)]
  change (if (configOf r (targetModel model r.model)).isEmpty then none else some _).bind _ = _
  split_ifs with hempty
  · simp only [GenerationConfig.isEmpty, Bool.and_eq_true, Option.isNone_iff_eq_none] at hempty
    obtain ⟨⟨⟨-, hnone⟩, -⟩, -⟩ := hempty
    rw [hnone, Option.bind_none]
  · rw [Option.bind_some]

end Request

theorem GenerationConfig.get?_responseModalities {config : GenerationConfig} {doc : Json}
    (h : codec.encode config = some doc) :
    doc.get? "responseModalities" =
      config.responseModalities.map fun names => .arr (names.map .str) := by
  have hfield := Json.Codec.get?_record
    (.there _ <| .there _ <| .there _ <| .there _ <| .there _ <| .there _ <| .there _ <|
      .there _ <| .there _ <| .there _ <| .there _ <| .here _ _) rfl (by decide) h
  rw [hfield]
  change config.responseModalities.bind _ = _
  cases config.responseModalities with
  | none => rfl
  | some names => exact Json.Codec.list_encode (fun _ => rfl) names

theorem Request.get?_responseModalities {r : Request} {doc : Json}
    (h : codec.encode r = some doc) :
    (doc.get? "generationConfig").bind (·.get? "responseModalities") =
      (r.generationConfig.bind (·.responseModalities)).map fun names =>
        .arr (names.map .str) := by
  have hfield := Json.Codec.get?_record (.there _ <| .there _ <| .here _ _) rfl (by decide) h
  rw [hfield]
  change (r.generationConfig.bind _).bind _ = _
  cases r.generationConfig with
  | none => rfl
  | some config =>
    obtain ⟨settings, hsettings⟩ := GenerationConfig.codec_total config
    rw [Option.bind_some, Option.bind_some, hsettings, Option.bind_some]
    exact GenerationConfig.get?_responseModalities hsettings

/-- The modalities of three lists are united without repetitions, in the order of first sight. Uniting
them again changes nothing, and neither does an entry that comes again in another spelling. They are
sent unless there are none. -/
theorem modalities_united (lists : ModalityLists) :
    ListsOnce (namesOf lists.entries) lists.united ∧
    (∀ again : ModalityLists, again.entries = lists.united → again.united = lists.united) ∧
    (∀ more : ModalityLists, Repeats lists.entries more.entries → more.united = lists.united) ∧
    ∀ body r model, Chat.Request.codec.read body = .ok r → ModalityLists.ofChat r = lists →
      ∃ doc : Json, Provider.vertex.writeRequest body model = .ok doc.bytes ∧
        (doc.get? "generationConfig").bind (·.get? "responseModalities") =
          if lists.united = [] then none else some (.arr (lists.united.map .str)) := by
  rw [lists.united_eq]
  refine ⟨listsOnce_collected lists.entries, ?_, ?_, ?_⟩
  · intro again hagain
    rw [again.united_eq, hagain, collected_collected]
  · intro more hmore
    rw [more.united_eq, hmore.collected]
  · intro body r model hread hlists
    obtain ⟨doc, hdoc⟩ := Request.codec_total (Request.ofChat r model)
    refine ⟨doc, writeRequest_eq hread hdoc, ?_⟩
    rw [Request.get?_responseModalities hdoc, responseModalities_ofChat, hlists, lists.united_eq]
    split_ifs <;> rfl

/-- A request for text twice, in two spellings, and for images. -/
def picturesToo : Chat.Request :=
  { Chat.Request.ofMessages "" [] with
    modalities := some [" text", ""]
    extraBody := some
      { generationConfig := some
          { Chat.GenerationOverrides.none with responseModalities := some ["image", "TEXT\t"] }
        modalities := none
        other := [] } }

theorem picturesToo_united :
    let body : Json := .obj
      [("messages", .arr []), ("modalities", .arr [.str " text", .str ""]),
        ("extra_body", .obj [("generation_config",
          .obj [("response_modalities", .arr [.str "image", .str "TEXT\t"])])])]
    let lists : ModalityLists := ⟨some [" text", ""], none, some ["image", "TEXT\t"]⟩
    let again : ModalityLists := ⟨none, some ["TEXT", "IMAGE"], none⟩
    let more : ModalityLists := ⟨some [" text", ""], some ["Text"], some ["image", "TEXT\t"]⟩
    Chat.Request.codec.read body.bytes = .ok picturesToo ∧
      ModalityLists.ofChat picturesToo = lists ∧
      again.entries = lists.united ∧ again.united = ["TEXT", "IMAGE"] ∧
      Repeats lists.entries more.entries ∧ more.united = ["TEXT", "IMAGE"] ∧
      ∃ doc : Json, Provider.vertex.writeRequest body.bytes "" = .ok doc.bytes ∧
        (doc.get? "generationConfig").bind (·.get? "responseModalities") =
          some (.arr [.str "TEXT", .str "IMAGE"]) := by
  intro body lists again more
  have hread : Chat.Request.codec.read body.bytes = .ok picturesToo :=
    Json.Codec.read_bytes (by rfl) (by rfl)
  have hlists : ModalityLists.ofChat picturesToo = lists := rfl
  have hunited : lists.united = ["TEXT", "IMAGE"] := by cbv
  have hagain : again.entries = lists.united := by rw [hunited]; rfl
  have hspelled : Text.Respelled " text" "Text" :=
    ⟨['t', 'e', 'x', 't'], ['T', 'e', 'x', 't'], ⟨[' '], [], rfl, rfl, rfl⟩, ⟨[], [], rfl, rfl, rfl⟩,
      rfl⟩
  have hfirst : Repeats lists.entries ([" text", ""] ++ ["image", "TEXT\t"]) := .none
  have hmore : Repeats lists.entries more.entries := hfirst.again List.mem_cons_self hspelled
  obtain ⟨-, hsame, hrepeated, hsent⟩ := modalities_united lists
  obtain ⟨doc, hwritten, hdoc⟩ := hsent body.bytes picturesToo "" hread hlists
  refine ⟨hread, hlists, hagain, ?_, hmore, ?_, doc, hwritten, ?_⟩
  · rw [hsame again hagain, hunited]
  · rw [hrepeated more hmore, hunited]
  · rw [hdoc, hunited, if_neg (List.cons_ne_nil _ _)]
    rfl

end ChatDialect.Vertex
