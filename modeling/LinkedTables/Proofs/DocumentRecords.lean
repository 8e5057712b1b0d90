import LinkedTables.Proofs.DocumentReading
import LinkedTables.Proofs.FirstRefusal

/-! # Records and lists in documents

A record is written with all its fields, each once, so every field is found under its name.  A list is
read element by element. -/

namespace LinkedTables

namespace Json

/-! ## Spelling -/

theorem spellable_ofText (text : String) : (ofText text).Spellable :=
  writable_piecesOf text

theorem spellable_ofInteger (i : Int) : (ofInteger i).Spellable :=
  wellFormed_ofInteger i

theorem spellable_array {elements : List Json} (all : ∀ element ∈ elements, element.Spellable) :
    (Json.array elements).Spellable := by
  show SpellableElements elements
  induction elements with
  | nil => trivial
  | cons element elements inductionHypothesis =>
    obtain ⟨first, others⟩ := List.forall_mem_cons.mp all
    exact ⟨first, inductionHypothesis others⟩

theorem ofMembers_eq (members : List (String × Json)) :
    ofMembers members = .object (members.map fun member => (piecesOf member.1, member.2)) :=
  rfl

theorem spellable_ofMembers {members : List (String × Json)}
    (all : ∀ value ∈ members.map Prod.snd, value.Spellable) : (ofMembers members).Spellable := by
  rw [ofMembers_eq, Spellable]
  induction members with
  | nil => trivial
  | cons member members inductionHypothesis =>
    obtain ⟨first, others⟩ := List.forall_mem_cons.mp all
    exact ⟨writable_piecesOf member.1, first, inductionHypothesis others⟩

/-! ## Reading -/

@[simp] theorem namedMembers?_ofMembers (members : List (String × Json)) :
    namedMembers? (members.map fun member => (piecesOf member.1, member.2)) = some members := by
  induction members with
  | nil => rfl
  | cons member members inductionHypothesis =>
    rw [namedMembers?] at inductionHypothesis ⊢
    rw [List.map_cons, List.mapM_cons, inductionHypothesis]
    simp only [textOf?_piecesOf, Option.map_some, Option.pure_def, Option.bind_eq_bind,
      Option.bind_some]

variable {members : List (String × Json)}

theorem asFields?_ofMembers {names : List String} (distinct : names.Nodup)
    (named : members.map Prod.fst = names) :
    (ofMembers members).asFields? names = some ⟨false, members⟩ := by
  have known : members.filter (fun member => names.contains member.1) = members := by
    refine List.filter_eq_self.mpr fun member mem => ?_
    rw [List.contains_iff_mem, ← named]
    exact List.mem_map_of_mem mem
  rw [ofMembers_eq, asFields?, namedMembers?_ofMembers]
  show (if ((members.filter fun member => names.contains member.1).map Prod.fst).Nodup then
    some (⟨false, members.filter fun member => names.contains member.1⟩ : Fields) else none) = _
  rw [known, named, if_pos distinct]

@[simp] theorem asVariant?_ofMembers (name : String) (content : Json) :
    (ofMembers [(name, content)]).asVariant? = some (name, some content) := by
  simp only [ofMembers, List.map_cons, List.map_nil, asVariant?, textOf?_piecesOf, Option.map_some]

/-! ## Lists -/

section Lists

variable {α β : Type} {encode : α → Json} {decode : Json → Option α} {list : List α}

theorem mapM_encode_eq_some_iff :
    (list.map encode).mapM decode = some list ↔ ∀ a ∈ list, decode (encode a) = some a := by
  rw [List.mapM_map, mapM_eq_some_iff, List.forall₂_same]
  rfl

variable {count : Nat} (elements : Vector α count)

/-- A vector is read as a list is, since no element is left out. -/
theorem asVector?_eq : ((array (elements.toList.map encode)).asVector? count decode).map
    Vector.toList = (elements.toList.map encode).mapM decode := by
  rw [asVector?, asList?]
  split
  next results read =>
    have length := length_of_mapM read
    rw [List.length_map, Vector.length_toList] at length
    rw [dif_pos length, read]
    rfl
  next none => rw [none]; rfl

theorem asVector?_isSome_iff :
    ((array (elements.toList.map encode)).asVector? count decode).isSome = true ↔
      ∀ a ∈ elements.toList, (decode (encode a)).isSome = true := by
  rw [← Option.isSome_map, asVector?_eq, mapM_isSome_iff]
  exact List.forall_mem_map

theorem asVector?_eq_some_iff :
    (array (elements.toList.map encode)).asVector? count decode = some elements ↔
      ∀ a ∈ elements.toList, decode (encode a) = some a := by
  rw [← mapM_encode_eq_some_iff, ← asVector?_eq]
  exact (Option.map_injective (fun _ _ => Vector.toList_inj.mp)).eq_iff.symm

end Lists

end Json

end LinkedTables
