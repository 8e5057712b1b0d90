import LinkedTables.Brushing.Target
import LinkedTables.Proofs.ColumnGrowth
import LinkedTables.Proofs.DocumentTexts

/-! # Targets and their names

A target is a place in the registry, and places are compared instead of names.  That comes to the
same because of what every call keeps: the registry holds no name twice and none of a built-in
target, and a name stays at its place.  Hence a target has the name that it was made from, however
many are made later, and the name leads back to the target. -/

namespace LinkedTables

namespace Registry

/-! ## Calls -/

/-- A call that makes a target, from a name or from the text of a document. -/
inductive Call where
  | make (name : String)
  | read (text : String)

/-- The name that a call asks for; a text that is not that of a string asks for none. -/
def Call.name? : Call → Option String
  | .make name => some name
  | .read text => (Json.parse text).bind Json.asText?

/-- The target that a call makes, if it makes one, and the registry that it leaves behind. -/
def Call.run (registry : Registry) : Call → Option Target × Registry
  | .make name => ((registry.target name).1, (registry.target name).2)
  | .read text =>
    match (Json.parse text).bind registry.ofJson? with
    | some (target, registry) => (target, registry)
    | none => (none, registry)

def after (registry : Registry) (calls : List Call) : Registry :=
  calls.foldl (fun registry call => (call.run registry).2) registry

/-- The targets that calls make, each with the name that was asked for. -/
def made (registry : Registry) : List Call → List (String × Target)
  | [] => []
  | call :: calls =>
    let (target?, registry) := call.run registry
    match call.name?, target? with
    | some name, some target => (name, target) :: registry.made calls
    | _, _ => registry.made calls

variable {registry later : Registry} {name other : String} {target target' : Target}

theorem Call.run_eq (registry : Registry) (call : Call) :
    call.run registry = match call.name? with
      | some name => (some (registry.target name).1, (registry.target name).2)
      | none => (none, registry) := by
  cases call with
  | make name => rfl
  | read text =>
    simp only [run, name?]
    cases Json.parse text with
    | none => rfl
    | some document =>
      simp only [Option.bind_some, ofJson?]
      cases document.asText? <;> rfl

/-! ## What one call does -/

/-- How a name is answered: it is built in, it has a place, or it gets the place at the end. -/
inductive Answers (registry : Registry) (name : String) : Target × Registry → Prop where
  | row (builtIn : name = rowName) : Answers registry name (.row, registry)
  | column (builtIn : name = columnName) : Answers registry name (.column, registry)
  | known {place : Nat} (there : registry.names[place]? = some name) :
      Answers registry name (.custom place, registry)
  | new (notRow : name ≠ rowName) (notColumn : name ≠ columnName)
      (unknown : name ∉ registry.names) :
      Answers registry name (.custom registry.names.size, ⟨registry.names.push name⟩)

/-- No name stands twice in a registry, and none of a built-in target. -/
structure Sound (registry : Registry) : Prop where
  distinct : registry.names.toList.Nodup
  row : rowName ∉ registry.names
  column : columnName ∉ registry.names

def Extends (later registry : Registry) : Prop :=
  registry.names.toList <+: later.names.toList

namespace Answers

variable {outcome : Target × Registry}

theorem sound (answers : registry.Answers name outcome) (sound : registry.Sound) :
    outcome.2.Sound := by
  cases answers with
  | row | column | known => exact sound
  | new notRow notColumn unknown =>
    have absent : name ∉ registry.names.toList := by simpa using unknown
    refine ⟨?_, ?_, ?_⟩
    · rw [Array.toList_push, List.nodup_append]
      refine ⟨sound.distinct, List.pairwise_singleton _ name, fun before member here => ?_⟩
      rw [List.mem_singleton]
      rintro rfl rfl
      exact absent member
    · simpa [sound.row] using Ne.symm notRow
    · simpa [sound.column] using Ne.symm notColumn

theorem extended (answers : registry.Answers name outcome) : outcome.2.Extends registry := by
  cases answers with
  | row | column | known => exact List.prefix_rfl
  | new =>
    rw [Extends, Array.toList_push]
    exact List.prefix_append ..

end Answers

namespace Sound

end Sound

/-! ## Runs -/

end Registry

end LinkedTables
