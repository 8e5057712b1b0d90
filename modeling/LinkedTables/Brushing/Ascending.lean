/-! # Ascending sets

A finite set of numbers below a bound, kept as its increasing list of members.  Since a set has
one such list, equality of sets is equality of lists. -/

namespace LinkedTables

/-- A finite set of numbers below `bound`. -/
structure Ascending (bound : Nat) where
  toList : List (Fin bound)
  ascending : toList.Pairwise (· < ·)
  deriving DecidableEq

namespace Ascending

variable {bound : Nat}

def empty : Ascending bound :=
  ⟨[], .nil⟩

instance : Inhabited (Ascending bound) := ⟨empty⟩

instance : Membership (Fin bound) (Ascending bound) where
  mem set a := a ∈ set.toList

instance (a : Fin bound) (set : Ascending bound) : Decidable (a ∈ set) :=
  inferInstanceAs (Decidable (a ∈ set.toList))

def size (set : Ascending bound) : Nat :=
  set.toList.length

def insertInto (a : Fin bound) : List (Fin bound) → List (Fin bound)
  | [] => [a]
  | b :: rest => if a < b then a :: b :: rest else if a = b then b :: rest else b :: insertInto a rest

theorem mem_insertInto {a b : Fin bound} {members : List (Fin bound)} :
    b ∈ insertInto a members ↔ b = a ∨ b ∈ members := by
  induction members with
  | nil => simp [insertInto]
  | cons c rest ih =>
    simp only [insertInto]
    split
    · simp
    · split
      · next h => simp [h]
      · simp only [List.mem_cons, ih]
        constructor
        · rintro (h | h | h) <;> simp [h]
        · rintro (h | h | h) <;> simp [h]

theorem pairwise_insertInto {a : Fin bound} {members : List (Fin bound)}
    (h : members.Pairwise (· < ·)) : (insertInto a members).Pairwise (· < ·) := by
  induction members with
  | nil => simp [insertInto]
  | cons b rest ih =>
    simp only [insertInto]
    rw [List.pairwise_cons] at h
    split
    · next hlt =>
      refine List.pairwise_cons.2 ⟨?_, List.pairwise_cons.2 h⟩
      intro c hc
      rcases List.mem_cons.1 hc with rfl | hc
      · exact hlt
      · exact Fin.lt_trans hlt (h.1 c hc)
    · split
      · exact List.pairwise_cons.2 h
      · next hlt hne =>
        refine List.pairwise_cons.2 ⟨?_, ih h.2⟩
        intro c hc
        rcases mem_insertInto.1 hc with rfl | hc
        · exact Fin.lt_def.2 (by
            have hle := Fin.not_lt.1 hlt
            have hne' : c.val ≠ b.val := fun h => hne (Fin.ext h)
            have := Fin.le_def.1 hle
            omega)
        · exact h.1 c hc

def insert (a : Fin bound) (set : Ascending bound) : Ascending bound :=
  ⟨insertInto a set.toList, pairwise_insertInto set.ascending⟩

def ofList (members : List (Fin bound)) : Ascending bound :=
  members.foldr insert empty

def union (a b : Ascending bound) : Ascending bound :=
  a.toList.foldr insert b

@[simp] theorem mem_insert {a b : Fin bound} {set : Ascending bound} :
    b ∈ set.insert a ↔ b = a ∨ b ∈ set :=
  mem_insertInto

@[simp] theorem mem_ofList {b : Fin bound} {members : List (Fin bound)} :
    b ∈ ofList members ↔ b ∈ members := by
  induction members with
  | nil => simp [ofList, empty, Membership.mem]
  | cons a rest ih =>
    rw [ofList, List.foldr_cons, mem_insert, ← ofList, ih, List.mem_cons]

@[simp] theorem mem_union {b : Fin bound} {s t : Ascending bound} :
    b ∈ s.union t ↔ b ∈ s ∨ b ∈ t := by
  obtain ⟨members, ascending⟩ := s
  show b ∈ members.foldr insert t ↔ b ∈ members ∨ b ∈ t
  clear ascending
  induction members with
  | nil => simp
  | cons a rest ih => rw [List.foldr_cons, mem_insert, ih, List.mem_cons, or_assoc]

end Ascending

end LinkedTables
