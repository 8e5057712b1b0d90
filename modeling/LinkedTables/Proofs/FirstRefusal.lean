import Mathlib.Data.List.Forall2

/-! # Lists worked through in order

A list whose entries are worked through in order is either done to its end or stops at the first
entry that is refused, and the cause is that of this entry.  A look-up stops at the first entry
with its key. -/

namespace LinkedTables

variable {α β γ ε : Type}

@[simp] theorem lookup_cons_ite [BEq α] [LawfulBEq α] [DecidableEq α] (key : α) (value : β)
    (rest : List (α × β)) (other : α) :
    ((key, value) :: rest).lookup other = if other = key then some value else rest.lookup other := by
  by_cases same : other = key
  case pos => rw [if_pos same, same, List.lookup_cons_self]
  case neg =>
    have different : (other == key) = false := beq_eq_false_iff_ne.mpr same
    rw [if_neg same, List.lookup_cons, different]

theorem mapM_except_cons {f : α → Except ε β} {x : α} {xs : List α} :
    (x :: xs).mapM f = match f x with
      | .error e => .error e
      | .ok y => match xs.mapM f with
        | .error e => .error e
        | .ok ys => .ok (y :: ys) := by
  rw [List.mapM_cons]
  cases f x with
  | error e => rfl
  | ok y => cases xs.mapM f <;> rfl

theorem mapM_eq_ok_iff {f : α → Except ε β} {xs : List α} {ys : List β} :
    xs.mapM f = .ok ys ↔ List.Forall₂ (fun x y => f x = .ok y) xs ys := by
  induction xs generalizing ys with
  | nil => simp [pure, Except.pure, eq_comm]
  | cons x xs inductionHypothesis =>
    rw [mapM_except_cons, List.forall₂_cons_left_iff]
    cases first : f x with
    | error e => simp
    | ok y =>
      cases rest : xs.mapM f with
      | error e => simp [← inductionHypothesis, rest]
      | ok zs => simp [← inductionHypothesis, rest, eq_comm]

theorem map_mapM {f : α → Except ε β} {g : β → γ} {xs : List α} :
    (xs.mapM f).map (List.map g) = xs.mapM fun x => (f x).map g := by
  induction xs with
  | nil => rfl
  | cons x xs inductionHypothesis =>
    rw [mapM_except_cons, mapM_except_cons, ← inductionHypothesis]
    cases f x with
    | error e => rfl
    | ok y => cases xs.mapM f <;> rfl

theorem mapM_eq_error_iff {f : α → Except ε β} {xs : List α} {e : ε} :
    xs.mapM f = .error e ↔
      ∃ before x after, xs = before ++ x :: after ∧ (∀ y ∈ before, ∃ z, f y = .ok z) ∧
        f x = .error e := by
  induction xs with
  | nil => simp [pure, Except.pure]
  | cons x xs inductionHypothesis =>
    rw [mapM_except_cons]
    -- The first refusal is that of the head, or it is the first one behind a head that passes.
    constructor
    · intro stopped
      cases first : f x with
      | error e' =>
        simp only [first, Except.error.injEq] at stopped
        subst stopped
        exact ⟨[], x, xs, rfl, by simp, first⟩
      | ok y =>
        rw [first] at stopped
        cases rest : xs.mapM f with
        | ok ys => simp [rest] at stopped
        | error e' =>
          simp only [rest, Except.error.injEq] at stopped
          subst stopped
          obtain ⟨before, z, after, split, passed, refused⟩ := inductionHypothesis.mp rest
          refine ⟨x :: before, z, after, by rw [split]; rfl, ?_, refused⟩
          simpa using ⟨⟨y, first⟩, passed⟩
    · rintro ⟨before, z, after, split, passed, refused⟩
      cases before with
      | nil =>
        simp only [List.nil_append, List.cons.injEq] at split
        rw [split.1, refused]
      | cons y before =>
        simp only [List.cons_append, List.cons.injEq] at split
        obtain ⟨w, first⟩ := passed y (by simp)
        have rest : xs.mapM f = .error e := inductionHypothesis.mpr
          ⟨before, z, after, split.2, fun y' member => passed y' (by simp [member]), refused⟩
        rw [split.1, first]
        simp [rest]

/-- A list is done to its end exactly if no entry of it is refused. -/
theorem exists_mapM_eq_ok_iff {f : α → Except ε β} {xs : List α} :
    (∃ ys, xs.mapM f = .ok ys) ↔ ∀ x ∈ xs, ∃ y, f x = .ok y := by
  induction xs with
  | nil => simp [pure, Except.pure]
  | cons x xs inductionHypothesis =>
    rw [List.forall_mem_cons, ← inductionHypothesis, mapM_except_cons]
    cases f x with
    | error e => simp
    | ok y => cases xs.mapM f <;> simp

/-! ## Entries without a cause -/

theorem mapM_isSome_iff {f : α → Option β} {xs : List α} :
    (xs.mapM f).isSome = true ↔ ∀ x ∈ xs, (f x).isSome = true := by
  induction xs with
  | nil => simp
  | cons x xs inductionHypothesis =>
    rw [List.mapM_cons, List.forall_mem_cons, ← inductionHypothesis]
    cases f x with
    | none => simp
    | some y => cases xs.mapM f <;> simp

theorem mapM_eq_some_iff {f : α → Option β} {xs : List α} {ys : List β} :
    xs.mapM f = some ys ↔ List.Forall₂ (fun x y => f x = some y) xs ys := by
  induction xs generalizing ys with
  | nil => cases ys <;> simp
  | cons x xs inductionHypothesis =>
    rw [List.mapM_cons, List.forall₂_cons_left_iff]
    simp only [← inductionHypothesis]
    cases f x with
    | none => simp
    | some y => cases xs.mapM f <;> simp [eq_comm]

theorem length_of_mapM {f : α → Option β} {xs : List α} {ys : List β} (read : xs.mapM f = some ys) :
    ys.length = xs.length :=
  (mapM_eq_some_iff.mp read).length_eq.symm

theorem mapM_congr {f g : α → Option β} {xs : List α} (same : ∀ x ∈ xs, f x = g x) :
    xs.mapM f = xs.mapM g := by
  induction xs with
  | nil => rfl
  | cons x xs inductionHypothesis =>
    obtain ⟨first, others⟩ := List.forall_mem_cons.mp same
    rw [List.mapM_cons, List.mapM_cons, first, inductionHypothesis others]

end LinkedTables
