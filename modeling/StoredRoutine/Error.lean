import StoredRoutine.Passing

/-!
# Errors

What can go wrong between the text of a specification and the result of a call. A `Cause` says
what went wrong and has one wording, `Cause.message`. An `Error` is a cause together with the
place it arose, as far as that is known.
-/

namespace StoredRoutine

/-- What went wrong. -/
inductive Cause where
  /-- A declaration was recognized but cannot be read. -/
  | malformedDeclaration (problem fragment : String)
  /-- Parentheses do not balance in the text. -/
  | unbalancedParentheses (fragment : String)
  /-- The type table has no such type. -/
  | unknownDataType (name : String)
  /-- A constant cannot be called. -/
  | notARoutine (name : String)
  /-- A routine was given too few or too many inputs. -/
  | arityMismatch (expected actual : Nat)
  /-- A driver handed back what the family of the argument does not admit. -/
  | protocolMismatch (argument : String) (expected : Family) (actual : String)
  /-- A driver reported an error. -/
  | driver (problem : String)
  /-- A configuration is not valid. -/
  | config (problem : String)
  /-- A file could not be read or written. -/
  | io (problem : String)
  /-- An output could not be encoded. -/
  | serialization (problem : String)
  deriving DecidableEq, Repr

namespace Cause

/-- The wording of the cause. -/
def message : Cause → String
  | malformedDeclaration problem fragment =>
    "malformed declaration: " ++ problem ++ " in `" ++ fragment ++ "`"
  | unbalancedParentheses fragment => "unbalanced parentheses in `" ++ fragment ++ "`"
  | unknownDataType name => "unknown data type: " ++ name
  | notARoutine name => "not a routine: " ++ name
  | arityMismatch expected actual =>
    "arity mismatch: expected " ++ Nat.repr expected ++ " inputs, got " ++ Nat.repr actual
  | protocolMismatch argument expected actual =>
    "protocol mismatch for " ++ argument ++ ": expected " ++ expected.name ++ " output, got "
      ++ actual
  | driver problem => "driver error: " ++ problem
  | config problem => "configuration error: " ++ problem
  | io problem => "I/O error: " ++ problem
  | serialization problem => "serialization error: " ++ problem

/-- Is the declaration to blame, and not the configuration, a file or a driver? -/
def isDeclarationError : Cause → Bool
  | malformedDeclaration .. | unbalancedParentheses _ | unknownDataType _ | notARoutine _ => true
  | _ => false

end Cause

/-- Where an error arose, as far as that is known. -/
structure Context where
  package : Option String
  /-- The text of the declaration. -/
  fragment : Option String
  line : Option Nat
  column : Option Nat
  deriving DecidableEq, Repr

namespace Context

/-- Nothing is known. -/
def empty : Context := ⟨none, none, none, none⟩

/-- The wording of the place: the package, with line and column if both are known, and on a line
of its own the declaration. -/
def message (c : Context) : String :=
  let place := match c.package, c.line, c.column with
    | some package, some line, some column =>
      "at " ++ package ++ ":" ++ Nat.repr line ++ ":" ++ Nat.repr column
    | some package, _, _ => "at " ++ package
    | none, _, _ => ""
  let declaration := match c.fragment with
    | some fragment => (if c.package.isSome then "\n" else "") ++ "  in " ++ fragment
    | none => ""
  place ++ declaration

end Context

/-- What went wrong, and where. -/
structure Error where
  cause : Cause
  context : Option Context
  deriving DecidableEq, Repr

namespace Error

/-- An error at an unknown place. -/
def ofCause (cause : Cause) : Error := ⟨cause, none⟩

/-- The error with its place put in. -/
def within (e : Error) (context : Context) : Error := { e with context := some context }

/-- The wording of the error, which does not mention the place. -/
def message (e : Error) : String := e.cause.message

/-- Is the declaration to blame? -/
def isDeclarationError (e : Error) : Bool := e.cause.isDeclarationError

end Error

/-- Two steps in sequence succeed exactly if the first does and then the second. -/
theorem bind_eq_ok {ε α β : Type} {x : Except ε α} {f : α → Except ε β} {b : β} :
    x >>= f = .ok b ↔ ∃ a, x = .ok a ∧ f a = .ok b := by
  cases x with
  | error e =>
    refine ⟨fun h => (by cases h), ?_⟩
    rintro ⟨a, h, -⟩
    cases h
  | ok a =>
    refine ⟨fun h => ⟨a, rfl, h⟩, ?_⟩
    rintro ⟨a, h, hf⟩
    cases h
    exact hf

/-- Two steps in sequence fail exactly if the first does, or it succeeds and the second fails. -/
theorem bind_eq_error {ε α β : Type} {x : Except ε α} {f : α → Except ε β} {e : ε} :
    x >>= f = .error e ↔ x = .error e ∨ ∃ a, x = .ok a ∧ f a = .error e := by
  cases x with
  | error e' =>
    refine ⟨fun h => .inl (by cases h; rfl), ?_⟩
    rintro (h | ⟨a, h, -⟩)
    · cases h
      rfl
    · cases h
  | ok a =>
    refine ⟨fun h => .inr ⟨a, rfl, h⟩, ?_⟩
    rintro (h | ⟨a, h, hf⟩)
    · cases h
    · cases h
      exact hf

/-- Many steps succeed exactly if each of them does. -/
theorem mapM_eq_ok {ε α β : Type} {f : α → Except ε β} {xs : List α} {ys : List β} :
    xs.mapM f = .ok ys ↔ xs.map f = ys.map .ok := by
  induction xs generalizing ys with
  | nil => cases ys <;> simp [pure, Except.pure]
  | cons x xs ih =>
    rw [List.mapM_cons, bind_eq_ok, List.map_cons]
    constructor
    · rintro ⟨y, hy, h⟩
      obtain ⟨others, hothers, h⟩ := bind_eq_ok.mp h
      cases h
      rw [hy, ih.mp hothers, List.map_cons]
    · intro h
      cases ys with
      | nil => cases h
      | cons y ys =>
        obtain ⟨hy, hys⟩ := List.cons.inj h
        exact ⟨y, hy, bind_eq_ok.mpr ⟨ys, ih.mpr hys, rfl⟩⟩

/-- What comes of many steps comes of them one by one. -/
theorem exists_of_mem_of_mapM {ε α β : Type} {f : α → Except ε β} {xs : List α} {ys : List β}
    (h : xs.mapM f = .ok ys) {y : β} (hy : y ∈ ys) : ∃ x ∈ xs, f x = .ok y := by
  have hmem : Except.ok y ∈ xs.map f := by
    rw [mapM_eq_ok.mp h]
    exact List.mem_map_of_mem hy
  exact List.mem_map.mp hmem

/-- Many steps fail with the error of the first one that does. -/
theorem mapM_eq_error {ε α β : Type} {f : α → Except ε β} {xs : List α} {e : ε} :
    xs.mapM f = .error e ↔ ∃ front x back, xs = front ++ x :: back ∧
      (∀ y ∈ front, ∃ b, f y = .ok b) ∧ f x = .error e := by
  induction xs with
  | nil =>
    refine ⟨fun h => (by cases h), ?_⟩
    rintro ⟨front, x, back, h, -⟩
    cases front <;> cases h
  | cons x xs ih =>
    rw [List.mapM_cons, bind_eq_error]
    constructor
    · rintro (hx | ⟨b, hb, h⟩)
      · exact ⟨[], x, xs, rfl, by simp, hx⟩
      · rcases bind_eq_error.mp h with h | ⟨bs, -, h⟩
        · obtain ⟨front, x', back, rfl, hfront, hx'⟩ := ih.mp h
          exact ⟨x :: front, x', back, rfl, List.forall_mem_cons.mpr ⟨⟨b, hb⟩, hfront⟩, hx'⟩
        · cases h
    · rintro ⟨front, x', back, h, hfront, hx'⟩
      cases front with
      | nil =>
        cases h
        exact .inl hx'
      | cons y front =>
        cases h
        obtain ⟨⟨b, hb⟩, hfront⟩ := List.forall_mem_cons.mp hfront
        exact .inr ⟨b, hb, bind_eq_error.mpr (.inl (ih.mpr ⟨front, x', back, rfl, hfront, hx'⟩))⟩

theorem exists_mapM_eq_ok {ε α β : Type} {f : α → Except ε β} {xs : List α} :
    (∃ ys, xs.mapM f = .ok ys) ↔ ∀ x ∈ xs, ∃ y, f x = .ok y := by
  constructor
  · rintro ⟨ys, h⟩ x hx
    have hmem : f x ∈ ys.map Except.ok := by
      rw [← mapM_eq_ok.mp h]
      exact List.mem_map_of_mem hx
    obtain ⟨y, -, hy⟩ := List.mem_map.mp hmem
    exact ⟨y, hy.symm⟩
  · intro h
    cases hxs : xs.mapM f with
    | ok ys => exact ⟨ys, rfl⟩
    | error e =>
      obtain ⟨front, x, back, rfl, -, hx⟩ := mapM_eq_error.mp hxs
      obtain ⟨y, hy⟩ := h x (by simp)
      rw [hx] at hy
      cases hy

/-- What is made of a result has no influence on its success. -/
theorem exists_map_eq_ok_iff {ε α β : Type} (f : α → β) {x : Except ε α} :
    (∃ b, x.map f = .ok b) ↔ ∃ a, x = .ok a := by
  cases x <;> simp [Except.map]

/-- What is made of a result has no influence on its failure. -/
theorem map_eq_error_iff {ε α β : Type} (f : α → β) {x : Except ε α} {e : ε} :
    x.map f = .error e ↔ x = .error e := by
  cases x <;> simp [Except.map]

end StoredRoutine
