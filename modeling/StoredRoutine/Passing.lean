/-!
# How a parameter is passed

Two facts decide how a parameter is passed: its `Direction`, which the declaration gives, and
the `Family` of its data type. They decide the `Strategy`: what is bound before the call and
what is fetched after it.

A call goes through three phases. Before it a value or a placeholder is prepared for every
parameter, then the routine is invoked once with all of them in order, and after it the
placeholders' contents are extracted.
-/

namespace StoredRoutine

/-! ## Directions -/

/-- Which way a value goes across a call. -/
inductive Direction where
  /-- From the caller into the routine. -/
  | into
  /-- From the routine to the caller. -/
  | out
  /-- Into the routine, and replaced by it. -/
  | inOut
  deriving DecidableEq, Repr

namespace Direction

/-- Does the caller supply a value? -/
def takesInput : Direction → Bool
  | .into | .inOut => true
  | .out => false

/-- Does the routine hand a value back? -/
def producesOutput : Direction → Bool
  | .out | .inOut => true
  | .into => false

/-- The keywords of the direction in a declaration. -/
def keywords : Direction → String
  | .into => "in"
  | .out => "out"
  | .inOut => "in out"

end Direction

/-! ## Families -/

/-- The kinds of data that are passed in different ways. Every known data type belongs to one. -/
inductive Family where
  /-- Values passed as they are: numbers, characters, dates, row ids, raw bytes, file
  references. -/
  | scalar
  /-- Values handed back as a locator, which has to be read to obtain the content. -/
  | largeObject
  /-- Result sets, consumed row by row. -/
  | cursor
  deriving DecidableEq, Repr

namespace Family

/-- The families in their order. -/
def all : List Family := [.scalar, .largeObject, .cursor]

/-- The name of the family in messages. -/
def name : Family → String
  | .scalar => "scalar"
  | .largeObject => "large-object"
  | .cursor => "cursor"

end Family

/-! ## Strategies -/

/-- What is bound before the call. -/
inductive Prepare where
  /-- The caller's value. -/
  | passValue
  /-- An empty placeholder. -/
  | allocate
  /-- A placeholder that holds the caller's value. -/
  | allocateAndSeed
  deriving DecidableEq, Repr

/-- What is done after the call. -/
inductive Extract where
  /-- Nothing comes back. -/
  | nothing
  /-- The placeholder's value is read. -/
  | readValue
  /-- The placeholder's locator is read, and then the content behind it. -/
  | materialize
  /-- The cursor in the placeholder is handed out as rows. -/
  | wrapRows
  deriving DecidableEq, Repr

/-- What is done for a parameter before and after the call. -/
structure Strategy where
  prepare : Prepare
  extract : Extract
  deriving DecidableEq, Repr

namespace Strategy

/-- How a parameter is prepared. A cursor is never seeded: for an `in out` cursor a fresh
placeholder is bound, and only its output is observed. -/
def prepareOf (family : Family) : Direction → Prepare
  | .into => .passValue
  | .out => .allocate
  | .inOut => if family = .cursor then .allocate else .allocateAndSeed

/-- How the content of a placeholder of the family is fetched. -/
def fetchOf : Family → Extract
  | .scalar => .readValue
  | .largeObject => .materialize
  | .cursor => .wrapRows

/-- The strategy for a parameter. -/
def forParameter (family : Family) (direction : Direction) : Strategy where
  prepare := prepareOf family direction
  extract := if direction.producesOutput then fetchOf family else .nothing

/-- The strategy for the value that a function returns. -/
def forReturn (family : Family) : Strategy := forParameter family .out

/-- Is a placeholder bound? -/
def usesPlaceholder (s : Strategy) : Bool := s.prepare != .passValue

end Strategy

end StoredRoutine
