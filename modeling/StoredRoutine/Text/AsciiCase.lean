/-!
# ASCII letter case

Keywords, package names and column names are compared without regard to the case of ASCII
letters; every other character has to be the same.
-/

namespace StoredRoutine.Text

/-- The text with its ASCII capitals turned small. -/
def asciiLower (s : List Char) : List Char := s.map Char.toLower

/-- Are the texts equal up to the case of ASCII letters? -/
def sameLetters (s t : List Char) : Bool := asciiLower s == asciiLower t

/-- Does `s` begin with `word`, up to the case of ASCII letters? -/
def startsWithLetters (word s : List Char) : Bool := sameLetters word (s.take word.length)

theorem sameLetters_iff {s t : List Char} : sameLetters s t = true ↔ asciiLower s = asciiLower t := by
  simp [sameLetters]

@[simp] theorem sameLetters_refl (s : List Char) : sameLetters s s = true := by
  simp [sameLetters]

theorem sameLetters_comm (s t : List Char) : sameLetters s t = sameLetters t s :=
  BEq.comm

@[simp] theorem length_asciiLower (s : List Char) : (asciiLower s).length = s.length := by
  simp [asciiLower]

end StoredRoutine.Text

namespace StoredRoutine

/-- Are the names equal up to the case of ASCII letters? -/
def sameName (a b : String) : Bool := Text.sameLetters a.toList b.toList

end StoredRoutine
