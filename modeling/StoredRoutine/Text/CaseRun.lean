/-!
# Tables over code points

Case mappings and character properties are regular over long stretches of code points, so their
tables list stretches: a `CaseRun` maps every first or every second code point of a stretch by
adding one number to it, and a property is a list of inclusive ranges.
-/

namespace StoredRoutine.Text

/-- The code points `first, first + step, …, last`, each mapped to itself plus `shift`. -/
structure CaseRun where
  first : Nat
  last : Nat
  step : Nat
  shift : Int

/-- Does the run map the code point? -/
def CaseRun.covers (run : CaseRun) (n : Nat) : Bool :=
  run.first ≤ n && n ≤ run.last && (n - run.first) % run.step == 0

/-- The image of a character under the first run that covers it; the character itself if none
does. -/
def mapByRuns (runs : List CaseRun) (c : Char) : Char :=
  match runs.find? (·.covers c.toNat) with
  | some run => Char.ofNat (c.toNat + run.shift).toNat
  | none => c

/-- Does one of the inclusive ranges hold the code point? -/
def inRanges (ranges : List (Nat × Nat)) (n : Nat) : Bool :=
  ranges.any fun (first, last) => first ≤ n && n ≤ last

end StoredRoutine.Text
