import StoredRoutine.Proofs.Declaration.Parameters

/-!
# Parameters that do not say which way they go

A parameter without a direction goes in. Writing `in` behind its name changes nothing but that the
direction is then written, whatever follows it: a type, a type whose name begins with the letters of
a keyword, a default, or nothing that can be read (`Argument.parse_in`).

Where a keyword begins is a matter of the character behind it, and `BeginsWithKeyword` says so
without the reader.
-/

namespace StoredRoutine

open Text

namespace Declaration

/-! ## Keywords in front -/

/-- The text begins with the keyword, in letters of any case. The keyword is a whole word, and no
quoted identifier follows it directly. -/
def BeginsWithKeyword (keyword s : List Char) : Prop :=
  ∃ word back, s = word ++ back ∧ sameLetters word keyword = true ∧
    ∀ c ∈ back.head?, isWordChar c = false ∧ c ≠ '"'

/-- **A keyword is taken exactly if the text begins with it.** -/
theorem takeKeyword?_eq_none_iff_not_begins {keyword s : List Char} :
    takeKeyword? keyword s = none ↔ ¬ BeginsWithKeyword keyword s := by
  have hbehind (back : List Char) : (∀ c ∈ back.head?, isWordChar c = false ∧ c ≠ '"') ↔
      back.head?.any (fun c => isWordChar c || c == '"') = false := by
    cases back.head? <;> simp
  rw [← not_iff_not, not_not, ← Ne, Option.ne_none_iff_exists']
  constructor
  · rintro ⟨rest, h⟩
    obtain ⟨word, back, hs, hword, hback⟩ := takeKeyword?_eq_some h
    exact ⟨word, back, hs, hword, (hbehind back).mpr hback⟩
  · rintro ⟨word, back, rfl, hword, hback⟩
    exact ⟨trimStart back, takeKeyword?_of_sameLetters hword ((hbehind back).mp hback)⟩

/-! ## Directions -/

section Omitted

variable {rest : List Char} (hin : ¬ BeginsWithKeyword "in".toList (trimStart rest))
  (hout : ¬ BeginsWithKeyword "out".toList (trimStart rest))

include hout

/-- Behind `in` nothing is taken if `out` does not follow. -/
theorem takeDirection_in :
    takeDirection ("in".toList ++ ' ' :: rest) = (some .into, trimStart rest) := by
  rw [takeDirection, takeKeyword?_space]
  dsimp only
  rw [takeKeyword?_eq_none_iff_not_begins.mpr hout]

include hin

theorem takeDirection_omitted : takeDirection (trimStart rest) = (none, trimStart rest) := by
  rw [takeDirection, takeKeyword?_eq_none_iff_not_begins.mpr hin,
    takeKeyword?_eq_none_iff_not_begins.mpr hout]

end Omitted

/-- What is read behind the name of an argument, when its direction has been taken. -/
def readBehind (name : List Char) (written : Option Direction) (rest : List Char) :
    Except Defect Argument := do
  let name := String.ofList name
  let direction := written.getD .into
  let rest :=
    if direction.producesOutput then (takeKeyword? "nocopy".toList rest).getD rest else rest
  let (type, default) := splitDefault rest
  if type.isEmpty then throw (.typelessArgument name)
  if default = some [] then throw (.emptyDefault name)
  return {
    name
    direction
    explicitDirection := written.isSome
    typeName := String.ofList type
    defaultValue := default.map String.ofList
  }

theorem readArgument_eq {name written rest : List Char} (hname : WritesName name written)
    (hrest : rest.head?.any isWordChar = false) :
    readArgument (written ++ rest) =
      readBehind name (takeDirection (trimStart rest)).1 (takeDirection (trimStart rest)).2 := by
  rw [readArgument, hname.takeIdentifier?_eq hrest]
  rfl

/-- **It makes no difference** to what follows whether `in` is written. -/
theorem readBehind_in (name rest : List Char) :
    readBehind name (some .into) rest =
      (readBehind name none rest).map fun a => { a with explicitDirection := true } := by
  have hinto : Direction.into.producesOutput = false := rfl
  simp only [readBehind, Option.getD_some, Option.getD_none, hinto, Bool.false_eq_true, if_false]
  split_ifs <;> rfl

theorem of_readBehind_none {name rest : List Char} {a : Argument}
    (h : readBehind name none rest = .ok a) :
    a.direction = .into ∧ a.explicitDirection = false := by
  have hinto : Direction.into.producesOutput = false := rfl
  simp only [readBehind, Option.getD_none, hinto, Bool.false_eq_true, if_false] at h
  split_ifs at h
  all_goals cases h
  exact ⟨rfl, rfl⟩

end Declaration

/-! ## Main statement -/

open Declaration in
/-- **An omitted direction means `in`.** Behind a name, plain or quoted, stands any text that does
not begin with the keyword `in` or `out`. With `in` between the two, the same error is found or the
same argument is read, but that its direction is now written. -/
theorem Argument.parse_in {name : List Char} {written rest : String}
    (hname : WritesName name written.toList)
    (hin : ¬ BeginsWithKeyword "in".toList (trimStart rest.toList))
    (hout : ¬ BeginsWithKeyword "out".toList (trimStart rest.toList)) (fragment : String) :
    Argument.parse fragment (written ++ " in " ++ rest) =
        (Argument.parse fragment (written ++ " " ++ rest)).map
          (fun a => { a with explicitDirection := true }) ∧
      ∀ a, Argument.parse fragment (written ++ " " ++ rest) = .ok a →
        a.direction = .into ∧ a.explicitDirection = false := by
  have homitted : readArgument (written ++ " " ++ rest).toList =
      readBehind name none (trimStart rest.toList) := by
    have hparts : (written ++ " " ++ rest).toList = written.toList ++ ' ' :: rest.toList := by
      simp
    rw [hparts, readArgument_eq hname rfl, trimStart_space, takeDirection_omitted hin hout]
  have hwritten : readArgument (written ++ " in " ++ rest).toList =
      readBehind name (some .into) (trimStart rest.toList) := by
    have hparts : (written ++ " in " ++ rest).toList =
        written.toList ++ ' ' :: ("in".toList ++ ' ' :: rest.toList) := by
      simp
    have htrim : trimStart (' ' :: ("in".toList ++ ' ' :: rest.toList)) =
        "in".toList ++ ' ' :: rest.toList := rfl
    rw [hparts, readArgument_eq hname rfl, htrim, takeDirection_in hout]
  rw [Argument.parse, Argument.parse, homitted, hwritten, readBehind_in]
  cases hread : readBehind name none (trimStart rest.toList) with
  | error d => exact ⟨rfl, fun a h => by cases h⟩
  | ok a =>
    refine ⟨rfl, fun a' h => ?_⟩
    cases h
    exact of_readBehind_none hread

open Declaration in
/-- A quoted name that is a keyword, in front of a type that begins with the letters of one; and a
type that begins with a keyword and a quoted identifier, in front of a default that is empty. -/
theorem Argument.parse_in_of_misleading_types :
    let a : Argument := ⟨"in", .into, false, "in_t(x)", some "out"⟩
    let e := Error.ofCause (.malformedDeclaration "argument n has an empty default" "f")
    Argument.parse "f" ("\"in\"" ++ " " ++ " in_t(x) default out") = .ok a ∧
      Argument.parse "f" ("\"in\"" ++ " in " ++ " in_t(x) default out") =
        .ok { a with explicitDirection := true } ∧
      Argument.parse "f" ("n" ++ " " ++ "Out\"T\" :=") = .error e ∧
      Argument.parse "f" ("n" ++ " in " ++ "Out\"T\" :=") = .error e := by
  intro a e
  have hquoted : WritesName "in".toList "\"in\"".toList := .quoted (by decide) (by decide)
  have hplain : WritesName "n".toList "n".toList :=
    .plain ⟨by decide, List.all_eq_true.mp (by decide), by decide, by decide⟩
  have hnone (keyword s : String) (h : takeKeyword? keyword.toList (trimStart s.toList) = none) :
      ¬ BeginsWithKeyword keyword.toList (trimStart s.toList) :=
    takeKeyword?_eq_none_iff_not_begins.mp h
  have hread : Argument.parse "f" ("\"in\"" ++ " " ++ " in_t(x) default out") = .ok a := by
    decide +kernel
  have hfails : Argument.parse "f" ("n" ++ " " ++ "Out\"T\" :=") = .error e := by
    decide +kernel
  obtain ⟨hin, -⟩ := Argument.parse_in hquoted (hnone "in" " in_t(x) default out" (by decide))
    (hnone "out" _ (by decide)) "f"
  obtain ⟨hin', -⟩ := Argument.parse_in hplain (hnone "in" "Out\"T\" :=" (by decide))
    (hnone "out" _ (by decide)) "f"
  rw [hread] at hin
  rw [hfails] at hin'
  exact ⟨hread, hin, hfails, hin'⟩

end StoredRoutine
