import StoredRoutine.Proofs.Declaration.Defects

/-!
# Unbalanced parentheses

Whether parentheses balance is found out once, over the whole text of a fragment. Later the argument
list is looked for in what is left of the text behind keyword and name, and there the reader could
report unbalanced parentheses again: if the list is not closed, or if what is in it cannot be split.

It never does (`exists_argumentList`). What the reader takes off the front is closed by itself, even
a name with doubled quotes, so that the rest is as balanced as the whole. This has to be said of
texts that end within quotes as well: they can be balanced, though they are not closed.
-/

namespace StoredRoutine

open Text

namespace Declaration

/-- The semicolon does not matter, and neither do the blanks. -/
theorem isBalanced_body (s : List Char) : isBalanced (body s) = isBalanced s := by
  rw [body, isBalanced_trim]
  split_ifs with hlast
  · obtain ⟨front, rfl⟩ := List.getLast?_eq_some_iff.mp hlast
    have hquote := isQuote_of_after isQuote_of_start front
    rw [List.dropLast_concat, isBalanced, isBalanced, Nesting.after_append, Nesting.after_cons,
      Nesting.after_nil, step_eq_self hquote (by decide) (by decide) (by decide)]
  · rfl

/-- **The argument list** of a balanced text is closed, and is split. -/
theorem exists_argumentList {keyword s rest name others : List Char} (hkeyword : IsKeyword keyword)
    (hs : isBalanced s = true) (hrest : takeKeyword? keyword s = some rest)
    (hname : takeIdentifier? rest = some (name, others))
    (hopen : (trimStart others).head? = some '(') :
    ∃ close params, matchingParen? (trimStart others) 0 = some close ∧
      split? ',' (((trimStart others).take close).drop 1) = some params := by
  have hlist : IsRest (trimStart others) s :=
    ((isRest_trimStart others).trans (isRest_of_takeIdentifier? hname)).trans
      (isRest_of_takeKeyword? hkeyword hrest).1
  obtain ⟨close, hclose⟩ := exists_matchingParen? (hlist.isBalanced_eq.trans hs) hopen
  obtain ⟨inner, t, hparts, rfl, hinner⟩ := exists_of_matchingParen? hclose
  have htake : (trimStart others).take (inner.length + 1) = '(' :: inner := by
    rw [hparts]
    exact List.take_left' rfl
  obtain ⟨params, hparams⟩ := exists_split? ',' hinner.isBalanced
  refine ⟨_, params, hclose, ?_⟩
  rw [htake, List.drop_one, List.tail_cons]
  exact hparams

/-- **No reader** finds parentheses unbalanced in a balanced text. -/
theorem readSignature_ne_unbalanced {kind : Source.Kind} {s : List Char}
    (hs : isBalanced s = true) : readSignature kind s ≠ .error .unbalanced := by
  intro h
  rcases of_readSignature_eq_error h with ⟨-, h⟩ | h |
    ⟨-, rest, name, others, hrest, hname, hopen, hnot⟩ | ⟨param, hparam⟩
  · cases h
  · cases h
  · have hkeyword := Source.isKeyword_keyword kind
    obtain ⟨close, params, hclose, hparams⟩ := exists_argumentList hkeyword hs hrest hname hopen
    exact hnot close params hclose hparams
  · rcases of_readArgument_eq_error hparam with h | ⟨name, h⟩ | ⟨name, h⟩ <;> cases h

theorem readBody_ne_unbalanced {kind : Source.Kind} {s : List Char} (hs : isBalanced s = true) :
    readBody kind s ≠ .error .unbalanced := by
  intro h
  cases kind with
  | function =>
    rcases of_readFunction_eq_error h with h | ⟨name, h⟩ | ⟨name, h⟩
    · exact readSignature_ne_unbalanced hs h
    · cases h
    · cases h
  | procedure =>
    rcases of_readProcedure_eq_error h with h | ⟨text, name, h⟩
    · exact readSignature_ne_unbalanced hs h
    · cases h
  | constant =>
    rcases of_readConstant_eq_error h with ⟨-, h⟩ | ⟨name, rest, -, ⟨-, h⟩ | ⟨-, h | h⟩⟩ <;> cases h

/-- Only the whole text decides. -/
theorem read_eq_unbalanced {kind : Source.Kind} {s : List Char} {terminated : Bool} :
    read kind s terminated = .error .unbalanced ↔ isBalanced s = false := by
  unfold read
  cases hbalanced : isBalanced s with
  | false => exact iff_of_true rfl rfl
  | true =>
    refine iff_of_false (fun h => ?_) (by simp)
    cases terminated with
    | false => cases h
    | true =>
      have hbody : readBody kind (body s) = .error .unbalanced := by
        cases kind <;> exact h
      exact readBody_ne_unbalanced ((isBalanced_body s).trans hbalanced) hbody

/-! ## Main statement -/

/-- The error says that parentheses are unbalanced, in whatever text. -/
def IsUnbalanced (e : Error) : Prop := ∃ text, e.cause = .unbalancedParentheses text

theorem isUnbalanced_cause {d : Defect} {text : String} :
    IsUnbalanced (.ofCause (d.cause text)) ↔ d = .unbalanced := by
  constructor
  · rintro ⟨other, hcause⟩
    cases d with
    | unbalanced => rfl
    | _ => cases hcause
  · rintro rfl
    exact ⟨text, rfl⟩

/-- **Unbalanced parentheses are reported exactly if they are**, with the whole text. If they are
balanced, the argument list of a routine is closed and can be split, whatever its name. -/
theorem parse_unbalanced_iff (f : Source.Fragment) :
    ((∃ e, parse f = .error e ∧ IsUnbalanced e) ↔ isBalanced f.text.toList = false) ∧
    (isBalanced f.text.toList = false →
      parse f = .error (.ofCause (.unbalancedParentheses f.text))) ∧
    (isBalanced f.text.toList = true → ∀ (kind : Source.Kind) (rest name others : List Char),
      takeKeyword? kind.keyword.toList (body f.text.toList) = some rest →
      takeIdentifier? rest = some (name, others) → (trimStart others).head? = some '(' →
      ∃ close params, matchingParen? (trimStart others) 0 = some close ∧
        split? ',' (((trimStart others).take close).drop 1) = some params) := by
  have hparse : isBalanced f.text.toList = false →
      parse f = .error (.ofCause (.unbalancedParentheses f.text)) := by
    intro hbalanced
    rw [parse, read_eq_unbalanced.mpr hbalanced]
    rfl
  refine ⟨⟨?_, fun hbalanced => ⟨_, hparse hbalanced, f.text, rfl⟩⟩, hparse, ?_⟩
  · rintro ⟨e, he, hunbalanced⟩
    rw [parse] at he
    cases hread : read f.kind f.text.toList f.terminated with
    | ok d =>
      rw [hread] at he
      cases he
    | error d =>
      rw [hread] at he
      cases he
      obtain rfl := isUnbalanced_cause.mp hunbalanced
      exact read_eq_unbalanced.mp hread
  · intro hbalanced kind rest name others hrest hname hopen
    have hkeyword := Source.isKeyword_keyword kind
    exact exists_argumentList hkeyword ((isBalanced_body _).trans hbalanced) hrest hname hopen

/-- A procedure whose list is not closed, and one with a quoted name whose list is closed although
a quote is left open behind it. -/
theorem parse_unbalanced_of_open_list :
    let f : Source.Fragment :=
      ⟨.procedure, "procedure P(a number(10, 2), b varchar2;", ⟨0, 40, 1, 1⟩, true⟩
    let g : Source.Fragment :=
      ⟨.procedure, "procedure \"P(\" (a number(10, 2), b varchar2) 'x;", ⟨0, 47, 1, 1⟩, true⟩
    parse f = .error (.ofCause (.unbalancedParentheses f.text)) ∧
      (¬ ∃ e, parse g = .error e ∧ IsUnbalanced e) ∧
      ∃ close params,
        matchingParen? "(a number(10, 2), b varchar2) 'x".toList 0 = some close ∧
        split? ',' (("(a number(10, 2), b varchar2) 'x".toList.take close).drop 1) =
          some params := by
  intro f g
  have hbalanced : isBalanced g.text.toList = true := by decide
  obtain ⟨hiff, -, hlist⟩ := parse_unbalanced_iff g
  refine ⟨(parse_unbalanced_iff f).2.1 (by decide), fun h => ?_, ?_⟩
  · rw [hiff.mp h] at hbalanced
    cases hbalanced
  · exact hlist hbalanced .procedure "\"P(\" (a number(10, 2), b varchar2) 'x".toList "P(".toList
      " (a number(10, 2), b varchar2) 'x".toList (by decide) (by decide) (by decide)

end Declaration

end StoredRoutine
