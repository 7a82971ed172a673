import StoredRoutine.Proofs.Declaration.Rendering
import StoredRoutine.Proofs.Text.Groups
import StoredRoutine.Proofs.Text.Pieces

/-!
# Reading what was rendered

A declaration is read from the left, and so is this: for each of the reading functions there is a
lemma about a text that begins with what the function takes and goes on with anything that cannot
be mistaken for a part of it. They are put together in the order of the grammar, to
`Argument.readArgument_render` for arguments and `Declaration.read_render` for declarations.
-/

namespace StoredRoutine

open Text

namespace Declaration

/-! ## Words in front -/

/-- An identifier without quotes ends where the next character is none of a word. -/
theorem takeIdentifier?_plain {name rest : List Char} (hne : name ≠ [])
    (hword : ∀ c ∈ name, isWordChar c = true) (hdigit : name.head?.any Char.isDigit = false)
    (hblank : name.head?.any isBlank = false) (hrest : rest.head?.any isWordChar = false) :
    takeIdentifier? (name ++ rest) = some (name, rest) := by
  obtain ⟨c, cs, rfl⟩ := List.exists_cons_of_ne_nil hne
  obtain ⟨hc, hwords⟩ := List.forall_mem_cons.mp hword
  have hquote : c ≠ '"' := ne_of_isWordChar hc (by decide)
  have hdigit : c.isDigit = false := hdigit
  have htrim : trimStart (c :: cs ++ rest) = c :: cs ++ rest := trimStart_eq_self hblank
  obtain ⟨htake, hdrop⟩ := takeWhile_isWordChar_append hwords hrest
  rw [takeIdentifier?, htrim, List.cons_append]
  dsimp only
  rw [if_neg hquote, if_pos (by simp [hc, hdigit]), htake, hdrop]

theorem takeIdentifier?_append {name rest : List Char} (h : IsName name)
    (hrest : rest.head?.any isWordChar = false) :
    takeIdentifier? (name ++ rest) = some (name, rest) :=
  takeIdentifier?_plain h.ne_nil (fun c hc => (h.chars c hc).1) h.head h.trimmed.head hrest

/-- A quoted identifier ends at the next double quote. -/
theorem takeIdentifier?_quoted {name : List Char} (hne : name ≠ []) (hname : '"' ∉ name)
    (rest : List Char) : takeIdentifier? ('"' :: name ++ '"' :: rest) = some (name, rest) := by
  have hinside : ∀ c ∈ name, decide (c ≠ '"') = true := by
    intro c hc
    refine decide_eq_true fun hquote => hname ?_
    rwa [← hquote]
  have htake : (name ++ '"' :: rest).takeWhile (· ≠ '"') = name := by
    rw [List.takeWhile_append_of_pos hinside]
    simp
  have hdrop : (name ++ '"' :: rest).dropWhile (· ≠ '"') = '"' :: rest := by
    rw [List.dropWhile_append_of_pos hinside]
    simp
  have htrim : trimStart ('"' :: name ++ '"' :: rest) = '"' :: name ++ '"' :: rest := rfl
  obtain ⟨c, name, rfl⟩ := List.exists_cons_of_ne_nil hne
  rw [takeIdentifier?, htrim, List.cons_append]
  dsimp only
  rw [if_pos rfl, htake, hdrop]

theorem takeKeyword?_space (keyword rest : List Char) :
    takeKeyword? keyword (keyword ++ ' ' :: rest) = some (trimStart rest) := by
  have hstarts : startsWithLetters keyword (keyword ++ ' ' :: rest) = true := by
    rw [startsWithLetters, List.take_left]
    exact sameLetters_refl keyword
  rw [takeKeyword?, List.drop_left, hstarts]
  rfl

/-- A keyword that is not there is not there with a space behind the text either. -/
theorem takeKeyword?_append_space {keyword s : List Char} (hspace : ' ' ∉ asciiLower keyword)
    (h : takeKeyword? keyword s = none) (t : List Char) :
    takeKeyword? keyword (s ++ ' ' :: t) = none := by
  simp only [takeKeyword?, startsWithLetters_append_space hspace] at h ⊢
  split_ifs at h with hcond
  refine if_neg ?_
  cases hstarts : startsWithLetters keyword s with
  | false => exact Bool.false_ne_true
  | true =>
    rw [hstarts] at hcond
    rw [List.drop_append_of_le_length (length_le_of_startsWithLetters hstarts)]
    cases hrest : s.drop keyword.length with
    | nil =>
      rw [hrest] at hcond
      exact absurd rfl hcond
    | cons c rest =>
      rw [hrest] at hcond
      exact hcond

/-! ## Types and expressions -/

/-- Spaces as they stand between two words. -/
def gap (n : Nat) : List Char := List.replicate (n + 1) ' '

theorem isBlank_of_mem_gap {n : Nat} : ∀ c ∈ gap n, isBlank c = true := by
  intro c hc
  rw [List.eq_of_mem_replicate hc]
  rfl

/-- **Behind a text in which nothing is found**, and the spaces behind it. -/
theorem findFrom_gap {test : Option Char → List Char → Bool} {s : List Char} (hs : IsClosed s)
    (hlocal : ∀ left rest t, test left (rest ++ ' ' :: t) = test left rest)
    (hnone : findFrom test .start none s = none) (hspace : ∀ left t, test left (' ' :: t) = false)
    (n : Nat) (t : List Char) :
    findFrom test .start none (s ++ (gap n ++ t)) =
      (findFrom test .start (some ' ') t).map (· + (s ++ gap n).length) := by
  have hspaces (n : Nat) (left : Option Char) : findFrom test .start left (gap n ++ t) =
      (findFrom test .start (some ' ') t).map (· + (n + 1)) := by
    induction n generalizing left with
    | zero => exact findFrom_cons_of_neg (hspace left t)
    | succ n ih =>
      have hcons : gap (n + 1) ++ t = ' ' :: (gap n ++ t) := rfl
      rw [hcons, findFrom_cons_of_neg (hspace left _)]
      have hstep : Nesting.start.step ' ' = .start := rfl
      rw [hstep, ih, Option.map_map]
      rfl
  have hlocal' (left : Option Char) (rest : List Char) (_ : rest ≠ []) :
      test left (rest ++ (gap n ++ t)) = test left rest := hlocal left rest _
  rw [findFrom_append hlocal' hnone, hs, hspaces, Option.map_map]
  refine congrArg (fun f => Option.map f _) (funext fun i => ?_)
  simp [gap]
  omega

/-- What is no match itself is not found. -/
theorem pos_of_findFrom {test : Option Char → List Char → Bool} {n : Nesting} {left : Option Char}
    {s : List Char} (hs : test left s = false) {i : Nat} (h : findFrom test n left s = some i) :
    0 < i := by
  cases s with
  | nil => cases h
  | cons c s =>
    rw [findFrom_cons_of_neg hs] at h
    obtain ⟨j, -, rfl⟩ := Option.map_eq_some_iff.mp h
    exact Nat.succ_pos j

/-- A text in which nothing introduces an expression. -/
structure IsUncut (s : List Char) : Prop where
  ne_nil : s ≠ []
  trimmed : IsTrimmed s
  closed : IsClosed s
  assign : findSequence? ":=".toList s = none
  default : findKeyword? "default".toList s = none

theorem isUncut_of_isTypeText {s : List Char} (h : IsTypeText s) : IsUncut s :=
  ⟨h.ne_nil, h.trimmed, h.closed, h.assign, h.default⟩

namespace IsUncut

variable {s value : List Char} (hs : IsUncut s)

include hs

theorem splitDefault_eq : splitDefault s = (s, none) := by
  simp only [splitDefault, hs.assign, hs.default, trim_eq_self hs.trimmed]

theorem findSequence?_gap (n : Nat) (t : List Char) :
    findSequence? ":=".toList (s ++ (gap n ++ t)) =
      (findFrom (fun _ => ":=".toList.isPrefixOf) .start (some ' ') t).map
        (· + (s ++ gap n).length) :=
  findFrom_gap hs.closed (fun _ rest t => isPrefixOf_append_space (by decide) rest t) hs.assign
    (fun _ _ => rfl) n t

theorem findKeyword?_gap (n : Nat) (t : List Char) :
    findKeyword? "default".toList (s ++ (gap n ++ t)) =
      (findFrom (isWholeWord "default".toList) .start (some ' ') t).map
        (· + (s ++ gap n).length) :=
  findFrom_gap hs.closed (fun left rest t => isWholeWord_append_space (by decide) left rest t)
    hs.default (fun _ _ => rfl) n t

/-- What is cut off behind the text, without the spaces around it. -/
theorem trim_cut (hvalue : IsTrimmed value) (n m : Nat) (introduction : List Char) {t : List Char}
    (ht : t = s ++ (gap n ++ (introduction ++ (gap m ++ value)))) {length : Nat}
    (hlength : introduction.length = length) :
    (trim (t.take (s ++ gap n).length), some (trim (t.drop ((s ++ gap n).length + length)))) =
      (s, some value) := by
  have htake : t.take (s ++ gap n).length = s ++ gap n := by
    rw [ht, ← List.append_assoc]
    exact List.take_left
  have hdrop : t.drop ((s ++ gap n).length + length) = gap m ++ value := by
    have hparts : t = (s ++ gap n ++ introduction) ++ (gap m ++ value) := by simp [ht]
    rw [hparts, ← hlength, ← List.length_append]
    exact List.drop_left
  have hfront : Padded s (s ++ gap n) := ⟨[], gap n, rfl, by simp, isBlank_of_mem_gap⟩
  have hback : Padded value (gap m ++ value) := ⟨gap m, [], by simp, isBlank_of_mem_gap, by simp⟩
  rw [htake, hdrop, hfront.trim_eq hs.trimmed, hback.trim_eq hvalue]

/-- **An expression behind `:=`.** Whatever the expression holds comes after the sequence that
introduces it. -/
theorem splitDefault_assign (hvalue : IsTrimmed value) (n m : Nat) :
    splitDefault (s ++ (gap n ++ (":=".toList ++ (gap m ++ value)))) = (s, some value) := by
  have hcut := hs.trim_cut hvalue n m ":=".toList rfl rfl
  have hassign : findSequence? ":=".toList (s ++ (gap n ++ (":=".toList ++ (gap m ++ value)))) =
      some (s ++ gap n).length := by
    rw [hs.findSequence?_gap]
    simp [findFrom, Nesting.depthAt?, Nesting.start, isQuote]
  simp only [splitDefault, hassign]
  cases hfound : findKeyword? "default".toList
      (s ++ (gap n ++ (":=".toList ++ (gap m ++ value)))) with
  | none => exact hcut
  | some j =>
    -- The keyword is not in the type, so it is in the expression.
    rw [hs.findKeyword?_gap] at hfound
    obtain ⟨k, hk, rfl⟩ := Option.map_eq_some_iff.mp hfound
    have hpos : 0 < k := pos_of_findFrom rfl hk
    exact (if_pos (by omega)).trans hcut

end IsUncut

theorem splitDefault_type {s : List Char} (hs : IsTypeText s) : splitDefault s = (s, none) :=
  (isUncut_of_isTypeText hs).splitDefault_eq

theorem splitDefault_assign {s value : List Char} (hs : IsTypeText s) (hvalue : IsTrimmed value) :
    splitDefault (s ++ ' ' :: ':' :: '=' :: ' ' :: value) = (s, some value) :=
  (isUncut_of_isTypeText hs).splitDefault_assign hvalue 0 0

end Declaration

/-! ## Arguments -/

namespace Argument

open Declaration

theorem takeKeyword?_append_tail {a : Argument} {keyword s : List Char}
    (hspace : ' ' ∉ asciiLower keyword) (h : takeKeyword? keyword s = none) :
    takeKeyword? keyword (s ++ a.tail) = none := by
  unfold tail
  cases a.defaultValue with
  | none => rwa [List.append_nil]
  | some value => exact takeKeyword?_append_space hspace h _

/-- The direction that is read is the one that was written. -/
theorem takeDirection_mark {a : Argument} (h : a.IsWellFormed) :
    takeDirection (trimStart (a.mark ++ ' ' :: (a.typeName.toList ++ a.tail))) =
      (if a.explicitDirection then some a.direction else none, a.typeName.toList ++ a.tail) := by
  have htrim := h.type.trimmed.trimStart_append h.type.ne_nil a.tail
  have hclear := h.direction
  unfold HasClearDirection at hclear
  unfold mark
  generalize a.explicitDirection = explicitDirection at *
  generalize a.direction = direction at *
  have hspace (keyword : List Char) :
      takeKeyword? keyword (keyword ++ ' ' :: (a.typeName.toList ++ a.tail)) =
        some (a.typeName.toList ++ a.tail) := by
    rw [takeKeyword?_space, htrim]
  cases explicitDirection with
  | false =>
    cases direction with
    | into =>
      obtain ⟨hin, hout⟩ := hclear
      have hin' := takeKeyword?_append_tail (a := a) (by decide) hin
      have hout' := takeKeyword?_append_tail (a := a) (by decide) hout
      simp only [Bool.false_eq_true, if_false, List.nil_append, trimStart_space, htrim]
      rw [takeDirection, hin', hout']
    | out => exact absurd hclear (by simp)
    | inOut => exact absurd hclear (by simp)
  | true =>
    cases direction with
    | into =>
      have hout' := takeKeyword?_append_tail (a := a) (by decide) hclear
      have htext : trimStart (' ' :: Direction.into.keywords.toList ++
          ' ' :: (a.typeName.toList ++ a.tail)) =
            "in".toList ++ ' ' :: (a.typeName.toList ++ a.tail) := rfl
      rw [if_pos rfl, htext, if_pos rfl]
      simp only [takeDirection, hspace, hout']
    | out =>
      have htext : trimStart (' ' :: Direction.out.keywords.toList ++
          ' ' :: (a.typeName.toList ++ a.tail)) =
            "out".toList ++ ' ' :: (a.typeName.toList ++ a.tail) := rfl
      have hin : takeKeyword? "in".toList
          ("out".toList ++ ' ' :: (a.typeName.toList ++ a.tail)) = none :=
        takeKeyword?_append_space (by decide) (by decide) _
      rw [if_pos rfl, htext, if_pos rfl]
      simp only [takeDirection, hin, hspace]
    | inOut =>
      have htext : trimStart (' ' :: Direction.inOut.keywords.toList ++
          ' ' :: (a.typeName.toList ++ a.tail)) =
            "in".toList ++ ' ' :: ("out".toList ++ ' ' :: (a.typeName.toList ++ a.tail)) := rfl
      have hin : takeKeyword? "in".toList
          ("in".toList ++ ' ' :: ("out".toList ++ ' ' :: (a.typeName.toList ++ a.tail))) =
            some ("out".toList ++ ' ' :: (a.typeName.toList ++ a.tail)) :=
        takeKeyword?_space _ _
      rw [if_pos rfl, htext, if_pos rfl]
      simp only [takeDirection, hin, hspace]

/-- A type that does not begin with the keyword `nocopy` is left alone. -/
theorem takeNocopy_typeText {a : Argument} (h : a.IsWellFormed)
    (hout : a.direction.producesOutput = true) :
    takeKeyword? "nocopy".toList (a.typeName.toList ++ a.tail) = none := by
  refine takeKeyword?_append_tail (by decide) ?_
  have hclear := h.direction
  unfold HasClearDirection at hclear
  generalize a.explicitDirection = explicitDirection at *
  generalize a.direction = direction at *
  cases direction with
  | into => cases hout
  | out =>
    cases explicitDirection with
    | false => exact absurd hclear (by simp)
    | true => exact hclear
  | inOut =>
    cases explicitDirection with
    | false => exact absurd hclear (by simp)
    | true => exact hclear

theorem getD_direction {a : Argument} (h : a.IsWellFormed) :
    (if a.explicitDirection then some a.direction else none).getD .into = a.direction := by
  have hclear := h.direction
  unfold HasClearDirection at hclear
  generalize a.explicitDirection = explicitDirection at *
  generalize a.direction = direction at *
  cases explicitDirection with
  | true => rfl
  | false =>
    cases direction with
    | into => rfl
    | out => exact absurd hclear (by simp)
    | inOut => exact absurd hclear (by simp)

theorem splitDefault_typeText {a : Argument} (h : a.IsWellFormed) :
    splitDefault (a.typeName.toList ++ a.tail) =
      (a.typeName.toList, a.defaultValue.map String.toList) := by
  unfold tail
  cases hvalue : a.defaultValue with
  | none =>
    rw [List.append_nil, splitDefault_type h.type]
    rfl
  | some value =>
    rw [splitDefault_assign h.type (h.value value hvalue).1.trimmed]
    rfl

/-- **Reading a rendered argument** gives the argument. -/
theorem readArgument_render {a : Argument} (h : a.IsWellFormed) :
    readArgument a.render.toList = .ok a := by
  have hident : takeIdentifier? a.render.toList =
      some (a.name.toList, a.mark ++ ' ' :: (a.typeName.toList ++ a.tail)) := by
    rw [toList_render]
    refine takeIdentifier?_append h.name ?_
    unfold mark
    cases a.explicitDirection <;> rfl
  have hnocopy : (if a.direction.producesOutput then
      (takeKeyword? "nocopy".toList (a.typeName.toList ++ a.tail)).getD
        (a.typeName.toList ++ a.tail)
      else a.typeName.toList ++ a.tail) = a.typeName.toList ++ a.tail := by
    split
    · next hout => rw [takeNocopy_typeText h hout, Option.getD_none]
    · rfl
  have hempty : a.typeName.toList.isEmpty = false := by
    simpa using h.type.ne_nil
  have hdefault : a.defaultValue.map String.toList ≠ some [] := by
    intro heq
    obtain ⟨value, hvalue, hnil⟩ := Option.map_eq_some_iff.mp heq
    exact (h.value value hvalue).1.ne_nil hnil
  have hvalue : (a.defaultValue.map String.toList).map String.ofList = a.defaultValue := by
    cases a.defaultValue <;> simp
  have hexplicit : (if a.explicitDirection then some a.direction else none).isSome =
      a.explicitDirection := by
    cases a.explicitDirection <;> rfl
  unfold readArgument
  rw [hident]
  simp only [takeDirection_mark h, getD_direction h, hnocopy, splitDefault_typeText h, hempty,
    hdefault, Bool.false_eq_true, if_false, hvalue, hexplicit, String.ofList_toList]
  rfl

end Argument

/-! ## Signatures -/

namespace Declaration

open Argument

/-- The texts of a list are joined with commas, and all but the first have a space in front. -/
theorem joined_intercalate (s : List Char) (rest : List (List Char)) :
    Joined ',' (s :: rest) ([',', ' '].intercalate (s :: rest)) := by
  induction rest generalizing s with
  | nil =>
    rw [List.intercalate_singleton]
    exact .last (.refl s)
  | cons t rest ih =>
    have hjoined : [',', ' '].intercalate (s :: t :: rest) =
        s ++ ',' :: (' ' :: [',', ' '].intercalate (t :: rest)) := by
      rw [List.intercalate_cons_cons]
      simp
    rw [hjoined]
    exact .cons (.refl s) ((ih t).cons_blank rfl)

theorem split?_joined {a : Argument} {rest : List Argument}
    (h : ∀ b ∈ a :: rest, b.IsWellFormed) :
    split? ',' (joined (a :: rest)) = some ((a :: rest).map (·.render.toList)) := by
  have hjoined := joined_intercalate a.render.toList (rest.map (·.render.toList))
  refine hjoined.split?_eq (by decide) (joined_isPhrase h).isBlankText_eq_false ?_
  intro part hpart
  rw [← List.map_cons (f := fun b : Argument => b.render.toList), List.mem_map] at hpart
  obtain ⟨b, hb, rfl⟩ := hpart
  have hfits := Argument.render_fits (h b hb)
  exact ⟨render_trimmed (h b hb), hfits.closed, hfits.lacks⟩

theorem mapM_readArgument {arguments : List Argument} (h : ∀ a ∈ arguments, a.IsWellFormed) :
    (arguments.map (·.render.toList)).mapM readArgument = .ok arguments := by
  rw [mapM_eq_ok, List.map_map]
  exact List.map_congr_left fun a ha => readArgument_render (h a ha)

/-- **Reading a signature.** What follows it is left over, without the blanks in front. -/
theorem readSignature_append (kind : Source.Kind) {name : List Char} {arguments : List Argument}
    {tail left : List Char} (hname : IsName name) (harguments : ∀ a ∈ arguments, a.IsWellFormed)
    (htail : tail.head?.any isWordChar = false) (hleft : trimStart tail = left)
    (htrimmed : IsTrimmed left) (hopen : left.head? ≠ some '(') :
    readSignature kind
        (kind.keyword.toList ++ ' ' :: (name ++ ((renderList arguments).toList ++ tail))) =
      .ok ⟨String.ofList name, arguments, left⟩ := by
  have hkeyword : takeKeyword? kind.keyword.toList
      (kind.keyword.toList ++ ' ' :: (name ++ ((renderList arguments).toList ++ tail))) =
        some (name ++ ((renderList arguments).toList ++ tail)) := by
    rw [takeKeyword?_space, hname.trimmed.trimStart_append hname.ne_nil]
  have hident : takeIdentifier? (name ++ ((renderList arguments).toList ++ tail)) =
      some (name, (renderList arguments).toList ++ tail) := by
    refine takeIdentifier?_append hname ?_
    cases arguments with
    | nil => exact htail
    | cons a rest =>
      rw [toList_renderList (List.cons_ne_nil a rest)]
      rfl
  cases arguments with
  | nil =>
    unfold readSignature
    rw [hkeyword]
    simp only [hident]
    have hlist : (renderList []).toList ++ tail = tail := rfl
    rw [hlist, hleft, if_pos hopen, trim_eq_self htrimmed]
    rfl
  | cons a rest =>
    have hlist : trimStart ((renderList (a :: rest)).toList ++ tail) =
        '(' :: joined (a :: rest) ++ ')' :: tail := by
      rw [toList_renderList (List.cons_ne_nil a rest), List.append_assoc]
      rfl
    have hmatching : matchingParen? ('(' :: joined (a :: rest) ++ ')' :: tail) 0 =
        some ((joined (a :: rest)).length + 1) :=
      matchingParen?_group (joined_isPhrase harguments).closed tail
    unfold readSignature
    rw [hkeyword]
    simp only [hident, hlist, hmatching]
    have htake : ('(' :: joined (a :: rest) ++ ')' :: tail).take ((joined (a :: rest)).length + 1) =
        '(' :: joined (a :: rest) := List.take_left' rfl
    have hdrop : ('(' :: joined (a :: rest) ++ ')' :: tail).drop
        ((joined (a :: rest)).length + 1 + 1) = tail := by
      rw [List.append_cons]
      exact List.drop_left' (by simp)
    have hleft' : trim tail = left := by rw [trim, hleft, trimEnd_eq_self htrimmed.last]
    -- the list of arguments is there, so it is read
    have hopened : ¬ ('(' :: joined (a :: rest) ++ ')' :: tail).head? ≠ some '(' := by simp
    rw [if_neg hopened, htake, hdrop, hleft', List.drop_one, List.tail_cons,
      split?_joined harguments]
    dsimp only
    rw [mapM_readArgument harguments]
    rfl

/-! ## Declarations -/

theorem withoutModifiers_eq_self {s : List Char} (h : IsReturnText s) :
    withoutModifiers s = s := by
  have hnone : returnModifiers.filterMap (fun modifier => findKeyword? modifier.toList s) = [] :=
    List.filterMap_eq_nil_iff.mpr h.modifier
  simp only [withoutModifiers, hnone, List.min?_nil, Option.getD_none, List.take_length]
  exact trim_eq_self h.trimmed

theorem readFunction_render {name returnType : String} {arguments : List Argument}
    (h : IsWritable (.function name arguments returnType)) :
    readFunction (render (.function name arguments returnType)).toList =
      .ok (.function name arguments returnType) := by
  obtain ⟨hname, harguments, hreturn⟩ := h
  have hleft : IsTrimmed ("return".toList ++ ' ' :: returnType.toList) := by
    have htrimmed : IsTrimmed "return".toList := by decide
    rw [List.append_cons]
    exact htrimmed.append (by decide) hreturn.trimmed hreturn.ne_nil [' ']
  have hstart : trimStart (' ' :: ("return".toList ++ ' ' :: returnType.toList)) =
      "return".toList ++ ' ' :: returnType.toList := rfl
  have hsignature := readSignature_append .function hname harguments rfl hstart hleft (by simp)
  have hkeyword : takeKeyword? "return".toList ("return".toList ++ ' ' :: returnType.toList) =
      some returnType.toList := by
    rw [takeKeyword?_space, trimStart_eq_self hreturn.trimmed.head]
  have hempty : returnType.toList.isEmpty = false := by simpa using hreturn.ne_nil
  rw [toList_render_function, readFunction]
  refine bind_eq_ok.mpr ⟨_, hsignature, ?_⟩
  simp only [hkeyword, withoutModifiers_eq_self hreturn, hempty, String.ofList_toList]
  rfl

theorem readProcedure_render {name : String} {arguments : List Argument}
    (h : IsWritable (.procedure name arguments)) :
    readProcedure (render (.procedure name arguments)).toList =
      .ok (.procedure name arguments) := by
  obtain ⟨hname, harguments⟩ := h
  have hstart : trimStart [] = [] := rfl
  have hsignature := readSignature_append .procedure hname harguments rfl hstart (by decide)
    (by simp)
  rw [List.append_nil] at hsignature
  rw [toList_render_procedure, readProcedure]
  refine bind_eq_ok.mpr ⟨_, hsignature, ?_⟩
  simp only [String.ofList_toList]
  rfl

theorem readConstant_render {name typeName value : String}
    (h : IsWritable (.constant name typeName value)) :
    readConstant (render (.constant name typeName value)).toList =
      .ok (.constant name typeName value) := by
  obtain ⟨hname, ⟨htype, -⟩, hvalue, -⟩ := h
  have hident : takeIdentifier? (render (.constant name typeName value)).toList =
      some (name.toList, ' ' :: ("constant".toList ++ ' ' :: (typeName.toList ++
        ' ' :: ':' :: '=' :: ' ' :: value.toList))) := by
    rw [toList_render_constant]
    exact takeIdentifier?_append hname rfl
  have hstart : trimStart (' ' :: ("constant".toList ++ ' ' :: (typeName.toList ++
      ' ' :: ':' :: '=' :: ' ' :: value.toList))) =
        "constant".toList ++ ' ' :: (typeName.toList ++ ' ' :: ':' :: '=' :: ' ' :: value.toList) :=
    rfl
  have hkeyword : takeKeyword? "constant".toList ("constant".toList ++ ' ' :: (typeName.toList ++
      ' ' :: ':' :: '=' :: ' ' :: value.toList)) =
        some (typeName.toList ++ ' ' :: ':' :: '=' :: ' ' :: value.toList) := by
    rw [takeKeyword?_space, htype.trimmed.trimStart_append htype.ne_nil]
  have hempty : typeName.toList.isEmpty = false := by simpa using htype.ne_nil
  unfold readConstant
  rw [hident]
  simp only [hstart, hkeyword, splitDefault_assign htype hvalue.trimmed, hempty,
    String.ofList_toList]
  rw [if_neg Bool.false_ne_true]
  split
  · next heq => cases heq
  · next heq => exact absurd (Option.some.inj heq) hvalue.ne_nil
  · next text _ heq =>
    obtain rfl : value.toList = text := Option.some.inj heq
    rw [String.ofList_toList]
    rfl

/-- **Reading a rendered declaration** gives the declaration. -/
theorem read_render {d : Declaration} (h : d.IsWritable) :
    read d.kind (d.render.toList ++ [';']) true = .ok d := by
  have hphrase := h.render_isPhrase
  have hbody : body (d.render.toList ++ [';']) = d.render.toList := by
    rw [body, List.getLast?_concat, if_pos rfl, List.dropLast_concat, trim_eq_self hphrase.trimmed]
  have hbalanced : isBalanced (d.render.toList ++ [';']) = true := by
    rw [isBalanced, Nesting.after_append, hphrase.closed]
    rfl
  unfold read
  rw [hbalanced, hbody]
  cases d with
  | function name arguments returnType => exact readFunction_render h
  | procedure name arguments => exact readProcedure_render h
  | constant name typeName value => exact readConstant_render h

end Declaration

end StoredRoutine
