import StoredRoutine.Proofs.Declaration.Rendering
import StoredRoutine.Proofs.Text.Cuts
import StoredRoutine.Proofs.Text.Groups
import StoredRoutine.Proofs.Text.Pieces

/-!
# What a declaration was read from

Whatever is read is a part of the text it is read from, and is cut off where the reader stops. So
if the text is loose, types and expressions are phrases, and nothing in them would make the reader
stop earlier. A declaration that was read can therefore be written down (`isWritable_of_read`),
as long as its names are names. One thing is lost in reading: behind a direction the keyword
`nocopy` is dropped, so that a type which begins with it must have been written after another one.
-/

namespace StoredRoutine

open Text

theorem Source.isKeyword_keyword (kind : Source.Kind) : IsKeyword kind.keyword.toList := by
  cases kind <;> decide

namespace Declaration

/-! ## Words in front -/

/-- A keyword is a closed text. -/
theorem isRest_of_takeKeyword? {keyword s rest : List Char} (hkeyword : IsKeyword keyword)
    (h : takeKeyword? keyword s = some rest) : IsRest rest s ∧ rest.head?.any isBlank = false := by
  simp only [takeKeyword?] at h
  split_ifs at h with hcond
  obtain rfl := Option.some.inj h
  rw [Bool.and_eq_true] at hcond
  have hword : IsClosed (s.take keyword.length) :=
    isClosed_of_word (hkeyword.of_sameLetters hcond.1)
  have hrest : IsRest (s.drop keyword.length) s :=
    ⟨s.take keyword.length, (List.take_append_drop _ s).symm, hword⟩
  exact ⟨(isRest_trimStart _).trans hrest, head?_trimStart _⟩

theorem isPart_of_takeKeyword? {keyword s rest : List Char} (hkeyword : IsKeyword keyword)
    (hs : IsClosed s) (h : takeKeyword? keyword s = some rest) :
    IsPart rest s ∧ rest.head?.any isBlank = false := by
  obtain ⟨hrest, hhead⟩ := isRest_of_takeKeyword? hkeyword h
  exact ⟨hrest.isPart hs, hhead⟩

/-- A keyword that is not there with something behind the text is not there without it, if that
stands apart. -/
theorem takeKeyword?_eq_none_of_append {keyword s t : List Char} (hkeyword : IsKeyword keyword)
    (hapart : Apart s t) (h : takeKeyword? keyword (s ++ t) = none) :
    takeKeyword? keyword s = none := by
  simp only [takeKeyword?] at h ⊢
  split_ifs at h with hcond
  refine if_neg fun htaken => hcond ?_
  rw [Bool.and_eq_true, Bool.not_eq_true'] at htaken ⊢
  exact ⟨startsWithLetters_append htaken.1 t,
    any_head?_drop_append htaken.1 hkeyword hapart (fun _ => id) htaken.2⟩

theorem takeKeyword?_eq_none_of_isFront {keyword s t : List Char} (hkeyword : IsKeyword keyword)
    (hfront : IsFront t s) (h : takeKeyword? keyword s = none) :
    takeKeyword? keyword t = none := by
  obtain ⟨b, rfl, -, hapart⟩ := hfront
  exact takeKeyword?_eq_none_of_append hkeyword hapart h

/-- So is an identifier, even where its quotes are doubled: the first of them close it. -/
theorem isRest_of_takeIdentifier? {s name rest : List Char}
    (h : takeIdentifier? s = some (name, rest)) : IsRest rest s := by
  refine IsRest.trans ?_ (isRest_trimStart s)
  unfold takeIdentifier? at h
  cases htrim : trimStart s with
  | nil =>
    rw [htrim] at h
    cases h
  | cons c others =>
    rw [htrim] at h
    dsimp only at h
    split_ifs at h with hquote hword
    · subst hquote
      cases hname : others.takeWhile (· ≠ '"') with
      | nil =>
        rw [hname] at h
        cases h
      | cons e name' =>
        cases hdrop : others.dropWhile (· ≠ '"') with
        | nil =>
          rw [hname, hdrop] at h
          cases h
        | cons d rest' =>
          rw [hname, hdrop] at h
          obtain ⟨rfl, rfl⟩ := Prod.mk.inj (Option.some.inj h)
          -- the section is closed by the first quote after it was opened
          obtain rfl : d = '"' := by
            have hnot := List.head?_dropWhile_not (· ≠ '"') others
            rw [hdrop] at hnot
            simpa using hnot
          refine ⟨'"' :: others.takeWhile (· ≠ '"') ++ ['"'], ?_, isClosed_quoted fun f hf => ?_⟩
          · rw [List.append_assoc, List.singleton_append, ← hdrop, List.cons_append,
              List.takeWhile_append_dropWhile]
          · simpa using List.all_eq_true.mp List.all_takeWhile f hf
    · obtain ⟨rfl, rfl⟩ := Prod.mk.inj (Option.some.inj h)
      rw [Bool.and_eq_true] at hword
      refine ⟨c :: others.takeWhile isWordChar, ?_, isClosed_of_word (List.forall_mem_cons.mpr
        ⟨hword.1, fun d hd => List.all_eq_true.mp List.all_takeWhile d hd⟩)⟩
      rw [List.cons_append, List.takeWhile_append_dropWhile]

theorem isPart_of_takeIdentifier? {s name rest : List Char} (hs : IsClosed s)
    (h : takeIdentifier? s = some (name, rest)) : IsPart rest s :=
  (isRest_of_takeIdentifier? h).isPart hs

/-- **Reading a direction.** Where none or only `in` is written, what follows does not begin with a
keyword that would have been read, too. -/
theorem takeDirection_spec {s rest : List Char} {written : Option Direction} (hs : IsClosed s)
    (hhead : s.head?.any isBlank = false) (h : takeDirection s = (written, rest)) :
    IsPart rest s ∧ rest.head?.any isBlank = false ∧
      (written = none → takeKeyword? "in".toList rest = none ∧
        takeKeyword? "out".toList rest = none) ∧
      (written = some .into → takeKeyword? "out".toList rest = none) := by
  unfold takeDirection at h
  cases hin : takeKeyword? "in".toList s with
  | some others =>
    obtain ⟨hpart, hothers⟩ := isPart_of_takeKeyword? (by decide) hs hin
    rw [hin] at h
    dsimp only at h
    cases hout : takeKeyword? "out".toList others with
    | some last =>
      obtain ⟨hpart', hlast⟩ := isPart_of_takeKeyword? (by decide) hpart.isClosed hout
      rw [hout] at h
      obtain ⟨rfl, rfl⟩ := Prod.mk.inj h
      exact ⟨hpart'.trans hpart, hlast, by simp, by simp⟩
    | none =>
      rw [hout] at h
      obtain ⟨rfl, rfl⟩ := Prod.mk.inj h
      exact ⟨hpart, hothers, by simp, fun _ => hout⟩
  | none =>
    rw [hin] at h
    dsimp only at h
    cases hout : takeKeyword? "out".toList s with
    | some last =>
      obtain ⟨hpart, hlast⟩ := isPart_of_takeKeyword? (by decide) hs hout
      rw [hout] at h
      obtain ⟨rfl, rfl⟩ := Prod.mk.inj h
      exact ⟨hpart, hlast, by simp, by simp⟩
    | none =>
      rw [hout] at h
      obtain ⟨rfl, rfl⟩ := Prod.mk.inj h
      exact ⟨.refl hs, hhead, fun _ => ⟨hin, hout⟩, by simp⟩

/-! ## Types and expressions -/

/-- **A type ends where an expression is introduced**, so none is introduced in it. -/
theorem trim_type_spec {s a : List Char} (hs : IsLoose s) (hhead : s.head?.any isBlank = false)
    (ha : IsFront a s) (hassign : ∀ i ∈ findSequence? ":=".toList s, a.length ≤ i)
    (hdefault : ∀ i ∈ findKeyword? "default".toList s, a.length ≤ i) :
    IsFront (trim a) s ∧ findSequence? ":=".toList (trim a) = none ∧
      findKeyword? "default".toList (trim a) = none := by
  have hfront := hs.isFront_trim hhead ha
  have hlength := length_trim_le a
  obtain ⟨b, hb, -, hapart⟩ := hfront
  refine ⟨hs.isFront_trim hhead ha, ?_, ?_⟩
  · refine findSequence?_eq_none_of_append (t := b) ?_
    intro i hi
    rw [← hb] at hi
    exact Nat.le_trans hlength (hassign i hi)
  · refine findKeyword?_eq_none_of_append (by decide) hapart ?_
    intro i hi
    rw [← hb] at hi
    exact Nat.le_trans hlength (hdefault i hi)

/-- What is known of a type and of the expression behind it. -/
structure Separated (s type : List Char) (value? : Option (List Char)) : Prop where
  front : IsFront type s
  assign : findSequence? ":=".toList type = none
  default : findKeyword? "default".toList type = none
  trimmed : IsTrimmed type
  value : ∀ value ∈ value?, IsPart value s ∧ IsTrimmed value

section SplitDefault

variable {s : List Char} (hs : IsLoose s) (hhead : s.head?.any isBlank = false)

include hs hhead

/-- The text is cut at `word`, before which nothing introduces an expression. -/
theorem separated_of_cut {a word b : List Char} (hparts : s = a ++ (word ++ b)) (ha : IsClosed a)
    (hword : IsClosed word) (hapart : Apart a (word ++ b))
    (hassign : ∀ i ∈ findSequence? ":=".toList s, a.length ≤ i)
    (hdefault : ∀ i ∈ findKeyword? "default".toList s, a.length ≤ i) :
    Separated s (trim a) (some (trim b)) := by
  obtain ⟨hfront, hnone, hnone'⟩ :=
    trim_type_spec hs hhead ⟨_, hparts, ha, hapart⟩ hassign hdefault
  refine ⟨hfront, hnone, hnone', isTrimmed_trim a, ?_⟩
  intro value hvalue
  obtain rfl := Option.mem_some.mp hvalue
  have hright : IsPart b s := by
    have hclosed := hs.closed
    rw [hparts, ← List.append_assoc] at hclosed ⊢
    exact .right hclosed (ha.append hword)
  exact ⟨(isPart_trim hright.isClosed).trans hright, isTrimmed_trim b⟩

theorem separated_of_assign {i : Nat} (hi : findSequence? ":=".toList s = some i)
    (hfirst : ∀ j ∈ findKeyword? "default".toList s, i ≤ j) :
    Separated s (trim (s.take i)) (some (trim (s.drop (i + 2)))) := by
  obtain ⟨a, b, hparts, rfl, ha⟩ := exists_of_findSequence? hs.closed (by decide) hi
  have htake : s.take a.length = a := by rw [hparts, List.take_left]
  have hdrop : s.drop (a.length + 2) = b := by
    rw [← List.drop_drop, hparts, List.drop_left]
    rfl
  have hlength : ∀ j ∈ findSequence? ":=".toList s, a.length ≤ j := by
    rw [hi]
    rintro _ ⟨⟩
    exact Nat.le_refl _
  rw [htake, hdrop]
  exact separated_of_cut hs hhead hparts ha (by decide) (.of_head? a rfl) hlength hfirst

theorem separated_of_default {j : Nat} (hj : findKeyword? "default".toList s = some j)
    (hfirst : ∀ i ∈ findSequence? ":=".toList s, j ≤ i) :
    Separated s (trim (s.take j)) (some (trim (s.drop (j + 7)))) := by
  obtain ⟨a, word, b, hparts, rfl, hwordLength, ha, hword, hapart⟩ :=
    exists_of_findKeyword? hs.closed (by decide) hj
  have htake : s.take a.length = a := by rw [hparts, List.take_left]
  have hdrop : s.drop (a.length + 7) = b := by
    rw [← List.drop_drop, hparts, List.drop_left]
    exact List.drop_left' hwordLength
  have hlength : ∀ i ∈ findKeyword? "default".toList s, a.length ≤ i := by
    rw [hj]
    rintro _ ⟨⟩
    exact Nat.le_refl _
  rw [htake, hdrop]
  exact separated_of_cut hs hhead hparts ha (isClosed_of_word hword) hapart hfirst hlength

/-- **Reading a type and an expression.** -/
theorem separated_of_splitDefault {type : List Char} {value? : Option (List Char)}
    (h : splitDefault s = (type, value?)) : Separated s type value? := by
  have hlengths : ":=".toList.length = 2 ∧ "default".toList.length = 7 := by decide
  simp only [splitDefault, hlengths] at h
  cases hi : findSequence? ":=".toList s with
  | some i =>
    cases hj : findKeyword? "default".toList s with
    | some j =>
      rw [hi, hj] at h
      dsimp only at h
      split_ifs at h with hlt
      · obtain ⟨rfl, rfl⟩ := Prod.mk.inj h
        refine separated_of_assign hs hhead hi ?_
        rw [hj]
        rintro _ ⟨⟩
        exact Nat.le_of_lt hlt
      · obtain ⟨rfl, rfl⟩ := Prod.mk.inj h
        refine separated_of_default hs hhead hj ?_
        rw [hi]
        rintro _ ⟨⟩
        exact Nat.not_lt.mp hlt
    | none =>
      rw [hi, hj] at h
      obtain ⟨rfl, rfl⟩ := Prod.mk.inj h
      exact separated_of_assign hs hhead hi (by rw [hj]; rintro _ ⟨⟩)
  | none =>
    cases hj : findKeyword? "default".toList s with
    | some j =>
      rw [hi, hj] at h
      obtain ⟨rfl, rfl⟩ := Prod.mk.inj h
      exact separated_of_default hs hhead hj (by rw [hi]; rintro _ ⟨⟩)
    | none =>
      rw [hi, hj] at h
      obtain ⟨rfl, rfl⟩ := Prod.mk.inj h
      obtain ⟨hfront, hnone, hnone'⟩ := trim_type_spec hs hhead (.refl hs.closed)
        (by rw [hi]; rintro _ ⟨⟩) (by rw [hj]; rintro _ ⟨⟩)
      exact ⟨hfront, hnone, hnone', isTrimmed_trim s, by simp⟩

end SplitDefault

theorem isKeyword_of_mem_returnModifiers :
    ∀ modifier ∈ returnModifiers, IsKeyword modifier.toList := by
  decide

/-- What comes before the first modifier. -/
theorem exists_isFront_withoutModifiers {s : List Char} (hs : IsLoose s) :
    ∃ a, IsFront a s ∧ withoutModifiers s = trim a ∧
      ∀ modifier ∈ returnModifiers, ∀ i ∈ findKeyword? modifier.toList s, a.length ≤ i := by
  unfold withoutModifiers
  generalize hends : returnModifiers.filterMap (fun modifier =>
    findKeyword? modifier.toList s) = ends
  have hmem : ∀ modifier ∈ returnModifiers, ∀ i ∈ findKeyword? modifier.toList s, i ∈ ends := by
    intro modifier hmodifier i hi
    rw [← hends]
    exact List.mem_filterMap.mpr ⟨modifier, hmodifier, hi⟩
  cases hmin : ends.min? with
  | none =>
    obtain rfl := List.min?_eq_none_iff.mp hmin
    refine ⟨s, .refl hs.closed, ?_, ?_⟩
    · dsimp only
      rw [hmin, Option.getD_none, List.take_length]
    · intro modifier hmodifier i hi
      cases hmem modifier hmodifier i hi
  | some e =>
    obtain ⟨he, hle⟩ := List.min?_eq_some_iff.mp hmin
    rw [← hends] at he
    obtain ⟨modifier, hmodifier, hfound⟩ := List.mem_filterMap.mp he
    obtain ⟨a, word, b, hparts, rfl, -, ha, -, hapart⟩ :=
      exists_of_findKeyword? hs.closed (isKeyword_of_mem_returnModifiers modifier hmodifier) hfound
    refine ⟨a, ⟨_, hparts, ha, hapart⟩, ?_, ?_⟩
    · dsimp only
      rw [hmin, Option.getD_some, hparts, List.take_left]
    · exact fun other hother i hi => hle i (hmem other hother i hi)

/-- **A return type ends where the first modifier begins.** -/
theorem withoutModifiers_spec {s : List Char} (hs : IsLoose s)
    (hhead : s.head?.any isBlank = false) :
    IsFront (withoutModifiers s) s ∧ IsTrimmed (withoutModifiers s) ∧
      ∀ modifier ∈ returnModifiers, findKeyword? modifier.toList (withoutModifiers s) = none := by
  obtain ⟨a, ha, htrim, hfirst⟩ := exists_isFront_withoutModifiers hs
  have hfront := hs.isFront_trim hhead ha
  rw [htrim]
  refine ⟨hfront, isTrimmed_trim a, ?_⟩
  intro modifier hmodifier
  have hkeyword := isKeyword_of_mem_returnModifiers modifier hmodifier
  obtain ⟨b, hb, -, hapart⟩ := hfront
  refine findKeyword?_eq_none_of_append hkeyword hapart ?_
  intro i hi
  rw [← hb] at hi
  exact Nat.le_trans (length_trim_le a) (hfirst modifier hmodifier i hi)

/-! ## Arguments -/

/-- What was done to read an argument. -/
theorem exists_of_readArgument {s : List Char} {a : Argument} (h : readArgument s = .ok a) :
    ∃ name rest written others type value?, takeIdentifier? s = some (name, rest) ∧
      takeDirection (trimStart rest) = (written, others) ∧
      splitDefault (if (written.getD .into).producesOutput then
        (takeKeyword? "nocopy".toList others).getD others else others) = (type, value?) ∧
      type ≠ [] ∧ value? ≠ some [] ∧
      a = ⟨String.ofList name, written.getD .into, written.isSome, String.ofList type,
        value?.map String.ofList⟩ := by
  unfold readArgument at h
  cases hident : takeIdentifier? s with
  | none =>
    rw [hident] at h
    cases h
  | some found =>
    obtain ⟨name, rest⟩ := found
    rw [hident] at h
    dsimp only at h
    cases hdirection : takeDirection (trimStart rest) with
    | mk written others =>
      rw [hdirection] at h
      dsimp only at h
      cases hsplit : splitDefault (if (written.getD .into).producesOutput then
          (takeKeyword? "nocopy".toList others).getD others else others) with
      | mk type value? =>
        rw [hsplit] at h
        dsimp only at h
        by_cases htype : type.isEmpty = true
        · rw [if_pos htype] at h
          cases h
        · by_cases hvalue : value? = some []
          · rw [if_neg htype, if_pos hvalue] at h
            cases h
          · rw [if_neg htype, if_neg hvalue] at h
            cases h
            exact ⟨name, rest, written, others, type, value?, rfl, hdirection, hsplit,
              by simpa using htype, hvalue, rfl⟩

/-- **An argument that was read** can be written down. -/
theorem argument_isWellFormed {s : List Char} {a : Argument} (hs : IsLoose s)
    (hcomma : Lacks ',' s) (h : readArgument s = .ok a) (hname : IsName a.name.toList)
    (hnocopy : a.direction.producesOutput = true →
      takeKeyword? "nocopy".toList a.typeName.toList = none) : a.IsWellFormed := by
  obtain ⟨name, rest, written, others, type, value?, hident, hdirection, hsplit, htype, hvalue,
    rfl⟩ := exists_of_readArgument h
  have hrest := isPart_of_takeIdentifier? hs.closed hident
  have hstart := (isPart_trimStart hrest.isClosed).trans hrest
  obtain ⟨hothers, hhead, hnone, hinto⟩ :=
    takeDirection_spec hstart.isClosed (head?_trimStart rest) hdirection
  -- where the type begins
  generalize htext : (if (written.getD Direction.into).producesOutput = true then
    (takeKeyword? "nocopy".toList others).getD others else others) = text at hsplit
  have htextPart : IsPart text others ∧ text.head?.any isBlank = false := by
    rw [← htext]
    split_ifs with hout
    · cases htaken : takeKeyword? "nocopy".toList others with
      | none => exact ⟨.refl hothers.isClosed, hhead⟩
      | some left => exact isPart_of_takeKeyword? (by decide) hothers.isClosed htaken
    · exact ⟨.refl hothers.isClosed, hhead⟩
  have hpart := htextPart.1.trans (hothers.trans hstart)
  have hloose := hpart.isLoose hs
  obtain ⟨hfront, hassign, hdefault, htrimmed, hvalues⟩ :=
    separated_of_splitDefault hloose htextPart.2 hsplit
  have hphrase : IsPhrase type := (hfront.isPart.isLoose hloose).isPhrase htrimmed htype
  constructor
  · exact hname
  · rw [String.toList_ofList]
    exact ⟨hphrase, hassign, hdefault⟩
  · rw [String.toList_ofList]
    exact hfront.isPart.lacks (hpart.lacks hcomma)
  · have hkept : ∀ keyword : List Char, IsKeyword keyword → takeKeyword? keyword text = none →
        takeKeyword? keyword (String.ofList type).toList = none := by
      intro keyword hkeyword hnone
      rw [String.toList_ofList]
      exact takeKeyword?_eq_none_of_isFront hkeyword hfront hnone
    cases written with
    | none =>
      obtain rfl : others = text := htext
      obtain ⟨hin, hout⟩ := hnone rfl
      exact ⟨hkept _ (by decide) hin, hkept _ (by decide) hout⟩
    | some direction =>
      cases direction with
      | into =>
        obtain rfl : others = text := htext
        exact hkept _ (by decide) (hinto rfl)
      | out => exact hnocopy rfl
      | inOut => exact hnocopy rfl
  · intro value hmem
    obtain ⟨expression, hexpression, rfl⟩ := Option.map_eq_some_iff.mp hmem
    obtain ⟨hvaluePart, hvalueTrimmed⟩ := hvalues expression hexpression
    rw [String.toList_ofList]
    refine ⟨(hvaluePart.isLoose hloose).isPhrase hvalueTrimmed ?_,
      hvaluePart.lacks (hpart.lacks hcomma)⟩
    rintro rfl
    exact hvalue hexpression

/-! ## Signatures -/

/-- The texts between the commas of a list. -/
theorem loose_of_split? {inner : List Char} {params : List (List Char)} (hinner : IsLoose inner)
    (h : split? ',' inner = some params) : ∀ param ∈ params, IsLoose param ∧ Lacks ',' param := by
  unfold split? at h
  split_ifs at h
  · obtain rfl := Option.some.inj h
    exact fun param hparam => by cases hparam
  · obtain rfl := Option.some.inj h
    intro param hparam
    obtain ⟨piece, hpiece, rfl⟩ := List.mem_map.mp hparam
    have hcomma : IsSeparator ',' := by decide
    have hcut := isCut_pieces hcomma hinner.closed.isBalanced
    have hpart := hcut.isPart_of_mem hcomma hinner.closed piece hpiece
    have htrim := isPart_trim hpart.isClosed
    exact ⟨(htrim.trans hpart).isLoose hinner, htrim.lacks (hcut.of_mem piece hpiece).2⟩

/-- The texts between the commas of an argument list, and what follows the list. -/
theorem loose_of_argumentList {s : List Char} {close : Nat} {params : List (List Char)}
    (hs : IsLoose s) (hmatching : matchingParen? s 0 = some close)
    (hsplit : split? ',' ((s.take close).drop 1) = some params) :
    (∀ param ∈ params, IsLoose param ∧ Lacks ',' param) ∧ IsPart (s.drop (close + 1)) s := by
  obtain ⟨inner, t, rfl, rfl, hinner⟩ := exists_of_matchingParen? hmatching
  have htake : ('(' :: inner ++ ')' :: t).take (inner.length + 1) = '(' :: inner :=
    List.take_left' rfl
  have hdrop : ('(' :: inner ++ ')' :: t).drop (inner.length + 1 + 1) = t := by
    rw [List.append_cons]
    exact List.drop_left' (by simp)
  rw [htake, List.drop_one, List.tail_cons] at hsplit
  rw [hdrop]
  refine ⟨loose_of_split? (hs.of_group hinner) hsplit, ?_⟩
  have hclosed := hs.closed
  rw [List.append_cons] at hclosed ⊢
  exact .right hclosed hinner.group

/-- **Reading a signature.** What follows it is left over, and the arguments were read from loose
texts without commas. -/
theorem readSignature_spec {kind : Source.Kind} {s : List Char} {signature : Signature}
    (hs : IsLoose s) (h : readSignature kind s = .ok signature) :
    IsPart signature.rest s ∧
      ∀ a ∈ signature.arguments, ∃ t, IsLoose t ∧ Lacks ',' t ∧ readArgument t = .ok a := by
  have hkeyword := Source.isKeyword_keyword kind
  unfold readSignature at h
  cases hkind : takeKeyword? kind.keyword.toList s with
  | none =>
    rw [hkind] at h
    cases h
  | some rest =>
    rw [hkind] at h
    dsimp only at h
    obtain ⟨hrest, -⟩ := isPart_of_takeKeyword? hkeyword hs.closed hkind
    cases hident : takeIdentifier? rest with
    | none =>
      rw [hident] at h
      cases h
    | some found =>
      obtain ⟨name, others⟩ := found
      rw [hident] at h
      dsimp only at h
      have hothers := isPart_of_takeIdentifier? hrest.isClosed hident
      have hstart := ((isPart_trimStart hothers.isClosed).trans hothers).trans hrest
      by_cases hopen : (trimStart others).head? = some '('
      · rw [if_neg (not_not_intro hopen)] at h
        cases hmatching : matchingParen? (trimStart others) 0 with
        | none =>
          rw [hmatching] at h
          cases h
        | some close =>
          rw [hmatching] at h
          dsimp only at h
          cases hsplit : split? ',' (((trimStart others).take close).drop 1) with
          | none =>
            rw [hsplit] at h
            cases h
          | some params =>
            rw [hsplit] at h
            obtain ⟨arguments, harguments, h⟩ := bind_eq_ok.mp h
            cases h
            obtain ⟨hparams, hleft⟩ :=
              loose_of_argumentList (hstart.isLoose hs) hmatching hsplit
            refine ⟨((isPart_trim hleft.isClosed).trans hleft).trans hstart, ?_⟩
            intro a ha
            obtain ⟨param, hparam, hread⟩ := exists_of_mem_of_mapM harguments ha
            obtain ⟨hloose, hcomma⟩ := hparams param hparam
            exact ⟨param, hloose, hcomma, hread⟩
      · rw [if_pos hopen] at h
        cases h
        exact ⟨(isPart_trim hstart.isClosed).trans hstart, fun a ha => by cases ha⟩

/-! ## Declarations -/

/-- The names are names, that of a constant is no keyword that begins a routine, and no type behind
`out` or `in out` begins with the keyword that is dropped there. -/
structure IsPlain (d : Declaration) : Prop where
  name : IsName d.name.toList
  clear : d.HasClearName
  arguments : ∀ a ∈ d.arguments, IsName a.name.toList ∧ (a.direction.producesOutput = true →
    takeKeyword? "nocopy".toList a.typeName.toList = none)

instance (d : Declaration) : Decidable d.IsPlain :=
  decidable_of_iff (IsName d.name.toList ∧ d.HasClearName ∧
      ∀ a ∈ d.arguments, IsName a.name.toList ∧ (a.direction.producesOutput = true →
        takeKeyword? "nocopy".toList a.typeName.toList = none))
    ⟨fun ⟨name, clear, arguments⟩ => ⟨name, clear, arguments⟩,
      fun ⟨name, clear, arguments⟩ => ⟨name, clear, arguments⟩⟩

/-- The arguments of a signature that was read can be written down. -/
theorem arguments_isWellFormed {d : Declaration} (hd : d.IsPlain)
    (h : ∀ a ∈ d.arguments, ∃ t, IsLoose t ∧ Lacks ',' t ∧ readArgument t = .ok a) :
    ∀ a ∈ d.arguments, a.IsWellFormed := by
  intro a ha
  obtain ⟨t, ht, hcomma, hread⟩ := h a ha
  obtain ⟨hname, hnocopy⟩ := hd.arguments a ha
  exact argument_isWellFormed ht hcomma hread hname hnocopy

/-- What is read has balanced parentheses and a semicolon. -/
theorem of_read {kind : Source.Kind} {s : List Char} {terminated : Bool} {d : Declaration}
    (h : read kind s terminated = .ok d) :
    isBalanced s = true ∧ terminated = true ∧
      (match kind with
        | .function => readFunction (body s)
        | .procedure => readProcedure (body s)
        | .constant => readConstant (body s)) = .ok d := by
  unfold read at h
  by_cases hbalanced : (!isBalanced s) = true
  · rw [if_pos hbalanced] at h
    cases h
  · by_cases hterminated : (!terminated) = true
    · rw [if_neg hbalanced, if_pos hterminated] at h
      cases h
    · rw [if_neg hbalanced, if_neg hterminated] at h
      exact ⟨by simpa using hbalanced, by simpa using hterminated, h⟩

theorem read_of_parse {f : Source.Fragment} {d : Declaration} (h : parse f = .ok d) :
    read f.kind f.text.toList f.terminated = .ok d := by
  unfold parse at h
  cases hread : read f.kind f.text.toList f.terminated with
  | error defect =>
    rw [hread] at h
    cases h
  | ok other =>
    rw [hread] at h
    cases h
    rfl

/-- What was done to read a constant. -/
theorem exists_of_readConstant {s : List Char} {d : Declaration} (h : readConstant s = .ok d) :
    ∃ name others rest type value, takeIdentifier? s = some (name, others) ∧
      takeKeyword? "constant".toList (trimStart others) = some rest ∧
      splitDefault rest = (type, some value) ∧ type ≠ [] ∧ value ≠ [] ∧
      d = .constant (String.ofList name) (String.ofList type) (String.ofList value) := by
  unfold readConstant at h
  cases hident : takeIdentifier? s with
  | none =>
    rw [hident] at h
    cases h
  | some found =>
    obtain ⟨name, others⟩ := found
    rw [hident] at h
    dsimp only at h
    cases hconstant : takeKeyword? "constant".toList (trimStart others) with
    | none =>
      rw [hconstant] at h
      cases h
    | some rest =>
      rw [hconstant] at h
      dsimp only at h
      cases hsplit : splitDefault rest with
      | mk type value? =>
        rw [hsplit] at h
        dsimp only at h
        by_cases htype : type.isEmpty = true
        · rw [if_pos htype] at h
          cases h
        · rw [if_neg htype] at h
          have hne : type ≠ [] := by simpa using htype
          cases value? with
          | none => cases h
          | some value =>
            cases value with
            | nil => cases h
            | cons c value =>
              cases h
              exact ⟨name, others, rest, type, c :: value, rfl, hconstant, hsplit, hne,
                List.cons_ne_nil c value, rfl⟩

section Read

variable {s : List Char} {d : Declaration} (hs : IsLoose s) (hsemicolon : Lacks ';' s)
  (hd : d.IsPlain)

include hs hsemicolon hd

theorem isWritable_of_readFunction (h : readFunction s = .ok d) : d.IsWritable := by
  unfold readFunction at h
  obtain ⟨signature, hsignature, h⟩ := bind_eq_ok.mp h
  obtain ⟨hpart, harguments⟩ := readSignature_spec hs hsignature
  cases hreturn : takeKeyword? "return".toList signature.rest with
  | none =>
    rw [hreturn] at h
    cases h
  | some rest =>
    obtain ⟨hrest, hhead⟩ := isPart_of_takeKeyword? (by decide) hpart.isClosed hreturn
    have hrestPart := hrest.trans hpart
    have hloose := hrestPart.isLoose hs
    obtain ⟨hfront, htrimmed, hmodifiers⟩ := withoutModifiers_spec hloose hhead
    rw [hreturn] at h
    dsimp only at h
    by_cases hempty : (withoutModifiers rest).isEmpty = true
    · rw [if_pos hempty] at h
      cases h
    · rw [if_neg hempty] at h
      cases h
      have hphrase : IsPhrase (withoutModifiers rest) :=
        (hfront.isPart.isLoose hloose).isPhrase htrimmed (by simpa using hempty)
      refine ⟨hd.name, arguments_isWellFormed hd harguments, ?_⟩
      rw [String.toList_ofList]
      exact ⟨hphrase, hmodifiers, hfront.isPart.lacks (hrestPart.lacks hsemicolon)⟩

omit hsemicolon in
theorem isWritable_of_readProcedure (h : readProcedure s = .ok d) : d.IsWritable := by
  unfold readProcedure at h
  obtain ⟨signature, hsignature, h⟩ := bind_eq_ok.mp h
  obtain ⟨-, harguments⟩ := readSignature_spec hs hsignature
  by_cases hempty : (!signature.rest.isEmpty) = true
  · rw [if_pos hempty] at h
    cases h
  · rw [if_neg hempty] at h
    cases h
    exact ⟨hd.name, arguments_isWellFormed hd harguments⟩

theorem isWritable_of_readConstant (h : readConstant s = .ok d) : d.IsWritable := by
  obtain ⟨name, others, rest, type, value, hident, hconstant, hsplit, htype, hvalue, rfl⟩ :=
    exists_of_readConstant h
  have hothers := isPart_of_takeIdentifier? hs.closed hident
  have hstart := (isPart_trimStart hothers.isClosed).trans hothers
  obtain ⟨hrest, hhead⟩ := isPart_of_takeKeyword? (by decide) hstart.isClosed hconstant
  have hrestPart := hrest.trans hstart
  have hloose := hrestPart.isLoose hs
  have hlacks := hrestPart.lacks hsemicolon
  obtain ⟨hfront, hassign, hdefault, htrimmed, hvalues⟩ :=
    separated_of_splitDefault hloose hhead hsplit
  obtain ⟨hpart, hvalueTrimmed⟩ := hvalues value rfl
  refine ⟨hd.name, ?_, ?_⟩
  · rw [String.toList_ofList]
    have hphrase := (hfront.isPart.isLoose hloose).isPhrase htrimmed htype
    exact ⟨⟨hphrase, hassign, hdefault⟩, hfront.isPart.lacks hlacks⟩
  · rw [String.toList_ofList]
    exact ⟨(hpart.isLoose hloose).isPhrase hvalueTrimmed hvalue, hpart.lacks hlacks⟩

/-- **A declaration that was read can be written down.** -/
theorem isWritable_of_read {kind : Source.Kind} {terminated : Bool}
    (h : read kind (s ++ [';']) terminated = .ok d) : d.IsWritable := by
  have hbody : body (s ++ [';']) = trim s := by
    rw [body, List.getLast?_concat, if_pos rfl, List.dropLast_concat]
  have htrim := isPart_trim hs.closed
  have hloose := htrim.isLoose hs
  obtain ⟨-, -, h⟩ := of_read h
  rw [hbody] at h
  cases kind with
  | function => exact isWritable_of_readFunction hloose (htrim.lacks hsemicolon) hd h
  | procedure => exact isWritable_of_readProcedure hloose hd h
  | constant => exact isWritable_of_readConstant hloose (htrim.lacks hsemicolon) hd h

end Read

end Declaration

end StoredRoutine
