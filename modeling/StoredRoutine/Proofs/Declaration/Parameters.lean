import StoredRoutine.Proofs.Source.Keywords

/-!
# Reading a parameter as it may be written

A parameter is its name, a mode, its type and perhaps an expression, with spaces between them. What
it says does not depend on the letter case of its keywords or on how many spaces there are, and
wherever the type stops the reader from cutting it, it is read as it is written: a name, a keyword
or a comma in parentheses, in quotes or in the expression is part of the text around it
(`Argument.parse_written`).

`IsParameterType` says which texts are types here. It names no search: nothing at depth zero
introduces an expression, and no keyword of a mode stands in front.
-/

namespace StoredRoutine

open Text

namespace Declaration

/-! ## The parts of a parameter -/

/-- An identifier that needs no quotes. Blanks beyond ASCII are word characters, too, but those in
front of a name are passed over and do not belong to it. -/
structure IsIdentifier (name : List Char) : Prop where
  ne_nil : name ≠ []
  chars : ∀ c ∈ name, isWordChar c = true
  digit : name.head?.any Char.isDigit = false
  blank : name.head?.any isBlank = false

/-- The second text is how the name is written. -/
inductive WritesName (name : List Char) : List Char → Prop
  | plain (h : IsIdentifier name) : WritesName name name
  | quoted (hne : name ≠ []) (hquote : '"' ∉ name) : WritesName name ('"' :: name ++ ['"'])

/-- The words are how the direction is written, if it is, and perhaps `nocopy` behind it. -/
inductive WritesMode : Option Direction → List (List Char) → Prop
  | none : WritesMode none []
  | into {word : List Char} (h : sameLetters word "in".toList = true) :
      WritesMode (some .into) [word]
  | out {word : List Char} {modifier : Option (List Char)}
      (h : sameLetters word "out".toList = true)
      (hmodifier : ∀ m ∈ modifier, sameLetters m "nocopy".toList = true) :
      WritesMode (some .out) (word :: modifier.toList)
  | inOut {word other : List Char} {modifier : Option (List Char)}
      (h : sameLetters word "in".toList = true) (hother : sameLetters other "out".toList = true)
      (hmodifier : ∀ m ∈ modifier, sameLetters m "nocopy".toList = true) :
      WritesMode (some .inOut) (word :: other :: modifier.toList)

/-- The words are how the default is written, if there is one. -/
inductive WritesDefault : Option (List Char) → List (List Char) → Prop
  | none : WritesDefault none []
  | assign {value : List Char} (hne : value ≠ []) (htrimmed : IsTrimmed value) :
      WritesDefault (some value) [":=".toList, value]
  | default {value word : List Char} (h : sameLetters word "default".toList = true)
      (hne : value ≠ []) (htrimmed : IsTrimmed value) : WritesDefault (some value) [word, value]

/-- What follows the text stands in the open and in no parentheses. -/
def EndsAtDepthZero (front : List Char) : Prop :=
  (Nesting.start.after front).quote = none ∧ (Nesting.start.after front).depth = 0

/-- **The text of a parameter's type.** -/
structure IsParameterType (s : List Char) : Prop where
  ne_nil : s ≠ []
  trimmed : IsTrimmed s
  closed : IsClosed s
  assign : ∀ front back, s = front ++ (":=".toList ++ back) → ¬ EndsAtDepthZero front
  default : ∀ front word back, s = front ++ (word ++ back) →
    sameLetters word "default".toList = true → front.getLast?.any isWordChar = false →
    back.head?.any isWordChar = false → ¬ EndsAtDepthZero front
  /-- A word goes on with a quoted identifier that follows it directly. -/
  mode : ∀ keyword ∈ ["in", "out", "nocopy"], ∀ word back, s = word ++ back →
    sameLetters word keyword.toList = true →
    back.head?.any (fun c => isWordChar c || c == '"') = true

/-- Words with one space or more in front of each. -/
inductive Spaced : List (List Char) → List Char → Prop
  | nil : Spaced [] []
  | cons (n : Nat) (word : List Char) {words : List (List Char)} {text : List Char}
      (h : Spaced words text) : Spaced (word :: words) (gap n ++ (word ++ text))

/-! ## Names and keywords -/

theorem WritesName.takeIdentifier?_eq {name written : List Char} (h : WritesName name written)
    {rest : List Char} (hrest : rest.head?.any isWordChar = false) :
    takeIdentifier? (written ++ rest) = some (name, rest) := by
  cases h with
  | plain h => exact takeIdentifier?_plain h.ne_nil h.chars h.digit h.blank hrest
  | quoted hne hquote =>
    rw [← List.append_cons]
    exact takeIdentifier?_quoted hne hquote rest

/-- **A keyword is taken off**, whatever letters it is written in. -/
theorem takeKeyword?_of_sameLetters {keyword word : List Char}
    (h : sameLetters word keyword = true) {rest : List Char}
    (hrest : rest.head?.any (fun c => isWordChar c || c == '"') = false) :
    takeKeyword? keyword (word ++ rest) = some (trimStart rest) := by
  have hlength : keyword.length = word.length := by
    rw [← length_asciiLower keyword, ← sameLetters_iff.mp h, length_asciiLower]
  have hstarts : startsWithLetters keyword (word ++ rest) = true := by
    rw [startsWithLetters, hlength, List.take_left, sameLetters_comm, h]
  rw [takeKeyword?, hlength, List.drop_left, hstarts, hrest]
  rfl

/-- Another keyword is not taken. -/
theorem takeKeyword?_eq_none_of_sameLetters {keyword other word : List Char}
    (h : sameLetters word other = true)
    (hother : startsWithLetters keyword (asciiLower other) = false) :
    takeKeyword? keyword word = none := by
  rw [← sameLetters_iff.mp h, startsWithLetters_asciiLower] at hother
  rw [takeKeyword?, hother]
  rfl

theorem takeKeyword?_eq_some {keyword s rest : List Char} (h : takeKeyword? keyword s = some rest) :
    ∃ word back, s = word ++ back ∧ sameLetters word keyword = true ∧
      back.head?.any (fun c => isWordChar c || c == '"') = false := by
  rw [takeKeyword?] at h
  split_ifs at h with hcond
  rw [Bool.and_eq_true, startsWithLetters, Bool.not_eq_true'] at hcond
  exact ⟨s.take keyword.length, s.drop keyword.length, (List.take_append_drop _ _).symm,
    (sameLetters_comm _ _).trans hcond.1, hcond.2⟩

/-! ## Types -/

theorem endsAtDepthZero_of_depthAt? {front : List Char} {c : Char} (hc : c ≠ ')')
    (h : (Nesting.start.after front).depthAt? c = some 0) : EndsAtDepthZero front := by
  obtain ⟨hquote, -, hdepth⟩ := Nesting.of_depthAt?_eq_some h
  rw [if_neg hc] at hdepth
  exact ⟨hquote, hdepth.symm⟩

namespace IsParameterType

variable {type : List Char} (h : IsParameterType type)

include h

theorem isUncut : IsUncut type where
  ne_nil := h.ne_nil
  trimmed := h.trimmed
  closed := h.closed
  assign := by
    refine Option.eq_none_iff_forall_ne_some.mpr fun i hi => ?_
    obtain ⟨a, c, b, hparts, -, hdepth, htest⟩ := exists_of_findFrom hi
    obtain ⟨back, hback⟩ := List.isPrefixOf_iff_prefix.mp htest
    obtain ⟨rfl, -⟩ := List.cons.inj hback
    rw [← hback] at hparts
    exact h.assign a back hparts (endsAtDepthZero_of_depthAt? (by decide) hdepth)
  default := by
    refine Option.eq_none_iff_forall_ne_some.mpr fun i hi => ?_
    obtain ⟨a, c, b, hparts, -, hdepth, htest⟩ := exists_of_findFrom hi
    rw [isWholeWord, Bool.and_eq_true, Bool.and_eq_true, Bool.not_eq_true', Bool.not_eq_true',
      Option.or_none] at htest
    obtain ⟨⟨hword, hleft⟩, hright⟩ := htest
    have hkeyword : IsKeyword "default".toList := by decide
    have hc : isWordChar c = true := hkeyword.of_sameLetters hword c (by simp)
    rw [startsWithLetters, sameLetters_comm] at hword
    rw [← List.take_append_drop "default".toList.length (c :: b)] at hparts
    exact h.default a _ _ hparts hword hleft hright
      (endsAtDepthZero_of_depthAt? (ne_of_isWordChar hc (by decide)) hdepth)

theorem takeKeyword?_eq_none {keyword : String} (hkeyword : keyword ∈ ["in", "out", "nocopy"]) :
    takeKeyword? keyword.toList type = none := by
  refine Option.eq_none_iff_forall_ne_some.mpr fun rest hrest => ?_
  obtain ⟨word, back, hparts, hword, hback⟩ := takeKeyword?_eq_some hrest
  rw [h.mode keyword hkeyword word back hparts hword] at hback
  cases hback

end IsParameterType

theorem depthAt?_of_endsAtDepthZero {front : List Char} (h : EndsAtDepthZero front) {c : Char}
    (hquote : isQuote c = false) (hc : c ≠ ')') :
    (Nesting.start.after front).depthAt? c = some 0 := by
  rw [Nesting.depthAt?, h.1, hquote, if_neg hc, h.2]
  rfl

/-- **What the reader looks for is what is not there.** -/
theorem isParameterType_iff {type : List Char} :
    IsParameterType type ↔ IsUncut type ∧
      ∀ keyword ∈ ["in", "out", "nocopy"], takeKeyword? keyword.toList type = none := by
  refine ⟨fun h => ⟨h.isUncut, fun keyword => h.takeKeyword?_eq_none⟩, fun ⟨h, hmode⟩ => ?_⟩
  refine ⟨h.ne_nil, h.trimmed, h.closed, ?_, ?_, ?_⟩
  · rintro front back rfl hfront
    have hdepth := depthAt?_of_endsAtDepthZero hfront (c := ':') (by decide) (by decide)
    have hfound : ∃ i ≤ front.length, findSequence? ":=".toList (front ++ ':' :: '=' :: back) =
        some i := exists_findFrom_le hdepth rfl
    obtain ⟨i, -, hi⟩ := hfound
    cases hi.symm.trans h.assign
  · rintro front word back rfl hword hleft hright hfront
    have hkeyword : IsKeyword "default".toList := by decide
    have hlength : word.length = "default".toList.length := by
      rw [← length_asciiLower word, sameLetters_iff.mp hword, length_asciiLower]
    have hwhole : isWholeWord "default".toList (front.getLast?.or none) (word ++ back) = true := by
      rw [Option.or_none, isWholeWord, startsWithLetters, ← hlength, List.take_left,
        List.drop_left, sameLetters_comm, hword, hleft, hright]
      rfl
    obtain ⟨c, rest, rfl⟩ := List.exists_cons_of_ne_nil (l := word) (by rintro rfl; cases hlength)
    have hc : isWordChar c = true :=
      hkeyword.of_sameLetters ((sameLetters_comm _ _).trans hword) c List.mem_cons_self
    have hdepth := depthAt?_of_endsAtDepthZero hfront (isQuote_of_isWordChar hc)
      (ne_of_isWordChar hc (by decide))
    have hfound : ∃ i ≤ front.length,
        findKeyword? "default".toList (front ++ c :: (rest ++ back)) = some i :=
      exists_findFrom_le hdepth hwhole
    obtain ⟨i, -, hi⟩ := hfound
    cases hi.symm.trans h.default
  · rintro keyword hkeyword word back rfl hword
    exact (takeKeyword?_eq_none_iff hword back).mp (hmode keyword hkeyword)

instance (type : List Char) : Decidable (IsUncut type) :=
  decidable_of_iff (type ≠ [] ∧ IsTrimmed type ∧ IsClosed type ∧
      findSequence? ":=".toList type = none ∧ findKeyword? "default".toList type = none)
    ⟨fun ⟨ne_nil, trimmed, closed, assign, default⟩ => ⟨ne_nil, trimmed, closed, assign, default⟩,
      fun h => ⟨h.ne_nil, h.trimmed, h.closed, h.assign, h.default⟩⟩

instance (type : List Char) : Decidable (IsParameterType type) :=
  decidable_of_iff _ isParameterType_iff.symm

/-- **An expression behind the keyword.** -/
theorem IsUncut.splitDefault_default {s value word : List Char} (hs : IsUncut s)
    (hvalue : IsTrimmed value) (n m : Nat) (hword : sameLetters word "default".toList = true) :
    splitDefault (s ++ (gap n ++ (word ++ (gap m ++ value)))) = (s, some value) := by
  have hlength : word.length = "default".toList.length := by
    rw [← length_asciiLower word, sameLetters_iff.mp hword, length_asciiLower]
  have hcut := hs.trim_cut hvalue n m word rfl hlength
  have hkeyword : IsKeyword "default".toList := by decide
  have hchars := hkeyword.of_sameLetters ((sameLetters_comm _ _).trans hword)
  have hwhole : isWholeWord "default".toList (some ' ') (word ++ (gap m ++ value)) = true := by
    rw [isWholeWord, startsWithLetters, ← hlength, List.take_left, List.drop_left,
      sameLetters_comm, hword]
    rfl
  obtain ⟨c, rest, rfl⟩ := List.exists_cons_of_ne_nil (l := word) (by rintro rfl; cases hlength)
  have hc := hchars c List.mem_cons_self
  have hdefault : findKeyword? "default".toList
      (s ++ (gap n ++ (c :: rest ++ (gap m ++ value)))) = some (s ++ gap n).length := by
    have hdepth : Nesting.start.depthAt? c = some 0 := by
      have hclose : c ≠ ')' := ne_of_isWordChar hc (by decide)
      simp [Nesting.depthAt?, Nesting.start, isQuote_of_isWordChar hc, hclose]
    rw [hs.findKeyword?_gap, List.cons_append, findFrom, if_pos ⟨hdepth, hwhole⟩]
    simp
  simp only [splitDefault, hdefault]
  cases hfound : findSequence? ":=".toList
      (s ++ (gap n ++ (c :: rest ++ (gap m ++ value)))) with
  | none => exact hcut
  | some i =>
    -- The sequence is not in the type, so it comes after the keyword.
    rw [hs.findSequence?_gap] at hfound
    obtain ⟨k, -, rfl⟩ := Option.map_eq_some_iff.mp hfound
    exact (if_neg (by omega)).trans hcut

/-! ## Words behind spaces -/

namespace Spaced

variable {word : List Char} {words : List (List Char)} {text : List Char}

/-- What follows the words in front of it begins with a space, if anything follows. -/
theorem eq_nil_or_space (h : Spaced words text) : text = [] ∨ ∃ t, text = ' ' :: t := by
  cases h with
  | nil => exact .inl rfl
  | cons n word h => exact .inr ⟨_, rfl⟩

theorem head (h : Spaced words text) :
    text.head?.any (fun c => isWordChar c || c == '"') = false := by
  obtain rfl | ⟨t, rfl⟩ := h.eq_nil_or_space
  · rfl
  · rfl

theorem exists_trimStart_eq (h : Spaced (word :: words) text)
    (hword : word.head?.any isBlank = false) (hne : word ≠ []) :
    ∃ rest, trimStart text = word ++ rest ∧ Spaced words rest := by
  cases h with
  | cons n word h =>
    refine ⟨_, ?_, h⟩
    obtain ⟨c, word, rfl⟩ := List.exists_cons_of_ne_nil hne
    rw [trimStart_append_of_blank isBlank_of_mem_gap]
    exact trimStart_eq_self hword

/-- What is not taken off the front of a word is not taken off in front of others. -/
theorem takeKeyword?_eq_none (h : Spaced words text) {keyword : List Char}
    (hspace : ' ' ∉ asciiLower keyword) (hword : takeKeyword? keyword word = none) :
    takeKeyword? keyword (word ++ text) = none := by
  obtain rfl | ⟨t, rfl⟩ := h.eq_nil_or_space
  · rwa [List.append_nil]
  · exact takeKeyword?_append_space hspace hword t

/-- A keyword in front of another word is taken off, with the spaces behind it. -/
theorem exists_takeKeyword?_eq (h : Spaced (word :: words) text)
    (hword : word.head?.any isBlank = false) (hne : word ≠ []) {keyword written : List Char}
    (hwritten : sameLetters written keyword = true) :
    ∃ rest, takeKeyword? keyword (written ++ text) = some (word ++ rest) ∧ Spaced words rest := by
  obtain ⟨rest, hrest, hspaced⟩ := h.exists_trimStart_eq hword hne
  exact ⟨rest, by rw [takeKeyword?_of_sameLetters hwritten h.head, hrest], hspaced⟩

/-- **The type and the expression** are taken apart. -/
theorem splitDefault_eq {type : List Char} {value : Option (List Char)} (htype : IsUncut type)
    (hvalue : WritesDefault value words) (h : Spaced words text) :
    splitDefault (type ++ text) = (type, value) := by
  cases hvalue with
  | none =>
    cases h with
    | nil => rw [List.append_nil, htype.splitDefault_eq]
  | assign hne htrimmed =>
    obtain _ | ⟨n, _, _ | ⟨m, value, _ | _⟩⟩ := h
    rw [List.append_nil]
    exact htype.splitDefault_assign htrimmed n m
  | default hword hne htrimmed =>
    obtain _ | ⟨n, word, _ | ⟨m, value, _ | _⟩⟩ := h
    rw [List.append_nil]
    exact htype.splitDefault_default htrimmed n m hword

end Spaced

/-! ## Modes -/

/-- A keyword in letters of any case is neither empty nor begins with a blank. -/
theorem head_of_sameLetters {word keyword : List Char} (h : sameLetters word keyword = true)
    (hkeyword : keyword.head?.any isBlank = false) (hne : keyword ≠ []) :
    word.head?.any isBlank = false ∧ word ≠ [] := by
  rw [sameLetters_iff] at h
  constructor
  · rw [← any_head?_asciiLower isBlank_toLower, h, any_head?_asciiLower isBlank_toLower, hkeyword]
  · rintro rfl
    exact hne (List.map_eq_nil_iff.mp h.symm)

section Mode

variable {type : List Char} (htype : IsParameterType type) {ending : List (List Char)}

include htype

/-- Behind a mode that gives something back, `nocopy` may stand. -/
theorem exists_nocopy_eq {modifier : Option (List Char)}
    (hmodifier : ∀ m ∈ modifier, sameLetters m "nocopy".toList = true)
    {keyword written text : List Char} (hwritten : sameLetters written keyword = true)
    (h : Spaced (modifier.toList ++ type :: ending) text) :
    ∃ rest tail, takeKeyword? keyword (written ++ text) = some rest ∧
      (takeKeyword? "nocopy".toList rest).getD rest = type ++ tail ∧ Spaced ending tail := by
  cases modifier with
  | none =>
    obtain ⟨tail, hrest, htail⟩ :=
      h.exists_takeKeyword?_eq htype.trimmed.head htype.ne_nil hwritten
    refine ⟨_, tail, hrest, ?_, htail⟩
    rw [htail.takeKeyword?_eq_none (by decide) (htype.takeKeyword?_eq_none (by simp)),
      Option.getD_none]
  | some word =>
    have hword := hmodifier word rfl
    obtain ⟨hhead, hne⟩ := head_of_sameLetters hword (by decide) (by decide)
    obtain ⟨rest, hrest, hspaced⟩ := h.exists_takeKeyword?_eq hhead hne hwritten
    obtain ⟨tail, htake, htail⟩ :=
      hspaced.exists_takeKeyword?_eq htype.trimmed.head htype.ne_nil hword
    refine ⟨_, tail, hrest, ?_, htail⟩
    rw [htake, Option.getD_some]

/-- **The mode is read as it is written**, and then the type comes. -/
theorem exists_takeDirection_eq {direction : Option Direction} {mode : List (List Char)}
    (hmode : WritesMode direction mode) {text : List Char}
    (h : Spaced (mode ++ type :: ending) text) :
    ∃ rest tail, takeDirection (trimStart text) = (direction, rest) ∧
      (if (direction.getD .into).producesOutput then
        (takeKeyword? "nocopy".toList rest).getD rest else rest) = type ++ tail ∧
      Spaced ending tail := by
  have hnone {tail : List Char} (htail : Spaced ending tail) (keyword : String)
      (hkeyword : keyword ∈ ["in", "out", "nocopy"]) (hspace : ' ' ∉ asciiLower keyword.toList) :
      takeKeyword? keyword.toList (type ++ tail) = none :=
    htail.takeKeyword?_eq_none hspace (htype.takeKeyword?_eq_none hkeyword)
  cases hmode with
  | none =>
    obtain ⟨tail, hrest, htail⟩ := h.exists_trimStart_eq htype.trimmed.head htype.ne_nil
    refine ⟨type ++ tail, tail, ?_, rfl, htail⟩
    rw [hrest, takeDirection, hnone htail "in" (by simp) (by decide),
      hnone htail "out" (by simp) (by decide)]
  | into hword =>
    obtain ⟨hhead, hne⟩ := head_of_sameLetters hword (by decide) (by decide)
    obtain ⟨rest, hrest, hspaced⟩ := h.exists_trimStart_eq hhead hne
    obtain ⟨tail, htake, htail⟩ :=
      hspaced.exists_takeKeyword?_eq htype.trimmed.head htype.ne_nil hword
    refine ⟨type ++ tail, tail, ?_, rfl, htail⟩
    simp only [hrest, takeDirection, htake, hnone htail "out" (by simp) (by decide)]
  | out hword hmodifier =>
    obtain ⟨hhead, hne⟩ := head_of_sameLetters hword (by decide) (by decide)
    obtain ⟨text', htext', hspaced⟩ := h.exists_trimStart_eq hhead hne
    obtain ⟨rest, tail, htake, hnocopy, htail⟩ := exists_nocopy_eq htype hmodifier hword hspaced
    have hin : takeKeyword? "in".toList (_ ++ text') = none :=
      hspaced.takeKeyword?_eq_none (by decide)
        (takeKeyword?_eq_none_of_sameLetters hword (by decide))
    refine ⟨rest, tail, ?_, hnocopy, htail⟩
    simp only [htext', takeDirection, hin, htake]
  | inOut hword hother hmodifier =>
    obtain ⟨hhead, hne⟩ := head_of_sameLetters hword (by decide) (by decide)
    obtain ⟨hhead', hne'⟩ := head_of_sameLetters hother (by decide) (by decide)
    obtain ⟨text', htext', hspaced⟩ := h.exists_trimStart_eq hhead hne
    obtain ⟨text'', htext'', hspaced'⟩ := hspaced.exists_takeKeyword?_eq hhead' hne' hword
    obtain ⟨rest, tail, htake, hnocopy, htail⟩ := exists_nocopy_eq htype hmodifier hother hspaced'
    refine ⟨rest, tail, ?_, hnocopy, htail⟩
    simp only [htext', takeDirection, htext'', htake]

end Mode

/-! ## Main statement -/

theorem readArgument_written {name written type text : List Char} {direction : Option Direction}
    {value : Option (List Char)} {mode ending : List (List Char)} (hname : WritesName name written)
    (hmode : WritesMode direction mode) (htype : IsParameterType type)
    (hvalue : WritesDefault value ending) (htext : Spaced (mode ++ type :: ending) text) :
    readArgument (written ++ text) =
      .ok { name := String.ofList name
            direction := direction.getD .into
            explicitDirection := direction.isSome
            typeName := String.ofList type
            defaultValue := value.map String.ofList } := by
  have hhead : text.head?.any isWordChar = false := by
    obtain rfl | ⟨t, rfl⟩ := htext.eq_nil_or_space <;> rfl
  obtain ⟨rest, tail, hdirection, hnocopy, htail⟩ := exists_takeDirection_eq htype hmode htext
  have hsplit := htail.splitDefault_eq htype.isUncut hvalue
  have hempty : type.isEmpty = false := by simpa using htype.ne_nil
  have hdefault : value ≠ some [] := by
    cases hvalue with
    | none => simp
    | assign hne htrimmed => simpa using hne
    | default hword hne htrimmed => simpa using hne
  unfold readArgument
  rw [hname.takeIdentifier?_eq hhead]
  simp only [hdirection, hnocopy, hsplit, hempty, hdefault, Bool.false_eq_true, if_false]
  rfl

end Declaration

open Declaration in
/-- **A parameter is read as it is written.** The name stands with quotes or without them, the mode
in letters of any case, and any number of spaces between the words. The type is any text that
nothing at depth zero cuts off and no mode begins; the expression is any text. -/
theorem Argument.parse_written {name written type text : List Char} {direction : Option Direction}
    {value : Option (List Char)} {mode ending : List (List Char)} (hname : WritesName name written)
    (hmode : WritesMode direction mode) (htype : IsParameterType type)
    (hvalue : WritesDefault value ending) (htext : Spaced (mode ++ type :: ending) text)
    (fragment : String) :
    Argument.parse fragment (String.ofList (written ++ text)) =
      .ok { name := String.ofList name
            direction := direction.getD .into
            explicitDirection := direction.isSome
            typeName := String.ofList type
            defaultValue := value.map String.ofList } := by
  rw [Argument.parse, String.toList_ofList,
    readArgument_written hname hmode htype hvalue htext]
  rfl

open Declaration in
/-- A quoted name with keywords in it, a type with both markers in parentheses and in quotes, which
begins like a keyword, and an expression that holds everything and is not even closed. -/
theorem Argument.parse_of_everything :
    Argument.parse "" ("\"in, out\"  In OUT   NoCopy inout_t(a := 1, 'default') \":=\"" ++
        "   DEFAULT f(x) := default, ')") =
      .ok ⟨"in, out", .inOut, true, "inout_t(a := 1, 'default') \":=\"",
        some "f(x) := default, ')"⟩ := by
  have hname : WritesName "in, out".toList ('"' :: "in, out".toList ++ ['"']) :=
    .quoted (by decide) (by decide)
  have hmode : WritesMode (some .inOut)
      ("In".toList :: "OUT".toList :: (some "NoCopy".toList).toList) :=
    .inOut (by decide) (by decide) (by decide)
  have htype : IsParameterType "inout_t(a := 1, 'default') \":=\"".toList := by decide +kernel
  have hvalue : WritesDefault (some "f(x) := default, ')".toList)
      ["DEFAULT".toList, "f(x) := default, ')".toList] :=
    .default (by decide) (by decide) (by decide)
  have hread := Argument.parse_written hname hmode htype hvalue
    (.cons 1 _ (.cons 0 _ (.cons 2 _ (.cons 0 _ (.cons 2 _ (.cons 0 _ .nil)))))) ""
  simp only [String.ofList_toList, Option.map_some] at hread
  refine Eq.trans (congrArg (Argument.parse "") ?_) hread
  decide +kernel

end StoredRoutine
