import Mathlib.Data.List.DropRight
import StoredRoutine.Proofs.Source.Keywords
import StoredRoutine.Proofs.Source.Widening

/-!
# The name of a package

The header of a specification is documented as `[create [or replace]] package [SCHEMA.]NAME`, where
either identifier can be quoted (`IsHeader`). The reader does not look for that. It takes the first
word `package` wherever it stands, and the text from the next word up to a blank, an opening
parenthesis or a semicolon, of that what follows the last full stop, and of that what is between
quotes. `package_name_iff` says this of every source.

For a header that is documented it comes to the same (`IsHeader.namesPackage`), as long as the
name itself holds none of the characters at which it is cut. Between quotes it can hold them, and
then it is not read as it is written. Nor is a statement that is no header always told from one.
-/

namespace StoredRoutine

open Text

namespace Text

/-! ## Identifiers -/

/-- A quoted section without quotes in it ends at the next quote. -/
theorem quotedLength_append {name rest : List Char} (hname : '"' ∉ name)
    (hrest : rest.head? ≠ some '"') :
    quotedLength '"' (name ++ '"' :: rest) = name.length + 1 := by
  induction name with
  | nil =>
    cases rest with
    | nil => rfl
    | cons d rest =>
      have hd : d ≠ '"' := fun hd => hrest (congrArg some hd)
      rw [List.nil_append, quotedLength, if_neg (not_not_intro rfl), if_neg hd]
      rfl
  | cons c name ih =>
    obtain ⟨hc, hname⟩ := List.ne_and_not_mem_of_not_mem_cons hname
    have hlength := ih hname
    cases htail : name ++ '"' :: rest with
    | nil => simp at htail
    | cons d tail =>
      rw [htail] at hlength
      rw [List.cons_append, htail, quotedLength, if_pos (Ne.symm hc), hlength, List.length_cons]
      exact Nat.add_comm 1 _

/-- **How an identifier is written**: as word characters, as many as there are, of which the first
is no digit, or between double quotes. The second text is the identifier and the third one what
follows it. -/
inductive ReadsName : List Char → List Char → List Char → Prop
  | plain {name rest : List Char} (hne : name ≠ []) (hname : ∀ c ∈ name, isWordChar c = true)
      (hdigit : name.head?.any Char.isDigit = false) (hrest : rest.head?.any isWordChar = false) :
      ReadsName (name ++ rest) name rest
  | quoted {name rest : List Char} (hne : name ≠ []) (hname : '"' ∉ name)
      (hrest : rest.head? ≠ some '"') : ReadsName ('"' :: name ++ '"' :: rest) name rest

/-- An identifier is a word. -/
theorem ReadsName.exists_readsWord {s name rest : List Char} (h : ReadsName s name rest) :
    ∃ word, s = word ++ rest ∧ ReadsWord s word rest := by
  cases h with
  | plain hne hname hdigit hrest => exact ⟨_, rfl, .run hne hname hrest⟩
  | quoted hne hname hrest =>
    refine ⟨'"' :: name ++ ['"'], by simp, ?_⟩
    have hreads := ReadsWord.quoted (name ++ '"' :: rest)
    have htake : (name ++ '"' :: rest).take (name.length + 1) = name ++ ['"'] := by
      rw [List.append_cons]
      exact List.take_left' (by simp)
    have hdrop : (name ++ '"' :: rest).drop (name.length + 1) = rest := by
      rw [List.append_cons]
      exact List.drop_left' (by simp)
    rw [quotedLength_append hname hrest, htake, hdrop] at hreads
    exact hreads

end Text

namespace Source

/-! ## Cutting a name out of a text -/

/-- A character that a name is taken to end at, with or without quotes around it. -/
def endsName (c : Char) : Bool := isBlank c || c = '(' || c = ';'

/-- **What is taken for the name** in front of a text: there may be a qualifier that ends in a full
stop, and double quotes on either side, and the first character that ends a name ends all of it. -/
inductive CutsName : List Char → List Char → Prop
  | intro {qualifier opening name closing rest : List Char}
      (hqualifier : qualifier = [] ∨ qualifier.getLast? = some '.')
      (hquotes : ∀ c ∈ opening ++ closing, c = '"')
      (hname : name.head? ≠ some '"' ∧ name.getLast? ≠ some '"') (hdot : '.' ∉ name)
      (hinside : ∀ c ∈ qualifier ++ name, endsName c = false) (hrest : rest.head?.all endsName) :
      CutsName (qualifier ++ (opening ++ (name ++ closing)) ++ rest) name

/-- What follows the last full stop has none. -/
theorem exists_afterLastDot (s : List Char) :
    ∃ qualifier, s = qualifier ++ afterLastDot s ∧
      (qualifier = [] ∨ qualifier.getLast? = some '.') ∧ '.' ∉ afterLastDot s := by
  refine ⟨s.rdropWhile (· ≠ '.'), List.rdropWhile_append_rtakeWhile.symm, ?_, fun hdot => ?_⟩
  · rw [or_iff_not_imp_left]
    intro hne
    have hlast := List.rdropWhile_last_not (· ≠ '.') s hne
    rw [List.getLast?_eq_some_getLast hne]
    simpa using hlast
  · simpa using List.mem_rtakeWhile_imp hdot

theorem afterLastDot_append {qualifier name : List Char}
    (hqualifier : qualifier = [] ∨ qualifier.getLast? = some '.') (hname : '.' ∉ name) :
    afterLastDot (qualifier ++ name) = name := by
  have hall : ∀ c ∈ name.reverse, decide (c ≠ '.') = true := by
    intro c hc
    exact decide_eq_true fun hdot => hname (hdot ▸ List.mem_reverse.mp hc)
  have hnone : qualifier.reverse.takeWhile (· ≠ '.') = [] := by
    rcases hqualifier with rfl | hlast
    · rfl
    · rw [← List.head?_reverse] at hlast
      obtain ⟨rest, hrest⟩ := List.head?_eq_some_iff.mp hlast
      rw [hrest]
      rfl
  rw [afterLastDot, List.reverse_append, List.takeWhile_append_of_pos hall, hnone,
    List.append_nil, List.reverse_reverse]

/-- Quotes are taken away at either end, as many as there are. -/
theorem exists_trimQuotes (s : List Char) :
    ∃ opening closing, s = opening ++ (trimQuotes s ++ closing) ∧
      (∀ c ∈ opening ++ closing, c = '"') ∧
      (trimQuotes s).head? ≠ some '"' ∧ (trimQuotes s).getLast? ≠ some '"' := by
  have htrim : trimQuotes s = (s.dropWhile (· = '"')).rdropWhile (· = '"') := rfl
  rw [htrim]
  refine ⟨s.takeWhile (· = '"'), (s.dropWhile (· = '"')).rtakeWhile (· = '"'), ?_, ?_, ?_, ?_⟩
  · rw [List.rdropWhile_append_rtakeWhile, List.takeWhile_append_dropWhile]
  · intro c hc
    rcases List.mem_append.mp hc with hc | hc
    · simpa using List.mem_takeWhile_imp hc
    · simpa using List.mem_rtakeWhile_imp hc
  · have hhead : (s.dropWhile (· = '"')).head?.any (· = '"') = false := by
      have hnot := List.head?_dropWhile_not (· = '"') s
      cases hfirst : (s.dropWhile (· = '"')).head? with
      | none => rfl
      | some c =>
        rw [hfirst] at hnot
        exact hnot
    have hfront := any_head?_of_isPrefix (List.rdropWhile_prefix (· = '"') _) hhead
    intro hquote
    rw [hquote] at hfront
    cases hfront
  · intro hquote
    have hne : (s.dropWhile (· = '"')).rdropWhile (· = '"') ≠ [] := by
      intro hnil
      rw [hnil] at hquote
      cases hquote
    rw [List.getLast?_eq_some_getLast hne] at hquote
    exact List.rdropWhile_last_not (· = '"') _ hne (decide_eq_true (Option.some.inj hquote))

theorem dropWhile_quotes_append {quotes s : List Char} (hquotes : ∀ c ∈ quotes, c = '"')
    (hs : s.head? ≠ some '"') : (quotes ++ s).dropWhile (· = '"') = s := by
  rw [List.dropWhile_append_of_pos fun c hc => decide_eq_true (hquotes c hc)]
  cases s with
  | nil => rfl
  | cons c rest => exact List.dropWhile_cons_of_neg (by simpa using hs)

theorem trimQuotes_append {opening name closing : List Char}
    (hquotes : ∀ c ∈ opening ++ closing, c = '"')
    (hname : name.head? ≠ some '"' ∧ name.getLast? ≠ some '"') :
    trimQuotes (opening ++ (name ++ closing)) = name := by
  obtain ⟨hopening, hclosing⟩ := List.forall_mem_append.mp hquotes
  cases name with
  | nil =>
    have hall := dropWhile_quotes_append (s := []) hquotes (by simp)
    rw [List.append_nil] at hall
    rw [trimQuotes, List.nil_append, hall]
    rfl
  | cons c name =>
    have hback : (c :: name ++ closing).reverse.dropWhile (· = '"') = (c :: name).reverse := by
      rw [List.reverse_append]
      refine dropWhile_quotes_append (fun d hd => hclosing d (List.mem_reverse.mp hd)) ?_
      rw [List.head?_reverse]
      exact hname.2
    have hfront : (c :: name ++ closing).head? ≠ some '"' := hname.1
    rw [trimQuotes, dropWhile_quotes_append hopening hfront, hback, List.reverse_reverse]

/-- The text up to a character that ends a name. -/
def qualifiedName (s : List Char) : List Char :=
  s.takeWhile fun c => !isBlank c && c ≠ '(' && c ≠ ';'

theorem endsName_eq_not (c : Char) : endsName c = !(!isBlank c && c ≠ '(' && c ≠ ';') := by
  rw [endsName]
  simp

theorem qualifiedName_append {front rest : List Char} (hfront : ∀ c ∈ front, endsName c = false)
    (hrest : rest.head?.all endsName) : qualifiedName (front ++ rest) = front := by
  have hinside : ∀ c ∈ front, (!isBlank c && c ≠ '(' && c ≠ ';') = true := by
    intro c hc
    have h := hfront c hc
    rwa [endsName_eq_not, Bool.not_eq_false'] at h
  rw [qualifiedName, List.takeWhile_append_of_pos hinside]
  cases rest with
  | nil => exact List.append_nil front
  | cons c rest =>
    have hc : endsName c = true := hrest
    rw [endsName_eq_not, Bool.not_eq_true'] at hc
    rw [List.takeWhile_cons_of_neg (by rw [hc]; exact Bool.false_ne_true), List.append_nil]

theorem exists_qualifiedName (s : List Char) :
    ∃ rest, s = qualifiedName s ++ rest ∧ (∀ c ∈ qualifiedName s, endsName c = false) ∧
      rest.head?.all endsName := by
  refine ⟨_, List.takeWhile_append_dropWhile.symm, fun c hc => ?_, ?_⟩
  · have hinside := List.all_eq_true.mp List.all_takeWhile c hc
    rw [endsName_eq_not, Bool.not_eq_false']
    exact hinside
  · have hnot := List.head?_dropWhile_not (fun c => !isBlank c && c ≠ '(' && c ≠ ';') s
    cases hfirst : (s.dropWhile fun c => !isBlank c && c ≠ '(' && c ≠ ';').head? with
    | none => rfl
    | some c =>
      rw [hfirst] at hnot
      rw [Option.all_some, endsName_eq_not, Bool.not_eq_true']
      exact hnot

/-- **The name is cut out** in three steps, the first of which is the longest. -/
theorem cutsName_iff {s name : List Char} :
    CutsName s name ↔ trimQuotes (afterLastDot (qualifiedName s)) = name := by
  have hquote : endsName '"' = false := by decide
  constructor
  · rintro ⟨hqualifier, hquotes, hname, hdot, hinside, hrest⟩
    rename_i qualifier opening closing rest
    obtain ⟨hopening, hclosing⟩ := List.forall_mem_append.mp hquotes
    have hnodot : ∀ quotes : List Char, (∀ c ∈ quotes, c = '"') → '.' ∉ quotes :=
      fun quotes h hmem => absurd (h '.' hmem) (by decide)
    have hlast : '.' ∉ opening ++ (name ++ closing) := by
      simp [hnodot opening hopening, hdot, hnodot closing hclosing]
    have hends : ∀ c ∈ qualifier ++ (opening ++ (name ++ closing)), endsName c = false := by
      obtain ⟨hq, hn⟩ := List.forall_mem_append.mp hinside
      simp only [List.forall_mem_append]
      exact ⟨hq, fun c hc => hopening c hc ▸ hquote, hn, fun c hc => hclosing c hc ▸ hquote⟩
    rw [qualifiedName_append hends hrest, afterLastDot_append hqualifier hlast,
      trimQuotes_append hquotes hname]
  · rintro rfl
    obtain ⟨rest, hs, hinside, hrest⟩ := exists_qualifiedName s
    obtain ⟨qualifier, hqualified, hqualifier, hdot⟩ := exists_afterLastDot (qualifiedName s)
    obtain ⟨opening, closing, hparts, hquotes, hname⟩ :=
      exists_trimQuotes (afterLastDot (qualifiedName s))
    generalize trimQuotes (afterLastDot (qualifiedName s)) = name at hparts hname ⊢
    rw [hparts] at hqualified hdot
    rw [hqualified] at hs hinside
    rw [hs]
    simp only [List.mem_append, not_or] at hdot
    simp only [List.forall_mem_append] at hinside
    exact .intro hqualifier hquotes hname hdot.2.1
      (List.forall_mem_append.mpr ⟨hinside.1, hinside.2.2.1⟩) hrest

/-! ## The word after the keyword -/

/-- The word is the keyword of a package. -/
def isPackage (word : List Char) : Bool := sameLetters word "package".toList

theorem wordAfterPackage?_cons (first : Nat × List Char) (rest : List (Nat × List Char)) :
    wordAfterPackage? (first :: rest) =
      if isPackage first.2 then rest.head? else wordAfterPackage? rest := rfl

/-- Words in front of the keyword are passed over. -/
theorem wordAfterPackage?_append {before : List (Nat × List Char)}
    (hbefore : ∀ word ∈ before, isPackage word.2 = false) {keyword : Nat × List Char}
    (hkeyword : isPackage keyword.2 = true) (rest : List (Nat × List Char)) :
    wordAfterPackage? (before ++ keyword :: rest) = rest.head? := by
  induction before with
  | nil => exact if_pos hkeyword
  | cons word before ih =>
    obtain ⟨hword, hbefore⟩ := List.forall_mem_cons.mp hbefore
    rw [List.cons_append, wordAfterPackage?_cons, if_neg (ne_true_of_eq_false hword), ih hbefore]

theorem exists_of_wordAfterPackage? {words : List (Nat × List Char)} {next : Nat × List Char}
    (h : wordAfterPackage? words = some next) :
    ∃ before keyword after, words = before ++ keyword :: next :: after ∧
      (∀ word ∈ before, isPackage word.2 = false) ∧ isPackage keyword.2 = true := by
  induction words with
  | nil => cases h
  | cons first rest ih =>
    rw [wordAfterPackage?_cons] at h
    split_ifs at h with hfirst
    · obtain ⟨after, rfl⟩ := List.head?_eq_some_iff.mp h
      exact ⟨[], first, after, rfl, fun _ hword => absurd hword List.not_mem_nil, hfirst⟩
    · obtain ⟨before, keyword, after, rfl, hbefore, hkeyword⟩ := ih h
      exact ⟨first :: before, keyword, after, rfl,
        List.forall_mem_cons.mpr ⟨eq_false_of_ne_true hfirst, hbefore⟩, hkeyword⟩

/-- **The name that a text gives a package**: the one that is cut out where the next word after the
first word `package` stands. -/
inductive NamesPackage (s name : List Char) : Prop
  | intro {before after : List (Nat × List Char)} {keyword next : Nat × List Char}
      (hwords : words s = before ++ keyword :: next :: after)
      (hbefore : ∀ word ∈ before, isPackage word.2 = false) (hkeyword : isPackage keyword.2 = true)
      (hname : CutsName (s.drop next.1) name)

/-- The keyword of a package body stands where the name of a package does. -/
def isBody (name : List Char) : Bool := sameLetters name "body".toList

/-- What is cut out where the word after the keyword stands is the name. -/
theorem namesPackage_iff {s name : List Char} :
    NamesPackage s name ↔ ∃ next, wordAfterPackage? (words s) = some next ∧
      trimQuotes (afterLastDot (qualifiedName (s.drop next.1))) = name := by
  constructor
  · rintro ⟨hwords, hbefore, hkeyword, hname⟩
    refine ⟨_, ?_, cutsName_iff.mp hname⟩
    rw [hwords, wordAfterPackage?_append hbefore hkeyword, List.head?_cons]
  · rintro ⟨next, hnext, hname⟩
    obtain ⟨before, keyword, after, hwords, hbefore, hkeyword⟩ := exists_of_wordAfterPackage? hnext
    exact ⟨hwords, hbefore, hkeyword, cutsName_iff.mpr hname⟩

/-- A name that is empty or the keyword of a body is none. -/
theorem ite_name_eq_some_iff {name : List Char} {n : String} :
    (if name.isEmpty || isBody name then none else some (String.ofList name)) = some n ↔
      name = n.toList ∧ n.toList ≠ [] ∧ isBody n.toList = false := by
  constructor
  · intro h
    split_ifs at h with hnone
    obtain rfl := Option.some.inj h
    rw [Bool.or_eq_true, not_or, List.isEmpty_iff] at hnone
    rw [String.toList_ofList]
    exact ⟨rfl, hnone.1, eq_false_of_ne_true hnone.2⟩
  · rintro ⟨rfl, hne, hbody⟩
    rw [if_neg, String.ofList_toList]
    rw [hbody, Bool.or_false, List.isEmpty_iff]
    exact hne

/-- **The reader of a header**, for every text. -/
theorem headerName?_eq_some_iff {s : List Char} {n : String} :
    headerName? s = some n ↔
      NamesPackage s n.toList ∧ n.toList ≠ [] ∧ isBody n.toList = false := by
  rw [headerName?, namesPackage_iff]
  cases wordAfterPackage? (words s) with
  | none => simp
  | some next =>
    simp only [Option.some.injEq, exists_eq_left']
    exact ite_name_eq_some_iff

/-- Nothing that ends a name, and no full stop, is in a name that is cut out. -/
theorem CutsName.plain {s name : List Char} (h : CutsName s name) :
    (∀ c ∈ name, endsName c = false) ∧ '.' ∉ name := by
  obtain ⟨-, -, -, hdot, hinside, -⟩ := h
  exact ⟨(List.forall_mem_append.mp hinside).2, hdot⟩

/-! ## Documented headers -/

/-- **How a text begins with keywords**, in any case and with spaces in front of each. The second
text is what follows them and the spaces behind them. In normal form there is no other gap. -/
inductive BeginsWith : List String → List Char → List Char → Prop
  | nil {spaces rest : List Char} (hspaces : ∀ c ∈ spaces, c = ' ') :
      BeginsWith [] (spaces ++ rest) rest
  | cons {keyword : String} {keywords : List String} {spaces word rest after : List Char}
      (hspaces : ∀ c ∈ spaces, c = ' ') (hword : sameLetters word keyword.toList = true)
      (hrest : rest.head?.any isWordChar = false) (h : BeginsWith keywords rest after) :
      BeginsWith (keyword :: keywords) (spaces ++ (word ++ rest)) after

/-- **A qualified identifier**: the texts after the first are the qualifier, the identifier and
what follows it. -/
inductive ReadsQualified : List Char → List Char → List Char → List Char → Prop
  | plain {s name rest : List Char} (h : ReadsName s name rest) : ReadsQualified s [] name rest
  | qualified {s schema others name rest : List Char} (hschema : ReadsName s schema ('.' :: others))
      (hname : ReadsName others name rest) : ReadsQualified s schema name rest

/-- The keywords that can stand in front of `package`. -/
def openings : List (List String) := [[], ["create"], ["create", "or", "replace"]]

/-- **The documented header** `[create [or replace]] package [SCHEMA.]NAME`. -/
inductive IsHeader (s schema name rest : List Char) : Prop
  | intro {opening : List String} {after : List Char} (hopening : opening ∈ openings)
      (hkeywords : BeginsWith (opening ++ ["package"]) s after)
      (hname : ReadsQualified after schema name rest)

theorem isPackage_eq_of_sameLetters {word keyword : List Char}
    (h : sameLetters word keyword = true) : isPackage word = isPackage keyword := by
  rw [isPackage, isPackage, sameLetters, sameLetters, sameLetters_iff.mp h]

/-- What stands in front of `package` is a word of its own. -/
theorem isKeyword_of_mem_openings : ∀ opening ∈ openings, ∀ keyword ∈ opening,
    IsKeyword keyword.toList ∧ isPackage keyword.toList = false := by
  decide

/-- Spaces hold no word. -/
theorem wordsFrom_spaces {spaces : List Char} (h : ∀ c ∈ spaces, c = ' ') (i : Nat)
    (s : List Char) : wordsFrom i (spaces ++ s) = wordsFrom (i + spaces.length) s := by
  induction spaces generalizing i with
  | nil => rfl
  | cons c spaces ih =>
    obtain ⟨rfl, hspaces⟩ := List.forall_mem_cons.mp h
    rw [List.cons_append, wordsFrom_cons rfl rfl, ih hspaces, List.length_cons, Nat.add_assoc,
      Nat.add_comm 1]

/-- A keyword is the next word behind the spaces. -/
theorem wordsFrom_keyword {keyword spaces word rest : List Char} (hkeyword : IsKeyword keyword)
    (hspaces : ∀ c ∈ spaces, c = ' ') (hword : sameLetters word keyword = true)
    (hrest : rest.head?.any isWordChar = false) (i : Nat) :
    wordsFrom i (spaces ++ (word ++ rest)) =
      (i + spaces.length, word) :: wordsFrom (i + (spaces ++ word).length) rest := by
  rw [sameLetters_comm] at hword
  have hne : word ≠ [] := by
    rintro rfl
    have hnil := sameLetters_iff.mp hword
    exact hkeyword.ne_nil (List.map_eq_nil_iff.mp hnil)
  have hreads : ReadsWord (word ++ rest) word rest :=
    .run hne (hkeyword.of_sameLetters hword) hrest
  rw [wordsFrom_spaces hspaces, hreads.wordsFrom_eq, List.length_append, Nat.add_assoc]

/-- **Behind `package`** the reader goes on where the documented keywords end. -/
theorem BeginsWith.wordAfterPackage?_eq {opening : List String} {s after : List Char}
    (h : BeginsWith (opening ++ ["package"]) s after)
    (hopening : ∀ keyword ∈ opening, IsKeyword keyword.toList ∧ isPackage keyword.toList = false)
    (i : Nat) :
    ∃ front, s = front ++ after ∧
      wordAfterPackage? (wordsFrom i s) = (wordsFrom (i + front.length) after).head? := by
  induction opening generalizing s i with
  | nil =>
    obtain _ | ⟨hspaces, hword, hrest, ⟨hafter⟩⟩ := h
    rename_i spaces word spaces'
    refine ⟨spaces ++ (word ++ spaces'), by simp, ?_⟩
    have hpackage : isPackage word = true := hword
    have hplace : i + (spaces ++ (word ++ spaces')).length =
        i + (spaces ++ word).length + spaces'.length := by
      rw [← List.append_assoc, List.length_append, Nat.add_assoc]
    rw [wordsFrom_keyword (by decide) hspaces hword hrest, wordAfterPackage?_cons,
      if_pos hpackage, wordsFrom_spaces hafter, hplace]
  | cons keyword opening ih =>
    obtain ⟨⟨hkeyword, hother⟩, hopening⟩ := List.forall_mem_cons.mp hopening
    obtain _ | ⟨hspaces, hword, hrest, h⟩ := h
    rename_i spaces word rest
    obtain ⟨front, rfl, hnext⟩ := ih h hopening (i + (spaces ++ word).length)
    refine ⟨spaces ++ word ++ front, by simp, ?_⟩
    have hplace : i + (spaces ++ word ++ front).length =
        i + (spaces ++ word).length + front.length := by
      rw [List.length_append, Nat.add_assoc]
    rw [wordsFrom_keyword hkeyword hspaces hword hrest, wordAfterPackage?_cons,
      isPackage_eq_of_sameLetters hword, hother, if_neg Bool.false_ne_true, hnext, hplace]

/-- **An identifier as it is written** has quotes on both sides or on neither. -/
theorem exists_quotes_of_readsName {s name rest : List Char} (h : ReadsName s name rest) :
    ∃ quotes, s = quotes ++ (name ++ quotes) ++ rest ∧ (∀ c ∈ quotes, c = '"') ∧ '"' ∉ name ∧
      name ≠ [] := by
  cases h with
  | plain hne hname hdigit hrest =>
    refine ⟨[], by simp, fun c hc => absurd hc List.not_mem_nil, fun hquote => ?_, hne⟩
    exact ne_of_isWordChar (hname _ hquote) (by decide : isWordChar '"' = false) rfl
  | quoted hne hname hrest => exact ⟨['"'], by simp, by simp, hname, hne⟩

/-- A qualified identifier begins with a word. -/
theorem ReadsQualified.exists_readsWord {s schema name rest : List Char}
    (h : ReadsQualified s schema name rest) : ∃ word others, ReadsWord s word others := by
  cases h with
  | plain hname =>
    obtain ⟨word, -, hreads⟩ := hname.exists_readsWord
    exact ⟨word, _, hreads⟩
  | qualified hschema hname =>
    obtain ⟨word, -, hreads⟩ := hschema.exists_readsWord
    exact ⟨word, _, hreads⟩

/-- **A qualified identifier is cut right** if nothing in it ends a name. -/
theorem ReadsQualified.cutsName {s schema name rest : List Char}
    (h : ReadsQualified s schema name rest) (hschema : ∀ c ∈ schema, endsName c = false)
    (hname : ∀ c ∈ name, endsName c = false) (hdot : '.' ∉ name)
    (hrest : rest.head?.all endsName) : CutsName s name ∧ name ≠ [] := by
  have hquote : endsName '"' = false := by decide
  have hends : ∀ {name : List Char}, '"' ∉ name →
      name.head? ≠ some '"' ∧ name.getLast? ≠ some '"' := fun hnone =>
    ⟨fun hhead => hnone (List.mem_of_head? hhead), fun hlast => hnone (List.mem_of_getLast? hlast)⟩
  cases h with
  | plain hreads =>
    obtain ⟨quotes, rfl, hquotes, hnone, hne⟩ := exists_quotes_of_readsName hreads
    refine ⟨?_, hne⟩
    exact .intro (.inl rfl) (List.forall_mem_append.mpr ⟨hquotes, hquotes⟩) (hends hnone) hdot
      hname hrest
  | qualified hqualifier hreads =>
    obtain ⟨quotes', rfl, hquotes', -, -⟩ := exists_quotes_of_readsName hqualifier
    obtain ⟨quotes, rfl, hquotes, hnone, hne⟩ := exists_quotes_of_readsName hreads
    refine ⟨?_, hne⟩
    have hinside : ∀ c ∈ quotes' ++ (schema ++ quotes') ++ ['.'] ++ name, endsName c = false := by
      have hq : ∀ c ∈ quotes', endsName c = false := fun c hc => hquotes' c hc ▸ hquote
      simp only [List.forall_mem_append, List.forall_mem_singleton]
      exact ⟨⟨⟨hq, hschema, hq⟩, by decide⟩, hname⟩
    have hcuts := CutsName.intro (.inr List.getLast?_concat)
      (List.forall_mem_append.mpr ⟨hquotes, hquotes⟩) (hends hnone) hdot hinside hrest
    rwa [List.append_assoc _ ['.'], List.append_assoc _ (['.'] ++ _)] at hcuts

/-- **A documented header names the package**, unless what is written in it ends a name. -/
theorem IsHeader.namesPackage {s schema name rest : List Char} (h : IsHeader s schema name rest)
    (hschema : ∀ c ∈ schema, endsName c = false) (hname : ∀ c ∈ name, endsName c = false)
    (hdot : '.' ∉ name) (hrest : rest.head?.all endsName) : NamesPackage s name ∧ name ≠ [] := by
  obtain ⟨hopening, hkeywords, hqualified⟩ := h
  obtain ⟨front, rfl, hnext⟩ :=
    hkeywords.wordAfterPackage?_eq (isKeyword_of_mem_openings _ hopening) 0
  obtain ⟨word, others, hreads⟩ := hqualified.exists_readsWord
  obtain ⟨hcuts, hne⟩ := hqualified.cutsName hschema hname hdot hrest
  refine ⟨namesPackage_iff.mpr ⟨(front.length, word), ?_, ?_⟩, hne⟩
  · rw [words, hnext, hreads.wordsFrom_eq, Nat.zero_add, List.head?_cons]
  · rw [List.drop_left]
    exact cutsName_iff.mp hcuts

/-! ## Main statement -/

/-- The text of the first statement of a source, in which comments are gaps. -/
def firstText? (source : String) : Option (List Char) :=
  (statements source.toList).head?.map Statement.text

theorem packageName?_eq_bind (source : String) :
    packageName? source = (firstText? source).bind headerName? := by
  rw [packageName?, firstText?]
  cases (statements source.toList).head? <;> rfl

/-- **The name of a package.** It is the name that the text of the first statement gives a package
by a word `package` anywhere in it. Of a documented header, it is the name in the header if nothing
in that ends a name, and never otherwise; the keyword of a body is no name. -/
theorem package_name_iff (source : String) :
    (∀ n, packageName? source = some n ↔
      ∃ s, firstText? source = some s ∧ NamesPackage s n.toList ∧ n.toList ≠ [] ∧
        isBody n.toList = false) ∧
    ∀ s schema name rest, firstText? source = some s → IsHeader s schema name rest →
      (∀ c ∈ schema, endsName c = false) → rest.head?.all endsName →
      let plain := (∀ c ∈ name, endsName c = false) ∧ '.' ∉ name
      (plain → packageName? source =
        if isBody name then none else some (String.ofList name)) ∧
      (¬ plain → packageName? source ≠ some (String.ofList name)) := by
  rw [packageName?_eq_bind]
  refine ⟨fun n => ?_, fun s schema name rest hs hheader hschema hrest => ⟨?_, ?_⟩⟩
  · rw [Option.bind_eq_some_iff]
    exact exists_congr fun s => and_congr_right fun _ => headerName?_eq_some_iff
  · rintro ⟨hname, hdot⟩
    obtain ⟨hnames, hne⟩ := hheader.namesPackage hschema hname hdot hrest
    rw [hs, Option.bind_some]
    cases hbody : isBody name with
    | false =>
      refine headerName?_eq_some_iff.mpr ?_
      rw [String.toList_ofList]
      exact ⟨hnames, hne, hbody⟩
    | true =>
      -- the name that is cut out is the keyword, so there is no other
      refine Option.eq_none_iff_forall_ne_some.mpr fun n hn => ?_
      obtain ⟨hother, -, hnot⟩ := headerName?_eq_some_iff.mp hn
      obtain ⟨next, hnext, hcut⟩ := namesPackage_iff.mp hnames
      obtain ⟨next', hnext', hcut'⟩ := namesPackage_iff.mp hother
      rw [hnext] at hnext'
      obtain rfl := Option.some.inj hnext'
      rw [← hcut', hcut, hbody] at hnot
      cases hnot
  · intro hspecial hsome
    rw [hs, Option.bind_some] at hsome
    obtain ⟨⟨hwords, hbefore, hkeyword, hname⟩, -, -⟩ := headerName?_eq_some_iff.mp hsome
    rw [String.toList_ofList] at hname
    exact hspecial hname.plain

/-- A keyword and a quoted identifier that are recognized by evaluation. -/
theorem beginsWith_keyword {keyword : String} {keywords : List String}
    {s spaces word rest after : List Char} (hspaces : ∀ c ∈ spaces, c = ' ')
    (hs : s = spaces ++ (word ++ rest))
    (hkeyword : sameLetters word keyword.toList = true ∧ rest.head?.any isWordChar = false)
    (h : BeginsWith keywords rest after) : BeginsWith (keyword :: keywords) s after := by
  obtain ⟨hword, hrest⟩ := hkeyword
  rw [hs]
  exact .cons hspaces hword hrest h

/-- An identifier that is recognized by evaluation. -/
theorem readsName_plain {s name rest : List Char} (hs : s = name ++ rest)
    (hname : name ≠ [] ∧ name.all isWordChar = true ∧ name.head?.any Char.isDigit = false ∧
      rest.head?.any isWordChar = false) : ReadsName s name rest := by
  obtain ⟨hne, hchars, hdigit, hrest⟩ := hname
  rw [hs]
  exact .plain hne (List.all_eq_true.mp hchars) hdigit hrest

theorem readsName_quoted {s name rest : List Char} (hs : s = '"' :: name ++ '"' :: rest)
    (hname : name ≠ [] ∧ '"' ∉ name ∧ rest.head? ≠ some '"') : ReadsName s name rest := by
  obtain ⟨hne, hquote, hrest⟩ := hname
  rw [hs]
  exact .quoted hne hquote hrest

/-- A qualified name in a header is read, one with a full stop between its quotes is not, and a
statement that mentions the word `package` is taken for a header. -/
theorem package_name_of_headers :
    packageName? "CREATE package sa.\"Billing\" is end;" = some "Billing" ∧
      packageName? "package \"A.B\" is end;" ≠ some "A.B" ∧
      packageName? "package \"A.B\" is end;" = some "B" ∧
      packageName? "function F return package number;" = some "number" ∧
      NamesPackage "function F return package number;".toList "number".toList := by
  have hnone : ∀ c ∈ ([] : List Char), c = ' ' := List.forall_mem_nil _
  have hspace : ∀ c ∈ [' '], c = ' ' := fun _ => List.mem_singleton.mp
  have hclear : ∀ s : List Char, s.all (fun c => !endsName c) = true →
      ∀ c ∈ s, endsName c = false := fun s h c hc => by simpa using List.all_eq_true.mp h c hc
  have hbilling : IsHeader "CREATE package sa.\"Billing\" is end;".toList "sa".toList
      "Billing".toList " is end;".toList := by
    have hpackage : BeginsWith ["package"] " package sa.\"Billing\" is end;".toList
        "sa.\"Billing\" is end;".toList :=
      beginsWith_keyword hspace (by decide : _ = [' '] ++ ("package".toList ++
        " sa.\"Billing\" is end;".toList)) (by decide) (.nil hspace)
    have hschema : ReadsName "sa.\"Billing\" is end;".toList "sa".toList
        ('.' :: "\"Billing\" is end;".toList) := readsName_plain (by decide) (by decide)
    have hname : ReadsName "\"Billing\" is end;".toList "Billing".toList " is end;".toList :=
      readsName_quoted (by decide) (by decide)
    exact .intro (by decide : ["create"] ∈ openings)
      (beginsWith_keyword hnone (by decide : _ = [] ++ ("CREATE".toList ++ _)) (by decide) hpackage)
      (.qualified hschema hname)
  have hdotted : IsHeader "package \"A.B\" is end;".toList [] "A.B".toList " is end;".toList := by
    have hname : ReadsName "\"A.B\" is end;".toList "A.B".toList " is end;".toList :=
      readsName_quoted (by decide) (by decide)
    exact .intro (by decide : [] ∈ openings)
      (beginsWith_keyword hnone (by decide : _ = [] ++ ("package".toList ++
        " \"A.B\" is end;".toList)) (by decide) (.nil hspace))
      (.plain hname)
  have hnumber : packageName? "function F return package number;" = some "number" := by
    decide +kernel
  refine ⟨?_, ?_, by decide +kernel, hnumber, ?_⟩
  · exact ((package_name_iff _).2 _ _ _ _ (by decide +kernel) hbilling (hclear _ (by decide))
      (by decide)).1 ⟨hclear _ (by decide), by decide⟩
  · exact ((package_name_iff _).2 _ _ _ _ (by decide +kernel) hdotted (hclear _ (by decide))
      (by decide)).2 fun hplain => absurd hplain.2 (by decide)
  · obtain ⟨s, hs, hnames, -⟩ := ((package_name_iff _).1 _).mp hnumber
    have hfirst : firstText? "function F return package number;" =
        some "function F return package number;".toList := by decide +kernel
    rw [hfirst] at hs
    obtain rfl := Option.some.inj hs
    exact hnames

end Source

end StoredRoutine
