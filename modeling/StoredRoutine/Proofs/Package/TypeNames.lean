import Mathlib.Data.List.Infix
import Mathlib.Logic.Relation
import StoredRoutine.Proofs.Text.Spaced
import StoredRoutine.Proofs.Package.KnownTypes
import StoredRoutine.Proofs.Package.Letters

/-!
# The name of a type

Many spellings name one type. They come from each other by the steps of `Respelled`: a group in
parentheses is put in or taken out, blanks are exchanged for other blanks or stand at an end,
letters are turned to the other case. However many such steps are taken, in whichever direction, the
normalized name is the same, and so is what any table says of it (`normalize_canonical`).

A normalized name is words in small letters with single spaces between them, and normalizing
leaves it alone.
-/

namespace StoredRoutine.TypeTable

open Text

/-! ## Parentheses -/

/-- The number of groups that are open behind the text. -/
def depthBehind (depth : Nat) : List Char → Nat
  | [] => depth
  | c :: rest =>
    depthBehind (if c = '(' then depth + 1 else if c = ')' then depth - 1 else depth) rest

theorem outsideParentheses_append (depth : Nat) (s t : List Char) :
    outsideParentheses depth (s ++ t) =
      outsideParentheses depth s ++ outsideParentheses (depthBehind depth s) t := by
  induction s generalizing depth with
  | nil => rfl
  | cons c s ih =>
    rw [List.cons_append, outsideParentheses, outsideParentheses, depthBehind]
    split
    · exact ih _
    · split
      · exact ih _
      · split
        · rw [ih, List.cons_append]
        · exact ih _

theorem ne_of_mem_outsideParentheses {depth : Nat} {s : List Char} {c : Char}
    (h : c ∈ outsideParentheses depth s) : c ≠ '(' ∧ c ≠ ')' := by
  induction s generalizing depth with
  | nil => simp [outsideParentheses] at h
  | cons d s ih =>
    rw [outsideParentheses] at h
    split at h
    · exact ih h
    · next hopens =>
      split at h
      · exact ih h
      · next hcloses =>
        split at h
        · rcases List.mem_cons.mp h with rfl | h
          · exact ⟨hopens, hcloses⟩
          · exact ih h
        · exact ih h

theorem outsideParentheses_eq_self {s : List Char} (h : ∀ c ∈ s, c ≠ '(' ∧ c ≠ ')') :
    outsideParentheses 0 s = s := by
  induction s with
  | nil => rfl
  | cons c s ih =>
    obtain ⟨⟨hopens, hcloses⟩, hs⟩ := List.forall_mem_cons.mp h
    rw [outsideParentheses, if_neg hopens, if_neg hcloses, if_pos rfl, ih hs]

/-- Blanks stand outside or inside, and do not change which of both. -/
theorem outsideParentheses_blanks {blanks : List Char} (h : ∀ c ∈ blanks, isBlank c = true)
    (depth : Nat) (s : List Char) :
    outsideParentheses depth (blanks ++ s) =
      (if depth = 0 then blanks else []) ++ outsideParentheses depth s := by
  induction blanks with
  | nil => simp
  | cons c blanks ih =>
    obtain ⟨hc, hblanks⟩ := List.forall_mem_cons.mp h
    have hopens : c ≠ '(' := ne_of_isBlank hc (by decide)
    have hcloses : c ≠ ')' := ne_of_isBlank hc (by decide)
    rw [List.cons_append, outsideParentheses, if_neg hopens, if_neg hcloses, ih hblanks]
    split <;> rfl

/-- The parentheses of the text are balanced: none closes what is not open, and none stays open.
Quotes have no meaning here. -/
structure IsMatched (s : List Char) : Prop where
  fronts : ∀ front, front <+: s → front.count ')' ≤ front.count '('
  count_eq : s.count '(' = s.count ')'

theorem isMatched_iff {s : List Char} :
    IsMatched s ↔ (∀ front ∈ s.inits, front.count ')' ≤ front.count '(') ∧
      s.count '(' = s.count ')' := by
  simp only [List.mem_inits]
  exact ⟨fun h => ⟨h.fronts, h.count_eq⟩, fun h => ⟨h.1, h.2⟩⟩

instance (s : List Char) : Decidable (IsMatched s) := decidable_of_iff' _ isMatched_iff

/-- What stands in a group is passed over, where no parenthesis in it closes the group. -/
theorem outsideParentheses_of_fronts {s : List Char} {depth depth' : Nat}
    (h : ∀ front, front <+: s → front.count ')' ≤ depth + front.count '(')
    (hdepth : depth' + s.count ')' = depth + 1 + s.count '(') (t : List Char) :
    outsideParentheses (depth + 1) (s ++ t) = outsideParentheses depth' t := by
  induction s generalizing depth with
  | nil =>
    obtain rfl : depth' = depth + 1 := by simpa using hdepth
    rfl
  | cons c s ih =>
    have hrest (front : List Char) (hfront : front <+: s) :
        (c :: front).count ')' ≤ depth + (c :: front).count '(' :=
      h (c :: front) (by simpa using hfront)
    rw [List.cons_append, outsideParentheses]
    by_cases hopens : c = '('
    · subst hopens
      simp only [List.count_cons_self, List.count_cons_of_ne (show '(' ≠ ')' by decide)]
        at hrest hdepth
      rw [if_pos rfl, ih (fun front hfront => ?_) (by omega)]
      have := hrest front hfront
      omega
    · rw [if_neg hopens]
      by_cases hcloses : c = ')'
      · subst hcloses
        simp only [List.count_cons_self, List.count_cons_of_ne (show ')' ≠ '(' by decide)]
          at hrest hdepth
        -- The group is not closed: its depth is at least two.
        have hpos : 0 + 1 ≤ depth + 0 := hrest [] List.nil_prefix
        obtain ⟨depth, rfl⟩ : ∃ depth₀, depth = depth₀ + 1 := ⟨depth - 1, by omega⟩
        rw [if_pos rfl, Nat.add_sub_cancel, ih (fun front hfront => ?_) (by omega)]
        have := hrest front hfront
        omega
      · simp only [List.count_cons_of_ne hopens, List.count_cons_of_ne hcloses] at hrest hdepth
        rw [if_neg hcloses, if_neg (Nat.succ_ne_zero depth), ih hrest hdepth]

/-- **A group leaves no trace**, whatever stands before it and behind it. -/
theorem outsideParentheses_group {s : List Char} (h : IsMatched s) (depth : Nat) (t : List Char) :
    outsideParentheses depth ('(' :: (s ++ ')' :: t)) = outsideParentheses depth t := by
  have hgroup : outsideParentheses (depth + 1) (s ++ ')' :: t) =
      outsideParentheses (depth + 1) (')' :: t) :=
    outsideParentheses_of_fronts (fun front hfront => (h.fronts front hfront).trans (by omega))
      (by rw [h.count_eq]) _
  rw [outsideParentheses, if_pos rfl, hgroup, outsideParentheses, if_neg (by decide), if_pos rfl,
    Nat.add_sub_cancel]

/-- **A run of blanks separates words or stands in a group**; which blanks it has does not
matter. -/
theorem blankWords_outsideParentheses_blanks {blanks : List Char} (hne : blanks ≠ [])
    (h : ∀ c ∈ blanks, isBlank c = true) (s t : List Char) :
    blankWords (outsideParentheses 0 (s ++ blanks ++ t)) =
      if depthBehind 0 s = 0 then
        blankWords (outsideParentheses 0 s) ++ blankWords (outsideParentheses 0 t)
      else blankWords (outsideParentheses 0 s ++ outsideParentheses (depthBehind 0 s) t) := by
  rw [List.append_assoc, outsideParentheses_append, outsideParentheses_blanks h]
  split
  · next hdepth => rw [hdepth, ← List.append_assoc, blankWords_append_blanks hne h]
  · rw [List.nil_append]

/-! ## Spellings -/

/-- One step from a spelling of a name to another. -/
inductive Respelled : String → String → Prop
  | group (a p b : String) (h : IsMatched p.toList) : Respelled (a ++ "(" ++ p ++ ")" ++ b) (a ++ b)
  | blanks (a w w' b : String) (hne : w ≠ "") (hne' : w' ≠ "") (h : isBlankText w.toList = true)
      (h' : isBlankText w'.toList = true) : Respelled (a ++ w ++ b) (a ++ w' ++ b)
  | front (w a : String) (h : isBlankText w.toList = true) : Respelled (w ++ a) a
  | back (a w : String) (h : isBlankText w.toList = true) : Respelled (a ++ w) a
  | letters (a b : String) (h : sameName a b = true) : Respelled a b

theorem normalize_eq_of_blankWords {a b : String}
    (h : blankWords (outsideParentheses 0 a.toList) =
      blankWords (outsideParentheses 0 b.toList)) : normalize a = normalize b := by
  rw [normalize, normalizeChars, h, normalize, normalizeChars]

theorem Respelled.normalize_eq {a b : String} (h : Respelled a b) : normalize a = normalize b := by
  have hchars {w : String} (h : isBlankText w.toList = true) : ∀ c ∈ w.toList, isBlank c = true :=
    List.all_eq_true.mp h
  cases h with
  | group a p b h =>
    refine normalize_eq_of_blankWords (congrArg blankWords ?_)
    simp only [String.toList_append, List.append_assoc]
    rw [outsideParentheses_append, outsideParentheses_append 0 a.toList b.toList]
    exact congrArg _ (outsideParentheses_group h _ _)
  | blanks a w w' b hne hne' h h' =>
    refine normalize_eq_of_blankWords ?_
    simp only [String.toList_append]
    rw [blankWords_outsideParentheses_blanks (by simpa using hne) (hchars h),
      blankWords_outsideParentheses_blanks (by simpa using hne') (hchars h')]
  | front w _ h =>
    by_cases hne : w = ""
    · rw [hne, String.empty_append]
    · refine normalize_eq_of_blankWords ?_
      have hfront :=
        blankWords_outsideParentheses_blanks (by simpa using hne) (hchars h) [] b.toList
      rwa [List.nil_append, ← String.toList_append] at hfront
  | back _ w h =>
    by_cases hne : w = ""
    · rw [hne, String.append_empty]
    · refine normalize_eq_of_blankWords ?_
      have hback := blankWords_outsideParentheses_blanks (by simpa using hne) (hchars h) b.toList []
      simpa [outsideParentheses] using hback
  | letters a b h => rw [← normalize_small a, ← normalize_small b, sameName_iff.mp h]

/-! ## Normalized names -/

/-- A name without parentheses in which single spaces stand between words. -/
structure IsNormal (name : String) : Prop where
  opens : '(' ∉ name.toList
  closes : ')' ∉ name.toList
  spaced : IsSpaced name.toList

/-- A word of a normalized name. -/
structure IsNameWord (word : List Char) : Prop extends IsWord word where
  small : ∀ c ∈ word, IsSmall c
  parens : ∀ c ∈ word, c ≠ '(' ∧ c ≠ ')'

/-- Normalizing makes such words. -/
theorem exists_normalizeChars (name : List Char) :
    ∃ words, normalizeChars name = join words ∧ ∀ word ∈ words, IsNameWord word := by
  have hcut (word) (hword : word ∈ blankWords (outsideParentheses 0 name)) :=
    isWord_of_mem_blankWords hword
  obtain ⟨words, hjoin, -, hsmall⟩ :=
    exists_lowerFrom_join (fun word hword => (hcut word hword).1) false
  refine ⟨words, hjoin, fun word hword => ?_⟩
  obtain ⟨source, hsource, hof⟩ := hsmall word hword
  refine ⟨hof.isWord, fun x hx => ?_, fun x hx => ?_⟩
  · obtain ⟨c, -, hcx⟩ := hof.chars x hx
    exact hcx.small
  · obtain ⟨c, hc, hcx⟩ := hof.chars x hx
    obtain ⟨hopens, hcloses⟩ := ne_of_mem_outsideParentheses ((hcut source hsource).2 c hc)
    exact ⟨mt hcx.opens.mp hopens, mt hcx.closes.mp hcloses⟩

section NameWords

variable {words : List (List Char)} (h : ∀ word ∈ words, IsNameWord word)

include h

theorem ne_of_mem_join : ∀ c ∈ join words, c ≠ '(' ∧ c ≠ ')' :=
  forall_mem_join (by decide) fun word hword => (h word hword).parens

/-- **Such words are left alone.** -/
theorem normalizeChars_join : normalizeChars (join words) = join words := by
  have hsmall : ∀ c ∈ join words, IsSmall c :=
    forall_mem_join (by decide) fun word hword => (h word hword).small
  rw [normalizeChars, outsideParentheses_eq_self (ne_of_mem_join h),
    blankWords_join fun word hword => (h word hword).toIsWord, ← join, lower_eq_self hsmall]

theorem isNormal_join : IsNormal (String.ofList (join words)) where
  opens hmem := (ne_of_mem_join h '(' (by simpa using hmem)).1 rfl
  closes hmem := (ne_of_mem_join h ')' (by simpa using hmem)).2 rfl
  spaced := by
    rw [String.toList_ofList]
    exact isSpaced_join fun word hword => (h word hword).toIsWord

end NameWords

theorem isNormal_normalize (name : String) : IsNormal (normalize name) := by
  obtain ⟨words, hjoin, hwords⟩ := exists_normalizeChars name.toList
  rw [normalize, hjoin]
  exact isNormal_join hwords

/-- **Normalizing twice is normalizing once.** -/
theorem normalize_normalize (name : String) : normalize (normalize name) = normalize name := by
  obtain ⟨words, hjoin, hwords⟩ := exists_normalizeChars name.toList
  have hname : normalize name = String.ofList (join words) := by rw [normalize, hjoin]
  rw [hname, normalize, String.toList_ofList, normalizeChars_join hwords]

/-! ## Main statement -/

/-- The table says the same of both spellings: an entry, or that the type is not known, which is
reported as it is written. -/
structure Agree (table : TypeTable) (a b : String) : Prop where
  contains : table.contains a = table.contains b
  classify : ∀ mapping, table.classify a = .ok mapping ↔ table.classify b = .ok mapping
  unknown : table.classify a = .error (unknown a) ↔ table.classify b = .error (unknown b)

theorem agree_of_normalize_eq {a b : String} (h : normalize a = normalize b) (table : TypeTable) :
    Agree table a b := by
  have hfind : table.find? a = table.find? b := by rw [find?, h, find?]
  refine ⟨?_, fun mapping => ?_, ?_⟩
  · rw [TypeTable.contains, hfind, TypeTable.contains]
  · rw [TypeTable.classify, hfind, TypeTable.classify]
    cases table.find? b <;> simp
  · rw [TypeTable.classify, hfind, TypeTable.classify]
    cases table.find? b <;> simp [TypeTable.unknown]

/-- **Normalized names are canonical.** A normalized name has no parentheses, and its blanks are
single spaces with words around them; it is its own normalized name, and tables know it as the name
it comes from. All spellings of a name have one normalized name, and every table says the same of
each of them. -/
theorem normalize_canonical :
    (∀ name, normalize (normalize name) = normalize name ∧ IsNormal (normalize name) ∧
      ∀ table, Agree table (normalize name) name) ∧
    ∀ a b, Relation.EqvGen Respelled a b →
      normalize a = normalize b ∧ ∀ table, Agree table a b := by
  have hspellings {a b : String} (h : Relation.EqvGen Respelled a b) :
      normalize a = normalize b := by
    induction h with
    | rel a b h => exact h.normalize_eq
    | refl a => rfl
    | symm a b _ ih => exact ih.symm
    | trans a b c _ _ ihab ihbc => exact ihab.trans ihbc
  refine ⟨fun name => ?_, fun a b h => ?_⟩
  · have htwice := normalize_normalize name
    exact ⟨htwice, isNormal_normalize name, agree_of_normalize_eq htwice⟩
  · exact ⟨hspellings h, agree_of_normalize_eq (hspellings h)⟩

/-- A group with another one in it goes, a blank that is no space becomes a space, and the case of
the letters changes. -/
theorem normalize_canonical_of_long_raw :
    let name := "Long(1, (2))\u00A0RAW"
    Relation.EqvGen Respelled name "long raw" ∧ normalize name = "long raw" ∧
      ∀ table, Agree table name "long raw" := by
  intro name
  have hgroup : Respelled name "Long\u00A0RAW" :=
    .group "Long" "1, (2)" "\u00A0RAW" (by decide +kernel)
  have hblank : Respelled "Long\u00A0RAW" "Long RAW" :=
    .blanks "Long" "\u00A0" " " "RAW" (by decide) (by decide) (by decide) (by decide)
  have hletters : Respelled "Long RAW" "long raw" := .letters _ _ (by decide)
  have hrespelled : Relation.EqvGen Respelled name "long raw" :=
    .trans _ _ _ (.rel _ _ hgroup) (.trans _ _ _ (.rel _ _ hblank) (.rel _ _ hletters))
  obtain ⟨heq, hagree⟩ := normalize_canonical.2 name "long raw" hrespelled
  exact ⟨hrespelled, heq.trans (by decide +kernel), hagree⟩

end StoredRoutine.TypeTable
