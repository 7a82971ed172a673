import StoredRoutine.Proofs.Declaration.Reading
import StoredRoutine.Proofs.Source.Cutting

/-!
# Cutting out a declaration

A statement is searched for its declaration word by word. Words that begin no declaration are
passed over (`declarationStart?_spaced`), and a rendered declaration is found where it begins
(`declarationStart?_render`), so that the fragment of its statement holds it and nothing else
(`Statement.fragment?_render`).
-/

namespace StoredRoutine

open Text

namespace Text

/-! ## Words -/

/-- Words with a space behind each. -/
def spaced (words : List (List Char)) : List Char := words.flatMap (· ++ [' '])

@[simp] theorem spaced_nil : spaced [] = [] := rfl

theorem spaced_cons (word : List Char) (words : List (List Char)) :
    spaced (word :: words) = word ++ ' ' :: spaced words := by
  simp [spaced]

theorem spaced_append (words others : List (List Char)) :
    spaced (words ++ others) = spaced words ++ spaced others :=
  List.flatMap_append

/-- A name is a word. -/
theorem wordsFrom_name {name rest : List Char} (h : IsName name)
    (hrest : rest.head?.any isWordChar = false) (i : Nat) :
    wordsFrom i (name ++ rest) = (i, name) :: wordsFrom (i + name.length) rest := by
  obtain ⟨c, cs, rfl⟩ := List.exists_cons_of_ne_nil h.ne_nil
  obtain ⟨⟨hc, -⟩, hchars⟩ := List.forall_mem_cons.mp h.chars
  have hwords : ∀ d ∈ cs, isWordChar d = true := fun d hd => (hchars d hd).1
  have hquote : ¬ isQuote c = true := by
    rw [isQuote_of_isWordChar hc]
    exact Bool.false_ne_true
  obtain ⟨htake, hdrop⟩ := takeWhile_isWordChar_append hwords hrest
  rw [List.cons_append, wordsFrom, if_neg hquote, if_pos hc]
  simp only [htake, hdrop, List.length_cons]

/-- A character that is neither a quote nor a part of a word is passed over. -/
theorem wordsFrom_cons {c : Char} (hquote : isQuote c = false) (hword : isWordChar c = false)
    (i : Nat) (rest : List Char) : wordsFrom i (c :: rest) = wordsFrom (i + 1) rest := by
  rw [wordsFrom, hquote, hword]
  rfl

theorem wordsFrom_name_space {name : List Char} (h : IsName name) (i : Nat) (rest : List Char) :
    wordsFrom i (name ++ ' ' :: rest) = (i, name) :: wordsFrom (i + name.length + 1) rest := by
  rw [wordsFrom_name h rfl, wordsFrom_cons rfl rfl]

end Text

namespace Source

/-! ## Where a declaration begins -/

/-- Is the first of the words the keyword `constant`? -/
def beginsWithConstant (words : List (Nat × List Char)) : Bool :=
  words.head?.any fun word => sameLetters word.2 Kind.constant.keyword.toList

theorem declarationStart?_cons {i : Nat} {word : List Char} {rest : List (Nat × List Char)}
    (hword : IsUnreserved word) (hrest : beginsWithConstant rest = false) :
    declarationStart? ((i, word) :: rest) = declarationStart? rest := by
  have hnext : rest.head?.any
      (fun next => sameLetters next.2 Kind.constant.keyword.toList) = false := hrest
  rw [declarationStart?, hword .function, hword .procedure, hnext]
  rfl

/-- **Words that are no keywords are passed over.** -/
theorem declarationStart?_spaced {lead : List (List Char)}
    (hlead : ∀ word ∈ lead, IsName word ∧ IsUnreserved word) {i : Nat} {rest : List Char}
    (hrest : beginsWithConstant (wordsFrom (i + (spaced lead).length) rest) = false) :
    beginsWithConstant (wordsFrom i (spaced lead ++ rest)) = false ∧
      declarationStart? (wordsFrom i (spaced lead ++ rest)) =
        declarationStart? (wordsFrom (i + (spaced lead).length) rest) := by
  induction lead generalizing i with
  | nil => exact ⟨hrest, rfl⟩
  | cons word lead ih =>
    obtain ⟨⟨hname, hunreserved⟩, hlead⟩ := List.forall_mem_cons.mp hlead
    have hlength : i + (spaced (word :: lead)).length =
        i + word.length + 1 + (spaced lead).length := by
      rw [spaced_cons, List.length_append, List.length_cons]
      omega
    rw [hlength] at hrest ⊢
    obtain ⟨hconstant, hstart⟩ := ih hlead hrest
    rw [spaced_cons, List.append_assoc, List.cons_append, wordsFrom_name_space hname]
    refine ⟨hunreserved .constant, ?_⟩
    rw [declarationStart?_cons hunreserved hconstant, hstart]

/-- **A rendered declaration begins with its first word.** -/
theorem declarationStart?_render {d : Declaration} (h : d.IsWritable) (hclear : d.HasClearName)
    (i : Nat) (t : List Char) :
    declarationStart? (wordsFrom i (d.render.toList ++ t)) = some (i, d.kind) := by
  cases d with
  | function name arguments returnType =>
    have hkeyword : IsName "function".toList := by decide
    rw [Declaration.toList_render_function, List.append_assoc, List.cons_append,
      wordsFrom_name_space hkeyword]
    rfl
  | procedure name arguments =>
    have hkeyword : IsName "procedure".toList := by decide
    rw [Declaration.toList_render_procedure, List.append_assoc, List.cons_append,
      wordsFrom_name_space hkeyword]
    rfl
  | constant name typeName value =>
    obtain ⟨hname, -⟩ := h
    have hfunction : sameLetters name.toList Kind.function.keyword.toList = false :=
      (hclear rfl).1
    have hprocedure : sameLetters name.toList Kind.procedure.keyword.toList = false :=
      (hclear rfl).2
    have hkeyword : IsName "constant".toList := by decide
    rw [Declaration.toList_render_constant, List.append_assoc, List.cons_append,
      wordsFrom_name_space hname, List.append_assoc, List.cons_append,
      wordsFrom_name_space hkeyword]
    rw [declarationStart?, hfunction, hprocedure]
    rfl

/-- No word in front of a rendered declaration begins it. -/
theorem beginsWithConstant_render {d : Declaration} (h : d.IsWellFormed) (i : Nat)
    (t : List Char) : beginsWithConstant (wordsFrom i (d.render.toList ++ t)) = false := by
  cases d with
  | function name arguments returnType =>
    have hkeyword : IsName "function".toList := by decide
    rw [Declaration.toList_render_function, List.append_assoc, List.cons_append,
      wordsFrom_name_space hkeyword]
    rfl
  | procedure name arguments =>
    have hkeyword : IsName "procedure".toList := by decide
    rw [Declaration.toList_render_procedure, List.append_assoc, List.cons_append,
      wordsFrom_name_space hkeyword]
    rfl
  | constant name typeName value =>
    obtain ⟨hname, hunreserved, -⟩ := h
    rw [Declaration.toList_render_constant, List.append_assoc, List.cons_append,
      wordsFrom_name_space hname]
    exact hunreserved .constant

/-! ## Fragments -/

/-- The fragment is the declaration with its semicolon, and it is read as the declaration. -/
structure Fragment.Holds (fragment : Fragment) (d : Declaration) : Prop where
  text : fragment.text = d.render ++ ";"
  terminated : fragment.terminated = true
  parse : Declaration.parse fragment = .ok d

namespace Statement

/-- What a statement holds from the place on where its declaration begins. -/
theorem fragment?_eq_some {statement : Statement} {lead s : List Char} {kind : Kind}
    (htext : statement.text = lead ++ s) (hs : s ≠ [])
    (hstart : declarationStart? (words statement.text) = some (lead.length, kind)) :
    ∃ fragment, statement.fragment? = some fragment ∧ fragment.kind = kind ∧
      fragment.text = String.ofList (trimEnd s) ∧ fragment.terminated = statement.terminated := by
  -- there is a glyph to take the place of the declaration from
  have hlength : lead.length < statement.glyphs.length := by
    have hglyphs : statement.glyphs.length = (lead ++ s).length := by
      rw [← htext, text, Glyph.text, List.length_map]
    have hpos : 0 < s.length := List.length_pos_iff.mpr hs
    rw [hglyphs, List.length_append]
    omega
  have hdrop : statement.text.drop lead.length = s := by
    rw [htext, List.drop_left]
  unfold fragment?
  rw [hstart]
  simp only [Option.bind_eq_bind, Option.bind_some, List.getElem?_eq_getElem hlength, hdrop]
  exact ⟨_, rfl, rfl, rfl, rfl⟩

/-- **The fragment of a rendered declaration**, if it begins where the declaration does, holds the
declaration. -/
theorem fragment?_of_declarationStart? {statement : Statement} {d : Declaration}
    {lead : List Char} (hd : d.IsWritable)
    (htext : statement.text = lead ++ (d.render.toList ++ [';']))
    (hstart : declarationStart? (words statement.text) = some (lead.length, d.kind))
    (hterminated : statement.terminated = true) :
    ∃ fragment, statement.fragment? = some fragment ∧ fragment.Holds d := by
  obtain ⟨fragment, hfragment, hkind, hfragmentText, hfragmentTerminated⟩ :=
    fragment?_eq_some htext (by simp) hstart
  have htrim : trimEnd (d.render.toList ++ [';']) = d.render.toList ++ [';'] :=
    trimEnd_eq_self (by simp [isBlank])
  rw [htrim] at hfragmentText
  rw [hterminated] at hfragmentTerminated
  refine ⟨fragment, hfragment, ?_, hfragmentTerminated, ?_⟩
  · rw [hfragmentText, String.ofList_append, String.ofList_toList]
  · rw [Declaration.parse, hkind, hfragmentText, hfragmentTerminated, String.toList_ofList,
      Declaration.read_render hd]
    rfl

/-- Words that begin no declaration may stand in front of it. -/
theorem fragment?_render {statement : Statement} {d : Declaration} {lead : List (List Char)}
    (hd : d.IsWellFormed) (hlead : ∀ word ∈ lead, IsName word ∧ IsUnreserved word)
    (htext : statement.text = spaced lead ++ (d.render.toList ++ [';']))
    (hterminated : statement.terminated = true) :
    ∃ fragment, statement.fragment? = some fragment ∧ fragment.Holds d := by
  refine fragment?_of_declarationStart? hd.isWritable htext ?_ hterminated
  have hconstant := beginsWithConstant_render hd (0 + (spaced lead).length) [';']
  rw [htext, words, (declarationStart?_spaced hlead hconstant).2,
    declarationStart?_render hd.isWritable hd.hasClearName, Nat.zero_add]

/-- Names that are no keywords declare nothing. -/
theorem fragment?_eq_none {statement : Statement} {lead : List (List Char)} {name : List Char}
    (hlead : ∀ word ∈ lead, IsName word ∧ IsUnreserved word) (hname : IsName name)
    (hunreserved : IsUnreserved name)
    (htext : statement.text = spaced lead ++ (name ++ [';'])) : statement.fragment? = none := by
  have hwords : ∀ i, wordsFrom i (name ++ [';']) = [(i, name)] := by
    intro i
    rw [wordsFrom_name hname rfl, wordsFrom_cons rfl rfl, wordsFrom]
  have hconstant : beginsWithConstant (wordsFrom (0 + (spaced lead).length) (name ++ [';'])) =
      false := by
    rw [hwords]
    exact hunreserved .constant
  have hnone : declarationStart? (words statement.text) = none := by
    rw [htext, words, (declarationStart?_spaced hlead hconstant).2, hwords,
      declarationStart?_cons hunreserved rfl]
    rfl
  unfold fragment?
  rw [hnone]
  rfl

end Statement

end Source

end StoredRoutine
