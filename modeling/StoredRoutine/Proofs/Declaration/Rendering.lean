import StoredRoutine.Declaration.Parser
import StoredRoutine.Proofs.Text.OneLine

/-!
# Declarations that can be written down

A `Declaration` can hold any texts. `Declaration.IsWellFormed` says that they are what the places
they are written in can hold: names are names, types and expressions are phrases, and none of them
has in the open what would end it early, or what would be read as a keyword in front of it.

The rendered text of such a declaration stands on one line and has no semicolon in the open
(`Declaration.render_fits`), and there is no blank at either end of it
(`Declaration.render_isPhrase`). For this it does not matter if the name of a constant could be
mistaken for a keyword: `Declaration.IsWritable` says the same without it.
-/

namespace StoredRoutine

open Text

/-! ## Well-formed declarations -/

/-- The text of a type, in a place where an expression can follow. -/
structure IsTypeText (s : List Char) : Prop extends IsPhrase s where
  assign : findSequence? ":=".toList s = none
  default : findKeyword? "default".toList s = none

/-- The text of a type, behind the keyword `return`. -/
structure IsReturnText (s : List Char) : Prop extends IsPhrase s where
  modifier : ∀ modifier ∈ Declaration.returnModifiers, findKeyword? modifier.toList s = none
  semicolon : Lacks ';' s

/-- The name cannot be mistaken for a keyword that begins a declaration or follows the name of a
constant. -/
def IsUnreserved (name : List Char) : Prop :=
  ∀ kind : Source.Kind, sameLetters name kind.keyword.toList = false

instance (name : List Char) : Decidable (IsUnreserved name) :=
  decidable_of_iff (∀ kind ∈ [Source.Kind.function, .procedure, .constant],
      sameLetters name kind.keyword.toList = false)
    ⟨fun h kind => h kind (by cases kind <;> decide), fun h kind _ => h kind⟩

namespace Argument

/-- The direction is the one that will be read: it is written down unless it is `in`, and the type
does not begin with a keyword that would be taken for a part of it. -/
def HasClearDirection (a : Argument) : Prop :=
  match a.explicitDirection, a.direction with
  | false, .into => Declaration.takeKeyword? "in".toList a.typeName.toList = none ∧
      Declaration.takeKeyword? "out".toList a.typeName.toList = none
  | false, _ => False
  | true, .into => Declaration.takeKeyword? "out".toList a.typeName.toList = none
  | true, _ => Declaration.takeKeyword? "nocopy".toList a.typeName.toList = none

/-- The argument can be written down. -/
structure IsWellFormed (a : Argument) : Prop where
  name : IsName a.name.toList
  type : IsTypeText a.typeName.toList
  comma : Lacks ',' a.typeName.toList
  direction : a.HasClearDirection
  value : ∀ value ∈ a.defaultValue, IsPhrase value.toList ∧ Lacks ',' value.toList

end Argument

/-- The declaration can be written down. -/
def Declaration.IsWellFormed : Declaration → Prop
  | .function name arguments returnType =>
    IsName name.toList ∧ (∀ a ∈ arguments, a.IsWellFormed) ∧ IsReturnText returnType.toList
  | .procedure name arguments => IsName name.toList ∧ ∀ a ∈ arguments, a.IsWellFormed
  | .constant name typeName value =>
    IsName name.toList ∧ IsUnreserved name.toList ∧
      (IsTypeText typeName.toList ∧ Lacks ';' typeName.toList) ∧
      IsPhrase value.toList ∧ Lacks ';' value.toList

/-- The declaration can be written down, if the name of a constant is left aside. -/
def Declaration.IsWritable : Declaration → Prop
  | .function name arguments returnType =>
    IsName name.toList ∧ (∀ a ∈ arguments, a.IsWellFormed) ∧ IsReturnText returnType.toList
  | .procedure name arguments => IsName name.toList ∧ ∀ a ∈ arguments, a.IsWellFormed
  | .constant name typeName value =>
    IsName name.toList ∧ (IsTypeText typeName.toList ∧ Lacks ';' typeName.toList) ∧
      IsPhrase value.toList ∧ Lacks ';' value.toList

theorem Declaration.IsWellFormed.isWritable {d : Declaration} (h : d.IsWellFormed) :
    d.IsWritable := by
  cases d with
  | function name arguments returnType => exact h
  | procedure name arguments => exact h
  | constant name typeName value =>
    obtain ⟨hname, -, htype, hvalue⟩ := h
    exact ⟨hname, htype, hvalue⟩

section Decidable

instance (s : List Char) : Decidable (IsTypeText s) :=
  decidable_of_iff (IsPhrase s ∧ findSequence? ":=".toList s = none ∧
      findKeyword? "default".toList s = none)
    ⟨fun ⟨phrase, assign, default⟩ => ⟨phrase, assign, default⟩,
      fun h => ⟨h.toIsPhrase, h.assign, h.default⟩⟩

instance (s : List Char) : Decidable (IsReturnText s) :=
  decidable_of_iff (IsPhrase s ∧ (∀ modifier ∈ Declaration.returnModifiers,
      findKeyword? modifier.toList s = none) ∧ Lacks ';' s)
    ⟨fun ⟨phrase, modifier, semicolon⟩ => ⟨phrase, modifier, semicolon⟩,
      fun h => ⟨h.toIsPhrase, h.modifier, h.semicolon⟩⟩

instance : (a : Argument) → Decidable a.HasClearDirection
  | ⟨_, .into, false, _, _⟩ => inferInstanceAs (Decidable (_ = none ∧ _ = none))
  | ⟨_, .out, false, _, _⟩ | ⟨_, .inOut, false, _, _⟩ => inferInstanceAs (Decidable False)
  | ⟨_, .into, true, _, _⟩ | ⟨_, .out, true, _, _⟩ | ⟨_, .inOut, true, _, _⟩ =>
    inferInstanceAs (Decidable (_ = none))

instance (a : Argument) : Decidable a.IsWellFormed :=
  decidable_of_iff (IsName a.name.toList ∧ IsTypeText a.typeName.toList ∧
      Lacks ',' a.typeName.toList ∧ a.HasClearDirection ∧
      ∀ value ∈ a.defaultValue, IsPhrase value.toList ∧ Lacks ',' value.toList)
    ⟨fun ⟨name, type, comma, direction, value⟩ => ⟨name, type, comma, direction, value⟩,
      fun ⟨name, type, comma, direction, value⟩ => ⟨name, type, comma, direction, value⟩⟩

instance : (d : Declaration) → Decidable d.IsWellFormed
  | .function name arguments returnType =>
    inferInstanceAs (Decidable (IsName name.toList ∧ (∀ a ∈ arguments, a.IsWellFormed) ∧
      IsReturnText returnType.toList))
  | .procedure name arguments =>
    inferInstanceAs (Decidable (IsName name.toList ∧ ∀ a ∈ arguments, a.IsWellFormed))
  | .constant name typeName value =>
    inferInstanceAs (Decidable (IsName name.toList ∧ IsUnreserved name.toList ∧
      (IsTypeText typeName.toList ∧ Lacks ';' typeName.toList) ∧
      IsPhrase value.toList ∧ Lacks ';' value.toList))

end Decidable

/-! ## Arguments -/

namespace Argument

/-- What is written between the name and the type. -/
def mark (a : Argument) : List Char :=
  if a.explicitDirection then ' ' :: a.direction.keywords.toList else []

/-- What is written behind the type. -/
def tail (a : Argument) : List Char :=
  match a.defaultValue with
  | some value => ' ' :: ':' :: '=' :: ' ' :: value.toList
  | none => []

theorem toList_render (a : Argument) :
    a.render.toList = a.name.toList ++ (a.mark ++ ' ' :: (a.typeName.toList ++ a.tail)) := by
  unfold render mark tail
  cases a.explicitDirection <;> cases a.defaultValue <;> simp

theorem mark_fits (a : Argument) : FitsBefore ',' a.mark ∧ BeginsSafely a.mark := by
  unfold mark
  generalize a.explicitDirection = explicitDirection
  generalize a.direction = direction
  cases explicitDirection <;> cases direction <;> decide

theorem tail_fits {a : Argument} (h : a.IsWellFormed) :
    FitsBefore ',' a.tail ∧ BeginsSafely a.tail := by
  unfold tail
  cases hvalue : a.defaultValue with
  | none => decide
  | some value =>
    obtain ⟨hphrase, hcomma⟩ := h.value value hvalue
    have hassign : FitsBefore ',' [' ', ':', '='] := by decide
    have hexpression : FitsBefore ',' (' ' :: value.toList) :=
      .space_cons ⟨hphrase.toIsOneLine, hcomma⟩ hphrase.head (by decide)
    exact ⟨hassign.append hexpression (.space _), .space _⟩

/-- A rendered argument stays in one piece between commas. -/
theorem render_fits {a : Argument} (h : a.IsWellFormed) : FitsBefore ',' a.render.toList := by
  obtain ⟨hmark, hmarkSafe⟩ := mark_fits a
  obtain ⟨htail, htailSafe⟩ := tail_fits h
  have hname : FitsBefore ',' a.name.toList := .of_isName h.name (by decide)
  have htype : FitsBefore ',' (' ' :: a.typeName.toList) :=
    .space_cons ⟨h.type.toIsOneLine, h.comma⟩ h.type.head (by decide)
  have hparts : a.render.toList = a.name.toList ++ a.mark ++ ' ' :: a.typeName.toList ++ a.tail := by
    simp [toList_render]
  rw [hparts]
  exact ((hname.append hmark hmarkSafe).append htype (.space _)).append htail htailSafe

theorem render_trimmed {a : Argument} (h : a.IsWellFormed) : IsTrimmed a.render.toList := by
  have hname : IsTrimmed a.name.toList := h.name.trimmed
  cases hvalue : a.defaultValue with
  | none =>
    have hparts : a.render.toList = a.name.toList ++ (a.mark ++ [' ']) ++ a.typeName.toList := by
      simp [toList_render, tail, hvalue]
    rw [hparts]
    exact hname.append h.name.ne_nil h.type.trimmed h.type.ne_nil _
  | some value =>
    obtain ⟨hphrase, -⟩ := h.value value hvalue
    have hparts : a.render.toList = a.name.toList ++
        (a.mark ++ ' ' :: a.typeName.toList ++ [' ', ':', '=', ' ']) ++ value.toList := by
      simp [toList_render, tail, hvalue]
    rw [hparts]
    exact hname.append h.name.ne_nil hphrase.trimmed hphrase.ne_nil _

theorem render_isPhrase {a : Argument} (h : a.IsWellFormed) : IsPhrase a.render.toList where
  toIsOneLine := (render_fits h).toIsOneLine
  ne_nil := by
    rw [toList_render]
    simp
  trimmed := render_trimmed h

/-! ## Argument lists -/

/-- The arguments between the parentheses. -/
def joined (arguments : List Argument) : List Char :=
  [',', ' '].intercalate (arguments.map (·.render.toList))

theorem toList_renderList {arguments : List Argument} (h : arguments ≠ []) :
    (renderList arguments).toList = '(' :: joined arguments ++ [')'] := by
  cases arguments with
  | nil => exact absurd rfl h
  | cons a rest => simp [renderList, joined, Function.comp_def]

theorem joined_isPhrase {a : Argument} {rest : List Argument}
    (h : ∀ b ∈ a :: rest, b.IsWellFormed) : IsPhrase (joined (a :: rest)) := by
  induction rest generalizing a with
  | nil =>
    rw [joined, List.map_singleton, List.intercalate_singleton]
    exact render_isPhrase (h a List.mem_cons_self)
  | cons b rest ih =>
    obtain ⟨ha, hrest⟩ := List.forall_mem_cons.mp h
    have hphrase := render_isPhrase ha
    have hothers : IsPhrase (joined (b :: rest)) := ih hrest
    have hparts : joined (a :: b :: rest) = a.render.toList ++ [',', ' '] ++ joined (b :: rest) := by
      rw [joined, List.map_cons, List.map_cons, List.intercalate_cons_cons]
      rfl
    -- the comma belongs to the text on its left, the space to the one on its right
    have hparts' : joined (a :: b :: rest) =
        a.render.toList ++ [','] ++ ' ' :: joined (b :: rest) := by
      simp [hparts]
    constructor
    · have hcomma : IsOneLine [','] := by decide
      rw [hparts']
      exact (hphrase.toIsOneLine.append hcomma (by decide)).append
        (hothers.toIsOneLine.space_cons hothers.head) (.space _)
    · rw [hparts]
      simp
    · rw [hparts]
      exact hphrase.trimmed.append hphrase.ne_nil hothers.trimmed hothers.ne_nil _

theorem renderList_fits {arguments : List Argument} (h : ∀ a ∈ arguments, a.IsWellFormed) :
    FitsBefore ';' (renderList arguments).toList ∧ BeginsSafely (renderList arguments).toList := by
  cases arguments with
  | nil => decide
  | cons a rest =>
    rw [toList_renderList (List.cons_ne_nil a rest)]
    refine ⟨.group (joined_isPhrase h).toIsOneLine (by decide) (by decide), ?_⟩
    exact ⟨by simp, by simp⟩

end Argument

/-! ## Declarations -/

namespace Declaration

/-- The kind of fragment that the declaration is read from. -/
def kind : Declaration → Source.Kind
  | .function .. => .function
  | .procedure .. => .procedure
  | .constant .. => .constant

/-- The name of a constant is none of the keywords that begin a routine, in letters of any case. -/
def HasClearName (d : Declaration) : Prop :=
  d.kind = .constant → sameLetters d.name.toList "function".toList = false ∧
    sameLetters d.name.toList "procedure".toList = false

instance (d : Declaration) : Decidable d.HasClearName :=
  inferInstanceAs (Decidable (_ → _))

theorem IsWellFormed.hasClearName {d : Declaration} (h : d.IsWellFormed) : d.HasClearName := by
  intro hkind
  cases d with
  | function name arguments returnType => cases hkind
  | procedure name arguments => cases hkind
  | constant name typeName value =>
    obtain ⟨-, hunreserved, -⟩ := h
    exact ⟨hunreserved .function, hunreserved .procedure⟩

theorem toList_render_function (name : String) (arguments : List Argument) (returnType : String) :
    (render (.function name arguments returnType)).toList =
      "function".toList ++ ' ' :: (name.toList ++ ((Argument.renderList arguments).toList ++
        ' ' :: ("return".toList ++ ' ' :: returnType.toList))) := by
  simp [render]

theorem toList_render_procedure (name : String) (arguments : List Argument) :
    (render (.procedure name arguments)).toList =
      "procedure".toList ++ ' ' :: (name.toList ++ (Argument.renderList arguments).toList) := by
  simp [render]

theorem toList_render_constant (name typeName value : String) :
    (render (.constant name typeName value)).toList =
      name.toList ++ ' ' :: ("constant".toList ++ ' ' :: (typeName.toList ++
        ' ' :: ':' :: '=' :: ' ' :: value.toList)) := by
  simp [render]

/-- What functions and procedures begin with. -/
theorem signature_fits {keyword name : List Char} {arguments : List Argument}
    (hkeyword : FitsBefore ';' keyword) (hname : IsName name)
    (harguments : ∀ a ∈ arguments, a.IsWellFormed) :
    FitsBefore ';' (keyword ++ ' ' :: name ++ (Argument.renderList arguments).toList) := by
  obtain ⟨hlist, hlistSafe⟩ := Argument.renderList_fits harguments
  have hname' : FitsBefore ';' (' ' :: name) :=
    .space_cons (.of_isName hname (by decide)) hname.isPhrase.head (by decide)
  exact (hkeyword.append hname' (.space _)).append hlist hlistSafe

/-- **A rendered declaration stands on one line**, and no semicolon ends it early. -/
theorem IsWritable.render_fits {d : Declaration} (h : d.IsWritable) :
    FitsBefore ';' d.render.toList := by
  cases d with
  | function name arguments returnType =>
    obtain ⟨hname, harguments, hreturn⟩ := h
    have hkeyword : FitsBefore ';' "function".toList := by decide
    have hclause : FitsBefore ';' " return".toList := by decide
    have htype : FitsBefore ';' (' ' :: returnType.toList) :=
      .space_cons ⟨hreturn.toIsOneLine, hreturn.semicolon⟩ hreturn.head (by decide)
    have hparts : (render (.function name arguments returnType)).toList =
        "function".toList ++ ' ' :: name.toList ++ (Argument.renderList arguments).toList ++
          " return".toList ++ ' ' :: returnType.toList := by
      simp [toList_render_function]
    rw [hparts]
    exact ((signature_fits hkeyword hname harguments).append hclause (by decide)).append htype
      (.space _)
  | procedure name arguments =>
    obtain ⟨hname, harguments⟩ := h
    have hkeyword : FitsBefore ';' "procedure".toList := by decide
    have hparts : (render (.procedure name arguments)).toList =
        "procedure".toList ++ ' ' :: name.toList ++ (Argument.renderList arguments).toList := by
      simp [toList_render_procedure]
    rw [hparts]
    exact signature_fits hkeyword hname harguments
  | constant name typeName value =>
    obtain ⟨hname, ⟨htype, htypeLacks⟩, hvalue, hvalueLacks⟩ := h
    have hname' : FitsBefore ';' name.toList := .of_isName hname (by decide)
    have hkeyword : FitsBefore ';' " constant".toList := by decide
    have htype' : FitsBefore ';' (' ' :: typeName.toList) :=
      .space_cons ⟨htype.toIsOneLine, htypeLacks⟩ htype.head (by decide)
    have hassign : FitsBefore ';' " :=".toList := by decide
    have hvalue' : FitsBefore ';' (' ' :: value.toList) :=
      .space_cons ⟨hvalue.toIsOneLine, hvalueLacks⟩ hvalue.head (by decide)
    have hparts : (render (.constant name typeName value)).toList =
        name.toList ++ " constant".toList ++ ' ' :: typeName.toList ++ " :=".toList ++
          ' ' :: value.toList := by
      simp [toList_render_constant]
    rw [hparts]
    exact (((hname'.append hkeyword (by decide)).append htype' (.space _)).append hassign
      (by decide)).append hvalue' (.space _)

theorem IsWritable.render_isPhrase {d : Declaration} (h : d.IsWritable) :
    IsPhrase d.render.toList := by
  have hfits := h.render_fits
  cases d with
  | function name arguments returnType =>
    obtain ⟨-, -, hreturn⟩ := h
    have hparts : (render (.function name arguments returnType)).toList =
        "function".toList ++ (' ' :: name.toList ++ (Argument.renderList arguments).toList ++
          " return ".toList) ++ returnType.toList := by
      simp [toList_render_function]
    have htrimmed : IsTrimmed "function".toList := by decide
    refine ⟨hfits.toIsOneLine, by simp [toList_render_function], ?_⟩
    rw [hparts]
    exact htrimmed.append (by decide) hreturn.trimmed hreturn.ne_nil _
  | procedure name arguments =>
    obtain ⟨hname, -⟩ := h
    have htrimmed : IsTrimmed "procedure".toList := by decide
    refine ⟨hfits.toIsOneLine, by simp [toList_render_procedure], ?_⟩
    cases arguments with
    | nil =>
      have hparts : (render (.procedure name [])).toList =
          "procedure".toList ++ [' '] ++ name.toList := by
        simp [toList_render_procedure, Argument.renderList]
      rw [hparts]
      exact htrimmed.append (by decide) hname.trimmed hname.ne_nil _
    | cons a rest =>
      have hparts : (render (.procedure name (a :: rest))).toList =
          "procedure".toList ++ (' ' :: name.toList ++ '(' :: Argument.joined (a :: rest)) ++
            [')'] := by
        simp [toList_render_procedure, Argument.toList_renderList]
      have hclose : IsTrimmed [')'] := by decide
      rw [hparts]
      exact htrimmed.append (by decide) hclose (by decide) _
  | constant name typeName value =>
    obtain ⟨hname, -, hvalue, -⟩ := h
    have hparts : (render (.constant name typeName value)).toList =
        name.toList ++ (" constant ".toList ++ typeName.toList ++ " := ".toList) ++
          value.toList := by
      simp [toList_render_constant]
    refine ⟨hfits.toIsOneLine, by simp [toList_render_constant], ?_⟩
    rw [hparts]
    exact hname.trimmed.append hname.ne_nil hvalue.trimmed hvalue.ne_nil _

theorem render_fits {d : Declaration} (h : d.IsWellFormed) : FitsBefore ';' d.render.toList :=
  h.isWritable.render_fits

theorem render_isPhrase {d : Declaration} (h : d.IsWellFormed) : IsPhrase d.render.toList :=
  h.isWritable.render_isPhrase

end Declaration

end StoredRoutine
