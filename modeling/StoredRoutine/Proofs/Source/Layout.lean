import Mathlib.Data.List.Forall2
import StoredRoutine.Proofs.Source.Fragment

/-!
# Whole specifications

A `Layout` is a package specification with nothing in it but declarations, and with any gaps
between them. If the declarations can be written down, scanning its source finds each of them once,
in order, and nothing else (`Layout.scan_source`): what comments and quotes hold does not matter.

The first statement of the source holds the header, too, and the last one the end of the package.
-/

namespace StoredRoutine.Source

open Text

/-- A package specification as it is laid out: its name, its declarations, each with what stands in
front of it, and what stands in front of its end. -/
structure Layout where
  name : String
  members : List (Gap × Declaration)
  last : Gap

namespace Layout

/-- The declarations, in order. -/
def declarations (layout : Layout) : List Declaration := layout.members.map Prod.snd

/-- A member as it is written. -/
def renderMember (member : Gap × Declaration) : String :=
  String.ofList member.1.text ++ member.2.render ++ ";"

/-- The specification as it is written. -/
def source (layout : Layout) : String :=
  "create or replace package " ++ layout.name ++ " is" ++
    String.join (layout.members.map renderMember) ++ String.ofList layout.last.text ++
    "end " ++ layout.name ++ ";"

/-- The name is a name that cannot be mistaken for a keyword, and the declarations can be written
down. -/
structure IsWellFormed (layout : Layout) : Prop where
  name : IsName layout.name.toList
  unreserved : IsUnreserved layout.name.toList
  declarations : ∀ d ∈ layout.declarations, d.IsWellFormed

instance (layout : Layout) : Decidable layout.IsWellFormed :=
  decidable_of_iff (IsName layout.name.toList ∧ IsUnreserved layout.name.toList ∧
      ∀ d ∈ layout.declarations, d.IsWellFormed)
    ⟨fun ⟨name, unreserved, declarations⟩ => ⟨name, unreserved, declarations⟩,
      fun ⟨name, unreserved, declarations⟩ => ⟨name, unreserved, declarations⟩⟩

/-! ## The header and the end -/

/-- The keywords that the header begins with. -/
def opening : List (List Char) :=
  ["create".toList, "or".toList, "replace".toList, "package".toList]

/-- What the source begins with. -/
def header (name : List Char) : List Char := spaced (opening ++ [name]) ++ "is".toList

/-- The header is words, too. -/
def headerWords (name : List Char) : List (List Char) := opening ++ [name] ++ ["is".toList]

theorem header_append_space (name rest : List Char) :
    header name ++ ' ' :: rest = spaced (headerWords name) ++ rest := by
  unfold header headerWords
  rw [spaced_append (opening ++ [name]), spaced_cons, spaced_nil, List.append_assoc,
    List.append_assoc, List.append_assoc]
  rfl

/-- What the source ends with, the semicolon left aside. -/
def closing (name : List Char) : List Char := spaced ["end".toList] ++ name

/-- Names with spaces between them. -/
theorem spaced_append_isPhrase {lead : List (List Char)} {name : List Char}
    (hlead : ∀ word ∈ lead, IsName word) (hname : IsName name) :
    IsPhrase (spaced lead ++ name) ∧ Lacks ';' (spaced lead ++ name) := by
  have hlacks : ∀ {word}, IsName word → Lacks ';' word :=
    fun hword => (FitsBefore.of_isName hword (by decide)).lacks
  induction lead with
  | nil => exact ⟨hname.isPhrase, hlacks hname⟩
  | cons word lead ih =>
    obtain ⟨hword, hlead⟩ := List.forall_mem_cons.mp hlead
    obtain ⟨hphrase, hrest⟩ := ih hlead
    rw [spaced_cons, List.append_assoc, List.cons_append]
    exact ⟨hword.isPhrase.append_space hphrase,
      (hlacks hword).append_space hword.isPhrase.closed hrest (by decide)⟩

section Name

variable {name : List Char} (hname : IsName name)

include hname

theorem header_isPhrase : IsPhrase (header name) ∧ Lacks ';' (header name) := by
  have hopening : ∀ word ∈ opening, IsName word := by decide
  have hlead : ∀ word ∈ opening ++ [name], IsName word :=
    List.forall_mem_append.mpr ⟨hopening, List.forall_mem_singleton.mpr hname⟩
  exact spaced_append_isPhrase hlead (by decide)

theorem closing_isPhrase : IsPhrase (closing name) ∧ Lacks ';' (closing name) :=
  spaced_append_isPhrase (by decide) hname

/-- No word of the header begins a declaration. -/
theorem headerWords_unreserved (hunreserved : IsUnreserved name) :
    ∀ word ∈ headerWords name, IsName word ∧ IsUnreserved word := by
  have hopening : ∀ word ∈ opening, IsName word ∧ IsUnreserved word := by decide
  have hlast : ∀ word ∈ ["is".toList], IsName word ∧ IsUnreserved word := by decide
  have hname' : ∀ word ∈ [name], IsName word ∧ IsUnreserved word :=
    List.forall_mem_singleton.mpr ⟨hname, hunreserved⟩
  exact List.forall_mem_append.mpr ⟨List.forall_mem_append.mpr ⟨hopening, hname'⟩, hlast⟩

end Name

/-! ## Scanning -/

variable {last : Gap} {name : List Char} {size : Nat}

/-- The members as characters. -/
def body (members : List (Gap × Declaration)) : List Char :=
  members.flatMap fun member => member.1.text ++ (member.2.render.toList ++ [';'])

theorem body_cons (gap : Gap) (d : Declaration) (members : List (Gap × Declaration))
    (rest : List Char) :
    body ((gap, d) :: members) ++ rest =
      gap.text ++ (d.render.toList ++ ';' :: (body members ++ rest)) := by
  simp [body]

theorem toList_source (layout : Layout) :
    layout.source.toList = header layout.name.toList ++
      (body layout.members ++ (layout.last.text ++ (closing layout.name.toList ++ [';']))) := by
  have hmember : ∀ member, (renderMember member).toList =
      member.1.text ++ (member.2.render.toList ++ [';']) := by
    intro member
    rw [renderMember, String.toList_append, String.toList_append, String.toList_ofList,
      List.append_assoc]
    rfl
  have hmembers : (String.join (layout.members.map renderMember)).toList = body layout.members := by
    rw [String.toList_join, List.flatMap_map, body]
    simp only [hmember]
  have hopening : "create or replace package ".toList = spaced opening := by decide
  have hend : "end ".toList = spaced ["end".toList] := by decide
  have his : " is".toList = ' ' :: "is".toList := by decide
  have hsemicolon : ";".toList = [';'] := by decide
  have hheader : header layout.name.toList =
      spaced opening ++ (layout.name.toList ++ ' ' :: "is".toList) := by
    unfold header
    simp only [spaced_append, spaced_cons, spaced_nil, List.append_assoc, List.cons_append,
      List.nil_append]
  unfold source closing
  simp only [String.toList_append, hmembers, hopening, his, hend, hsemicolon, hheader,
    String.toList_ofList, List.append_assoc]

/-- **What follows a semicolon.** One member follows the other, and the end of the package comes
last. -/
theorem filterMap_statementsOf_body {members : List (Gap × Declaration)} (hname : IsName name)
    (hunreserved : IsUnreserved name)
    (hmembers : ∀ d ∈ members.map Prod.snd, d.IsWellFormed) (p : Position) :
    List.Forall₂ Fragment.Holds
      ((statementsOf size (glyphsFrom .code p
        (body members ++ (last.text ++ (closing name ++ [';']))))).filterMap Statement.fragment?)
      (members.map Prod.snd) := by
  induction members generalizing p with
  | nil =>
    obtain ⟨hphrase, hlacks⟩ := closing_isPhrase hname
    obtain ⟨statement, htext, -, hstatements⟩ := statementsOf_gap hphrase hlacks last size p []
    have hend : ∀ word ∈ ["end".toList], IsName word ∧ IsUnreserved word := by decide
    rw [closing, List.append_assoc] at htext
    have hnone : statement.fragment? = none :=
      Statement.fragment?_eq_none hend hname hunreserved htext
    have hempty : glyphsFrom .code ((p.after last.text).after (closing name ++ [';'])) [] = [] := rfl
    rw [body, List.flatMap_nil, List.nil_append, hstatements, hempty, statementsOf_nil,
      List.filterMap_cons_none hnone]
    exact .nil
  | cons member members ih =>
    obtain ⟨gap, d⟩ := member
    obtain ⟨hd, hmembers⟩ := List.forall_mem_cons.mp hmembers
    obtain ⟨statement, htext, hterminated, hstatements⟩ := statementsOf_gap
      (Declaration.render_isPhrase hd) (Declaration.render_fits hd).lacks gap size p
      (body members ++ (last.text ++ (closing name ++ [';'])))
    obtain ⟨fragment, hfragment, hholds⟩ :=
      Statement.fragment?_render hd (List.forall_mem_nil _) htext hterminated
    rw [body_cons, hstatements, List.filterMap_cons_some hfragment]
    exact .cons hholds (ih hmembers _)

/-- **Scanning finds what was written**, each declaration once and in order: its fragment is the
declaration with its semicolon, and reading the fragment gives the declaration back. -/
theorem scan_source {layout : Layout} (h : layout.IsWellFormed) :
    List.Forall₂ Fragment.Holds (scan layout.source) layout.declarations := by
  obtain ⟨hname, hunreserved, hmembers⟩ := h
  have hwords := headerWords_unreserved hname hunreserved
  obtain ⟨hheader, hheaderLacks⟩ := header_isPhrase hname
  rw [scan, statements, glyphs, toList_source]
  generalize byteLength _ = size
  obtain ⟨name, members, last⟩ := layout
  cases members with
  | nil =>
    obtain ⟨hclosing, hclosingLacks⟩ := closing_isPhrase hname
    obtain ⟨statement, htext, -, hstatements⟩ := statementsOf_text_gap hheader hheaderLacks
      hclosing hclosingLacks last size .start []
    have hend : ∀ word ∈ ["end".toList], IsName word ∧ IsUnreserved word := by decide
    -- without declarations the whole source is one statement of words
    rw [header_append_space, closing, List.append_assoc, ← List.append_assoc, ← spaced_append]
      at htext
    have hnone : statement.fragment? = none :=
      Statement.fragment?_eq_none (List.forall_mem_append.mpr ⟨hwords, hend⟩) hname hunreserved
        htext
    have hempty : ∀ p, glyphsFrom .code p [] = [] := fun p => rfl
    rw [body, List.flatMap_nil, List.nil_append, hstatements, hempty, statementsOf_nil,
      List.filterMap_cons_none hnone]
    exact .nil
  | cons member members =>
    obtain ⟨gap, d⟩ := member
    obtain ⟨hd, hmembers⟩ := List.forall_mem_cons.mp hmembers
    obtain ⟨statement, htext, hterminated, hstatements⟩ := statementsOf_text_gap hheader
      hheaderLacks (Declaration.render_isPhrase hd) (Declaration.render_fits hd).lacks gap size
      .start (body members ++ (last.text ++ (closing name.toList ++ [';'])))
    -- the header is nothing but words in front of the declaration
    rw [header_append_space] at htext
    obtain ⟨fragment, hfragment, hholds⟩ :=
      Statement.fragment?_render hd hwords htext hterminated
    rw [body_cons, hstatements, List.filterMap_cons_some hfragment]
    exact .cons hholds (filterMap_statementsOf_body hname hunreserved hmembers _)

/-- A package with a member of each kind, and with comments that look like code. -/
def tricky : Layout where
  name := "pkg"
  members :=
    [(⟨' ', rfl, [.lineComment "it's (;".toList (by decide), .blank '\t' rfl]⟩,
      .function "label"
        [⟨"code", .into, false, "varchar2", some "';, ) -- :='"⟩,
          ⟨"size", .inOut, true, "number(10, 2)", none⟩]
        "varchar2"),
    (⟨'\n', rfl, [.blockComment "end; -- '".toList (by decide +kernel)]⟩, .procedure "reset" []),
    (⟨'\n', rfl, []⟩, .constant "top" "number(10)" "(1 + \"function\")")]
  last := ⟨'\n', rfl, [.blank ' ' rfl]⟩

theorem scan_source_tricky :
    tricky.IsWellFormed ∧ List.Forall₂ Fragment.Holds (scan tricky.source) tricky.declarations :=
  have h : tricky.IsWellFormed := by decide +kernel
  ⟨h, scan_source h⟩

end Layout

end StoredRoutine.Source
