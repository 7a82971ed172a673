import StoredRoutine.Proofs.Declaration.Accepted
import StoredRoutine.Proofs.Source.Fragment
import StoredRoutine.Proofs.Source.NormalForm

/-!
# Reading a rendered declaration again

Reading drops what does not matter: comments, line breaks, modifiers behind a return type, `nocopy`
and the spelling of keywords. What is left is rendered on one line, and reading that line drops
nothing more (`scan_render_of_parse`). So the rendered text is a normal form of the declaration,
whatever the source looked like that the declaration was read from.

A name is rendered without its quotes. The names must therefore be such that they need none, and
must not be taken for a keyword where they stand (`Declaration.IsPlain`).
-/

namespace StoredRoutine

open Text

namespace Source

/-- The rendered text of a declaration is one statement. -/
theorem statements_render {d : Declaration} (h : d.IsWritable) :
    ∃ statement : Statement, statement.text = d.render.toList ++ [';'] ∧
      statement.terminated = true ∧ statements (d.render.toList ++ [';']) = [statement] := by
  have hphrase := h.render_isPhrase
  have hglyphs := glyphsFrom_semicolon hphrase.toIsOneLine .start []
  have htext := text_collapseFrom_semicolon hphrase .start (Position.start.after d.render.toList)
  obtain ⟨statement, hstatement, hterminated, hcut⟩ :=
    statementsOf_passes (passes_ofText h.render_fits .start) htext
      (byteLength (d.render.toList ++ [';'])) []
  refine ⟨statement, hstatement, hterminated, ?_⟩
  rw [statements, glyphs, hglyphs]
  rw [statementsOf_nil] at hcut
  exact hcut

/-- **A declaration that can be written down** is read from its rendered text. -/
theorem scan_render {d : Declaration} (h : d.IsWritable) (hclear : d.HasClearName) :
    ∃ g : Fragment, scan (d.render ++ ";") = [g] ∧ g.Holds d := by
  obtain ⟨statement, htext, hterminated, hstatements⟩ := statements_render h
  -- nothing stands in front of the declaration
  have hlead : statement.text = [] ++ (d.render.toList ++ [';']) := htext
  have hstart : declarationStart? (words statement.text) = some (0, d.kind) := by
    rw [htext, words, declarationStart?_render h hclear]
  obtain ⟨g, hg, hholds⟩ :=
    Statement.fragment?_of_declarationStart? h hlead hstart hterminated
  refine ⟨g, ?_, hholds⟩
  have hsource : (d.render ++ ";").toList = d.render.toList ++ [';'] := by simp
  rw [scan, hsource, hstatements, List.filterMap_cons, hg]
  rfl

/-- **Reading a rendered declaration again** gives the declaration that was read: the line is one
fragment, which ends in its semicolon and holds the same declaration. -/
theorem scan_render_of_parse {source : String} {f : Fragment} (hf : f ∈ scan source)
    {d : Declaration} (hread : Declaration.parse f = .ok d) (hd : d.IsPlain) :
    ∃ g : Fragment, scan (d.render ++ ";") = [g] ∧ g.terminated = true ∧
      Declaration.parse g = .ok d := by
  have hread := Declaration.read_of_parse hread
  obtain ⟨hbalanced, hterminated, -⟩ := Declaration.of_read hread
  obtain ⟨s, htext, hloose, hlacks⟩ := exists_loose_of_mem_scan hf hterminated hbalanced
  rw [htext] at hread
  have hwritable : d.IsWritable := Declaration.isWritable_of_read hloose hlacks hd hread
  obtain ⟨g, hg, hholds⟩ := scan_render hwritable hd.clear
  exact ⟨g, hg, hholds.terminated, hholds.parse⟩

/-- A function with a semicolon between its parentheses, a type that begins with what looks like a
direction, and a default that is introduced by its keyword. -/
theorem scan_render_of_parse_tricky :
    let source := "package \"P\" is\n  function F(a \"in\" number; b, -- x )\n" ++
      "    c OUT nocopy varchar2 Default f(1,  2))\n  return \"T;\" deterministic;\nend;"
    let f : Fragment := ⟨.function, "function F(a \"in\" number; b, " ++
      "c OUT nocopy varchar2 Default f(1, 2)) return \"T;\" deterministic;", ⟨17, 125, 2, 3⟩, true⟩
    let d : Declaration := .function "F"
      [⟨"a", .into, false, "\"in\" number; b", none⟩,
        ⟨"c", .out, true, "varchar2", some "f(1, 2)"⟩] "\"T;\""
    f ∈ scan source ∧ Declaration.parse f = .ok d ∧ d.IsPlain ∧
      ∃ g : Fragment, scan (d.render ++ ";") = [g] ∧ g.terminated = true ∧
        Declaration.parse g = .ok d := by
  intro source f d
  have hf : f ∈ scan source := by decide +kernel
  have hread : Declaration.parse f = .ok d := by
    have hsome : (Declaration.parse f).toOption = some d := by decide +kernel
    cases hparse : Declaration.parse f with
    | error e =>
      rw [hparse] at hsome
      cases hsome
    | ok other =>
      rw [hparse] at hsome
      exact congrArg Except.ok (Option.some.inj hsome)
  have hd : d.IsPlain := by decide +kernel
  exact ⟨hf, hread, hd, scan_render_of_parse hf hread hd⟩

end Source

end StoredRoutine
