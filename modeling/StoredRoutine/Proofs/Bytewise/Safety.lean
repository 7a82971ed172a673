import StoredRoutine.Package
import StoredRoutine.Source.Header
import StoredRoutine.Proofs.Bytewise.Declaration
import StoredRoutine.Proofs.Bytewise.Statements

/-!
# No access breaks a rule

A specification is processed with accesses to its bytes alone: the scanner slices the source, the
words of a statement are found among its bytes, a declaration is cut off at the byte where its first
word begins, and it is read by its bytes. None of the accesses breaks a rule, whatever the source
and the fragments are, and what comes of them is what comes of the characters
(`processing_is_safe`).
-/

namespace StoredRoutine.Bytewise

open Source (byteLength Glyph Statement Fragment Kind declarationStart?
  wordAfterPackage? afterLastDot trimQuotes)
open Delimited (offsetOf)

/-! ## Fragments -/

/-- The declaration that a statement holds, if it holds one. -/
def Cut.fragment? (cut : Cut) : Checked (Option Fragment) := do
  let found ← words cut.buffer.text
  match declarationStart? found with
  | none => return none
  | some (offset, kind) =>
    let first ← get cut.buffer.positions offset
    let text ← sliceFrom cut.buffer.text offset
    return some {
      kind
      text := String.ofList (Text.trimEnd text)
      span := ⟨first.offset, cut.stop, first.line, first.column⟩
      terminated := cut.terminated
    }

/-- What begins a declaration does so wherever its words are placed. -/
theorem declarationStart?_located (s : List Char) (found : List (Nat × List Char)) :
    declarationStart? (found.map (located s))
      = (declarationStart? found).map fun (i, kind) => (offsetOf s i, kind) := by
  induction found with
  | nil => rfl
  | cons first rest ih =>
    have next : ((rest.map (located s)).head?.any
        fun next => Text.sameLetters next.2 Kind.constant.keyword.toList)
        = rest.head?.any fun next => Text.sameLetters next.2 Kind.constant.keyword.toList := by
      cases rest <;> rfl
    obtain ⟨i, word⟩ := first
    rw [List.map_cons, located, declarationStart?, declarationStart?, next, ih]
    split_ifs <;> rfl

theorem length_positions (gs : List Glyph) :
    (Buffer.ofGlyphs gs).positions.length = byteLength (Glyph.text gs) := by
  rw [Buffer.ofGlyphs, List.length_flatMap]
  induction gs with
  | nil => rfl
  | cons g gs ih => simpa [Glyph.text_cons] using ih

theorem get_positions_append (front : List Glyph) (g : Glyph) (back : List Glyph) :
    get (Buffer.ofGlyphs (front ++ g :: back)).positions (byteLength (Glyph.text front))
      = .ok g.place := by
  obtain ⟨k, hk⟩ := Nat.exists_eq_succ_of_ne_zero (Nat.ne_of_gt g.char.utf8Size_pos)
  have split : (Buffer.ofGlyphs (front ++ g :: back)).positions
      = (Buffer.ofGlyphs front).positions ++ g.place :: (List.replicate k g.place
        ++ (Buffer.ofGlyphs back).positions) := by
    simp [Buffer.ofGlyphs, hk, List.replicate_succ]
  rw [split, ← length_positions, get_append]

/-- The place of a glyph is found at the offset of its first byte. -/
theorem get_positions {gs : List Glyph} {i : Nat} (inside : i < gs.length) :
    get (Buffer.ofGlyphs gs).positions (offsetOf (Glyph.text gs) i) = .ok gs[i].place := by
  have found := get_positions_append (gs.take i) gs[i] (gs.drop (i + 1))
  rwa [← List.drop_eq_getElem_cons inside, List.take_append_drop, Glyph.text, List.map_take]
    at found

theorem fragment?_eq (s : Statement) : (Cut.of s).fragment? = .ok s.fragment? := by
  have text : (Cut.of s).buffer.text = s.text := rfl
  rw [Cut.fragment?, text, words_eq, ok_bind, declarationStart?_located]
  cases start : declarationStart? (Text.words s.text) with
  | none =>
    rw [Statement.fragment?, start]
    rfl
  | some parts =>
    obtain ⟨i, kind⟩ := parts
    obtain ⟨a, b, word, rest, split, place, -, reads, -⟩ := Source.exists_of_declarationStart? start
    have inside : i < s.glyphs.length := by
      have size : s.text.length = s.glyphs.length := List.length_map _
      have nonempty := List.length_pos_iff.2 reads.ne_nil
      rw [← size, split, reads.eq_append, List.length_append, List.length_append, place]
      omega
    have first := List.getElem?_eq_getElem inside
    have read : get (Cut.of s).buffer.positions (offsetOf s.text i) = .ok s.glyphs[i].place :=
      get_positions inside
    simp only [Option.map_some, read, ok_bind, sliceFrom_offsetOf]
    rw [Statement.fragment?, start]
    simp only [Option.bind_eq_bind, Option.bind_some, first]
    rfl

/-- The declarations of a specification. -/
def scan (source : String) : Checked (List Fragment) := do
  let cuts ← statements source.toList
  let fragments ← cuts.mapM Cut.fragment?
  return fragments.filterMap id

theorem scan_eq (source : String) : scan source = .ok (Source.scan source) := by
  have fragments : ((Source.statements source.toList).map Cut.of).mapM Cut.fragment?
      = .ok ((Source.statements source.toList).map Statement.fragment?) := by
    rw [List.mapM_map]
    exact mapM_ok (fun s => fragment?_eq s) _
  rw [scan, statements_eq, ok_bind, fragments, ok_bind, List.filterMap_map]
  rfl

/-! ## The header -/

/-- The name that the header of a specification declares. -/
def packageName? (source : String) : Checked (Option String) := do
  let cuts ← statements source.toList
  match cuts.head? with
  | none => return none
  | some header =>
    let found ← words header.buffer.text
    match wordAfterPackage? found with
    | none => return none
    | some (offset, _) =>
      let rest ← sliceFrom header.buffer.text offset
      let qualified := rest.takeWhile fun c => !Text.isBlank c && c ≠ '(' && c ≠ ';'
      let name := trimQuotes (afterLastDot qualified)
      return if name.isEmpty || Text.sameLetters name "body".toList then none
        else some (String.ofList name)

theorem wordAfterPackage?_located (s : List Char) (found : List (Nat × List Char)) :
    wordAfterPackage? (found.map (located s)) = (wordAfterPackage? found).map (located s) := by
  induction found with
  | nil => rfl
  | cons first rest ih =>
    obtain ⟨i, word⟩ := first
    rw [List.map_cons, located, wordAfterPackage?, wordAfterPackage?, ih]
    split_ifs
    · exact List.head?_map
    · rfl

theorem packageName?_eq (source : String) :
    packageName? source = .ok (Source.packageName? source) := by
  rw [packageName?, Source.packageName?, statements_eq, ok_bind, List.head?_map]
  cases (Source.statements source.toList).head? with
  | none => rfl
  | some header =>
    have text : (Cut.of header).buffer.text = header.text := rfl
    simp only [Option.map_some, text, words_eq, ok_bind, wordAfterPackage?_located]
    cases found : wordAfterPackage? (Text.words header.text) with
    | none =>
      simp [found]
    | some word =>
      simp only [Option.map_some, located, sliceFrom_offsetOf, ok_bind]
      simp [found]

/-! ## Reports -/

/-- What comes of a fragment. -/
def outcome (types : TypeTable) (name : String) (f : Fragment) :
    Checked (Except Error Member) := do
  let declaration ← parse f
  return (declaration >>= Member.ofDeclaration types).mapError (·.within (Report.contextOf name f))

/-- Processes the specification of a package. -/
def ofSource (types : TypeTable) (name source : String) : Checked Report := do
  let fragments ← scan source
  let outcomes ← fragments.mapM (outcome types name)
  return {
    package := ⟨name, outcomes.filterMap Except.toOption⟩
    errors := outcomes.filterMap fun
      | .ok _ => none
      | .error e => some e
  }

theorem ofSource_eq (types : TypeTable) (name source : String) :
    ofSource types name source = .ok (Report.ofSource types name source) := by
  have outcomes : (Source.scan source).mapM (outcome types name)
      = .ok (Report.outcomes types name source) :=
    mapM_ok (fun f => by rw [outcome, parse_eq]; rfl) _
  rw [ofSource, scan_eq, ok_bind, outcomes]
  rfl

/-- **Processing never breaks a rule.** For every source, fragment and table of types, no index is
out of range and no slice is out of range or ends inside of a character; and what comes of it is
what comes of the text read character by character. -/
theorem processing_is_safe :
    (∀ source, scan source = .ok (Source.scan source)) ∧
    (∀ source, packageName? source = .ok (Source.packageName? source)) ∧
    (∀ f, parse f = .ok (Declaration.parse f)) ∧
    ∀ types name source, ofSource types name source = .ok (Report.ofSource types name source) :=
  ⟨scan_eq, packageName?_eq, parse_eq, ofSource_eq⟩

end StoredRoutine.Bytewise
