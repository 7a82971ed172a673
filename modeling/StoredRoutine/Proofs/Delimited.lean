import StoredRoutine.Proofs.Bytewise.Delimiters
import StoredRoutine.Proofs.Text.Groups
import StoredRoutine.Proofs.Text.Pieces

/-!
# Splitting and matching in terms of the walk

What the delimiters of a text are is told by the walk over it, which has every byte outside quotes
with the depth it stands at. Two functions that are used on texts of any kind are described here by
the walk alone.

Splitting undoes joining, and joining undoes splitting (`split_undoes_joining`): the pieces are what
was joined, and there is one more of them than there are separators in the walk. The partner of a
parenthesis is found if it has one (`matchingParen?_finds_partner`): the text between the two is
balanced by itself, whatever the depth at which the two stand.
-/

namespace StoredRoutine.Delimited

open Bytewise (append_inj_of_byteLength byte bytesOf_of_ascii eq_byte_iff indexOf?_append
  indexOf?_eq_some of_mem_bytesOf slice? slice?_append walkFrom_hidden walkFrom_open)
open Source (byteLength byteLength_append)
open Text

/-! ## The walk -/

/-- Does the item belong to a separator at depth zero? -/
def isSeparatorItem (separator : Char) (item : Nat × UInt8 × Int) : Bool :=
  item.2.1 == byte separator && item.2.2 == 0

/-- How many separators stand at depth zero outside quotes. -/
def separators (separator : Char) (text : String) : Nat :=
  (walk text).countP (isSeparatorItem separator)

/-- What is visited of a character in the open is the byte of another one in ASCII only if both
are the same. -/
theorem mem_bytesOf_iff {c d : Char} (hc : c.toNat < 0x80) {i offset : Nat} {depth outer : Int} :
    (i, byte c, depth) ∈ bytesOf offset d outer ↔ d = c ∧ i = offset ∧ depth = outer := by
  constructor
  · intro h
    obtain ⟨hbyte, rfl⟩ := of_mem_bytesOf h
    obtain rfl := (eq_byte_iff hc hbyte).mp rfl
    rw [bytesOf_of_ascii hc, List.mem_singleton] at h
    exact ⟨rfl, congrArg Prod.fst h, rfl⟩
  · rintro ⟨rfl, rfl, rfl⟩
    rw [bytesOf_of_ascii hc]
    exact List.mem_singleton_self _

theorem mem_walkFrom_iff {c : Char} (hc : c.toNat < 0x80) {i offset : Nat} {depth : Int}
    {n : Nesting} {s : List Char} :
    (i, byte c, depth) ∈ walkFrom offset n s ↔
      ∃ a b, s = a ++ c :: b ∧ offset + byteLength a = i ∧
        (n.after a).depthAt? c = some depth := by
  induction s generalizing offset n with
  | nil => simp [walkFrom]
  | cons d s ih =>
    have hhere : (i, byte c, depth) ∈ walkFrom offset n (d :: s) ↔
        (d = c ∧ offset = i ∧ n.depthAt? c = some depth) ∨
          (i, byte c, depth) ∈ walkFrom (offset + d.utf8Size) (n.step d) s := by
      cases hd : n.depthAt? d with
      | none =>
        rw [walkFrom_hidden hd, or_iff_right]
        rintro ⟨rfl, -, hdepth⟩
        rw [hd] at hdepth
        cases hdepth
      | some outer =>
        rw [walkFrom_open hd, List.mem_append, mem_bytesOf_iff hc]
        refine or_congr_left (and_congr_right ?_)
        rintro rfl
        rw [hd, Option.some_inj, eq_comm, @eq_comm _ depth]
    rw [hhere, ih]
    constructor
    · rintro (⟨rfl, rfl, hdepth⟩ | ⟨a, b, rfl, rfl, hdepth⟩)
      · exact ⟨[], s, rfl, rfl, hdepth⟩
      · refine ⟨d :: a, b, rfl, ?_, hdepth⟩
        rw [Source.byteLength_cons, Nat.add_assoc]
    · rintro ⟨a, b, hparts, rfl, hdepth⟩
      cases a with
      | nil =>
        obtain ⟨rfl, rfl⟩ := List.cons.inj hparts
        exact .inl ⟨rfl, rfl, hdepth⟩
      | cons e a =>
        obtain ⟨rfl, rfl⟩ := List.cons.inj hparts
        refine .inr ⟨a, b, rfl, ?_, hdepth⟩
        rw [Source.byteLength_cons, Nat.add_assoc]

/-- **What the walk visits** of the characters of ASCII: those that stand in the open. -/
theorem mem_walk_iff {c : Char} (hc : c.toNat < 0x80) {text : String} {i : Nat} {depth : Int} :
    (i, byte c, depth) ∈ walk text ↔
      ∃ a b, text.toList = a ++ c :: b ∧ byteLength a = i ∧
        (Nesting.start.after a).depthAt? c = some depth := by
  rw [walk, mem_walkFrom_iff hc]
  simp only [Nat.zero_add]

/-! ## Splitting -/

theorem countP_bytesOf {separator : Char} (hascii : separator.toNat < 0x80) (offset : Nat)
    (c : Char) (depth : Int) :
    (bytesOf offset c depth).countP (isSeparatorItem separator) =
      if c = separator ∧ depth = 0 then 1 else 0 := by
  by_cases hc : c = separator
  · subst hc
    rw [bytesOf_of_ascii hascii, List.countP_singleton]
    simp [isSeparatorItem]
  · rw [if_neg fun h => hc h.1, List.countP_eq_zero]
    intro item hitem htest
    rw [isSeparatorItem, Bool.and_eq_true, beq_iff_eq] at htest
    exact hc ((eq_byte_iff hascii (of_mem_bytesOf hitem).1).mp htest.1)

/-- **One piece more than separators.** -/
theorem length_pieces {separator : Char} (hascii : separator.toNat < 0x80) (offset : Nat)
    (n : Nesting) (s : List Char) :
    (pieces separator n s).length =
      (walkFrom offset n s).countP (isSeparatorItem separator) + 1 := by
  induction s generalizing offset n with
  | nil => rfl
  | cons c s ih =>
    have hrest := ih (offset + c.utf8Size) (n.step c)
    cases hdepth : n.depthAt? c with
    | none =>
      rw [pieces, if_neg (by simp [hdepth]), List.length_modifyHead, hrest, walkFrom_hidden hdepth]
    | some depth =>
      rw [walkFrom_open hdepth, List.countP_append, countP_bytesOf hascii, pieces, hdepth]
      simp only [Option.some.injEq]
      split_ifs with hcut
      · rw [List.length_cons, hrest, Nat.add_comm 1]
      · rw [List.length_modifyHead, hrest, Nat.zero_add]

theorem separators_eq_zero_iff {separator : Char} (hascii : separator.toNat < 0x80)
    {text : String} : separators separator text = 0 ↔ Lacks separator text.toList := by
  rw [lacks_iff_length_pieces, length_pieces hascii 0, ← walk, ← separators]
  omega

/-- The text ends outside quotes. -/
def ClosesQuotes (text : String) : Prop := (Nesting.start.after text.toList).quote = none

instance (text : String) : Decidable (ClosesQuotes text) :=
  inferInstanceAs (Decidable (_ = none))

/-- What a text can be split into at a separator. -/
structure IsPiece (separator : Char) (text : String) : Prop where
  trimmed : IsTrimmed text.toList
  balanced : isBalanced text = true
  separators : separators separator text = 0

instance (separator : Char) (text : String) : Decidable (IsPiece separator text) :=
  decidable_of_iff (IsTrimmed text.toList ∧ isBalanced text = true ∧ separators separator text = 0)
    ⟨fun ⟨trimmed, balanced, separators⟩ => ⟨trimmed, balanced, separators⟩,
      fun ⟨trimmed, balanced, separators⟩ => ⟨trimmed, balanced, separators⟩⟩

theorem isClosed_iff_isBalanced {text : String} :
    IsClosed text.toList ↔ isBalanced text = true ∧ ClosesQuotes text := by
  rw [isClosed_iff, isBalanced, Text.isBalanced, Nesting.isLevel, Bool.and_eq_true, beq_iff_eq,
    Bool.not_eq_true', ClosesQuotes, and_comm]

/-- A balanced text without separators is a piece, once it is trimmed. -/
theorem isPiece_trim {separator : Char} (hascii : separator.toNat < 0x80) {part : List Char}
    (hbalanced : Text.isBalanced part = true) (hlacks : Lacks separator part) :
    IsPiece separator (String.ofList (trim part)) where
  trimmed := by
    rw [String.toList_ofList]
    exact isTrimmed_trim part
  balanced := by rw [isBalanced, String.toList_ofList, isBalanced_trim, hbalanced]
  separators := by
    rw [separators_eq_zero_iff hascii, String.toList_ofList]
    exact hlacks.of_padded (padded_trim part)

theorem split_eq_ok_iff {separator : Char} {text : String} {pieces : List String} :
    split separator text = .ok pieces ↔
      split? separator text.toList = some (pieces.map String.toList) := by
  rw [split]
  cases split? separator text.toList with
  | none => simp
  | some parts =>
    have hmap : parts.map String.ofList = pieces ↔ parts = pieces.map String.toList := by
      constructor
      · rintro rfl
        simp [Function.comp_def]
      · rintro rfl
        simp [Function.comp_def]
    simp [hmap]

theorem split_eq_error_iff {separator : Char} {text : String} {error : Error} :
    split separator text = .error error ↔
      split? separator text.toList = none ∧ error = .ofCause (.unbalancedParentheses text) := by
  rw [split]
  cases split? separator text.toList with
  | none => simp [eq_comm]
  | some parts => simp

/-- **Splitting undoes joining, and joining undoes splitting.** Texts that can be pieces are split
again as they were joined, with whatever blanks around them. The other way round, a text that is
not split is neither blank nor balanced, one without pieces is blank, and from the pieces of any
other it is joined again. -/
theorem split_undoes_joining {separator : Char} (hascii : separator.toNat < 0x80)
    (hseparator : IsSeparator separator) :
    (∀ (pieces : List String) (text : String),
      Joined separator (pieces.map String.toList) text.toList →
      (∀ piece ∈ pieces, IsPiece separator piece ∧ ClosesQuotes piece) →
      isBlankText text.toList = false → split separator text = .ok pieces) ∧
    ∀ text : String,
      (∀ error, split separator text = .error error ↔
        (isBlankText text.toList = false ∧ isBalanced text = false) ∧
          error = .ofCause (.unbalancedParentheses text)) ∧
      (split separator text = .ok [] ↔ isBlankText text.toList = true) ∧
      (isBlankText text.toList = false → isBalanced text = true →
        ∃ pieces, split separator text = .ok pieces ∧
          pieces.length = separators separator text + 1 ∧
          (∀ piece ∈ pieces, IsPiece separator piece) ∧
          Joined separator (pieces.map String.toList) text.toList) := by
  refine ⟨fun pieces text hjoined hpieces hblank => ?_, fun text => ⟨fun error => ?_, ?_, ?_⟩⟩
  · refine split_eq_ok_iff.mpr (hjoined.split?_eq hseparator hblank fun part hpart => ?_)
    obtain ⟨piece, hpiece, rfl⟩ := List.mem_map.mp hpart
    obtain ⟨⟨htrimmed, hbalanced, hnone⟩, hquotes⟩ := hpieces piece hpiece
    exact ⟨htrimmed, isClosed_iff_isBalanced.mpr ⟨hbalanced, hquotes⟩,
      (separators_eq_zero_iff hascii).mp hnone⟩
  · rw [split_eq_error_iff, split?_eq_none_iff]
    rfl
  · rw [split_eq_ok_iff, List.map_nil, split?_eq_some_nil_iff]
  · intro hblank hbalanced
    have hcut := isCut_pieces hseparator hbalanced
    have hparts : (((pieces separator .start text.toList).map trim).map String.ofList).map
        String.toList = (pieces separator .start text.toList).map trim := by
      simp [Function.comp_def]
    refine ⟨((pieces separator .start text.toList).map trim).map String.ofList, ?_, ?_, ?_, ?_⟩
    · rw [split_eq_ok_iff, hparts, split?_of_isBalanced hblank hbalanced]
    · rw [List.length_map, List.length_map, length_pieces hascii 0, separators, walk]
    · intro piece hpiece
      obtain ⟨trimmed, htrimmed, rfl⟩ := List.mem_map.mp hpiece
      obtain ⟨part, hpart, rfl⟩ := List.mem_map.mp htrimmed
      obtain ⟨hpartBalanced, hlacks⟩ := hcut.of_mem part hpart
      exact isPiece_trim hascii hpartBalanced hlacks
    · rw [hparts]
      exact hcut.joined

/-- The empty piece is kept, and commas in parentheses and in quotes do not count. -/
theorem split_arguments :
    split ',' "a number(10,2) , ,b varchar2 := ','" =
        .ok ["a number(10,2)", "", "b varchar2 := ','"] ∧
      ∃ pieces, split ',' "a number(10,2) , ,b varchar2 := ','" = .ok pieces ∧
        pieces.length = 3 := by
  have hspec := @split_undoes_joining ',' (by decide) (by decide)
  have hspace : ∀ c ∈ [' '], isBlank c = true := List.forall_mem_singleton.mpr rfl
  have hfirst : Padded "a number(10,2)".toList "a number(10,2) ".toList :=
    ⟨[], [' '], rfl, List.forall_mem_nil _, hspace⟩
  have hempty : Padded [] [' '] := ⟨[], [' '], rfl, List.forall_mem_nil _, hspace⟩
  constructor
  · exact hspec.1 _ _ (.cons hfirst (.cons hempty (.last (.refl _)))) (by decide +kernel)
      (by decide +kernel)
  · obtain ⟨pieces, hsplit, hlength, -⟩ :=
      (hspec.2 "a number(10,2) , ,b varchar2 := ','").2.2 (by decide +kernel) (by decide +kernel)
    exact ⟨pieces, hsplit, hlength⟩

/-! ## Matching parentheses -/

/-- A parenthesis is opened at the offset, outside quotes and at the given depth. -/
def OpensAt (text : String) (offset : Nat) (depth : Int) : Prop :=
  (offset, byte '(', depth) ∈ walk text

/-- A parenthesis is closed at the offset, outside quotes and at the given depth. -/
def ClosesAt (text : String) (offset : Nat) (depth : Int) : Prop :=
  (offset, byte ')', depth) ∈ walk text

/-- A parenthesis is opened at the one offset and closed at the other, and what stands between the
two is balanced by itself and ends outside quotes. -/
structure Encloses (text : String) (opening closing : Nat) : Prop where
  opens : ∃ depth, OpensAt text opening depth
  closes : ∃ depth, ClosesAt text closing depth
  order : opening < closing
  inner : ∃ inner : String, slice? text.toList (opening + 1) closing = some inner.toList ∧
    isBalanced inner = true ∧ ClosesQuotes inner

/-- Only what is outside quotes stands at some depth. -/
theorem exists_depthAt?_iff {n : Nesting} {c : Char} (hc : isQuote c = false) :
    (∃ depth, n.depthAt? c = some depth) ↔ n.quote = none := by
  constructor
  · rintro ⟨depth, hdepth⟩
    exact (Nesting.of_depthAt?_eq_some hdepth).1
  · intro hquote
    refine ⟨if c = ')' then n.depth - 1 else n.depth, ?_⟩
    rw [Nesting.depthAt?, hquote, hc, apply_ite some]
    rfl

theorem exists_mem_walk_iff {c : Char} (hascii : c.toNat < 0x80) (hc : isQuote c = false)
    {text : String} {i : Nat} :
    (∃ depth, (i, byte c, depth) ∈ walk text) ↔
      ∃ a b, text.toList = a ++ c :: b ∧ byteLength a = i ∧
        (Nesting.start.after a).quote = none := by
  constructor
  · rintro ⟨depth, hmem⟩
    obtain ⟨a, b, hparts, hlength, hdepth⟩ := (mem_walk_iff hascii).mp hmem
    exact ⟨a, b, hparts, hlength, (exists_depthAt?_iff hc).mp ⟨depth, hdepth⟩⟩
  · rintro ⟨a, b, hparts, hlength, hquote⟩
    obtain ⟨depth, hdepth⟩ := (exists_depthAt?_iff hc).mpr hquote
    exact ⟨depth, (mem_walk_iff hascii).mpr ⟨a, b, hparts, hlength, hdepth⟩⟩

theorem exists_opensAt_iff {text : String} {i : Nat} :
    (∃ depth, OpensAt text i depth) ↔
      ∃ a b, text.toList = a ++ '(' :: b ∧ byteLength a = i ∧
        (Nesting.start.after a).quote = none :=
  exists_mem_walk_iff (by decide) (by decide)

theorem exists_closesAt_iff {text : String} {i : Nat} :
    (∃ depth, ClosesAt text i depth) ↔
      ∃ a b, text.toList = a ++ ')' :: b ∧ byteLength a = i ∧
        (Nesting.start.after a).quote = none :=
  exists_mem_walk_iff (by decide) (by decide)

/-- The parts of a text that a parenthesis and its partner divide it into. -/
theorem encloses_iff {text : String} {opening closing : Nat} :
    Encloses text opening closing ↔
      ∃ a inner t, text.toList = a ++ '(' :: inner ++ ')' :: t ∧ byteLength a = opening ∧
        byteLength (a ++ '(' :: inner) = closing ∧ (Nesting.start.after a).quote = none ∧
        IsClosed inner := by
  have hopening (a : List Char) : byteLength (a ++ ['(']) = byteLength a + 1 :=
    byteLength_append a ['(']
  constructor
  · rintro ⟨hopens, hcloses, horder, inner, hslice, hbalanced, hquotes⟩
    obtain ⟨a, b, htext, rfl, hquote⟩ := exists_opensAt_iff.mp hopens
    obtain ⟨a', b', htext', rfl, -⟩ := exists_closesAt_iff.mp hcloses
    obtain ⟨k, hk⟩ : ∃ k, byteLength a' = byteLength (a ++ ['(']) + k :=
      Nat.exists_eq_add_of_le (by rw [hopening]; exact horder)
    rw [hk, htext, List.append_cons, ← hopening, slice?_append] at hslice
    obtain ⟨⟨t, rfl⟩, rfl⟩ := hslice
    -- what comes before the other parenthesis ends with the text between the two
    have hparts : (a ++ '(' :: inner.toList) ++ t = a' ++ ')' :: b' := by
      rw [← htext', htext, List.append_assoc, List.cons_append]
    have hlength : byteLength (a ++ '(' :: inner.toList) = byteLength a' := by
      rw [hk, List.append_cons, byteLength_append]
    obtain ⟨rfl, rfl⟩ := append_inj_of_byteLength hparts hlength
    exact ⟨a, inner.toList, b', htext', rfl, rfl, hquote,
      isClosed_iff_isBalanced.mpr ⟨hbalanced, hquotes⟩⟩
  · rintro ⟨a, inner, t, htext, rfl, rfl, hquote, hinner⟩
    have hclosing :
        byteLength (a ++ '(' :: inner) = byteLength (a ++ ['(']) + byteLength inner := by
      rw [List.append_cons, byteLength_append]
    refine ⟨?_, ?_, ?_, String.ofList inner, ?_, ?_⟩
    · refine exists_opensAt_iff.mpr ⟨a, inner ++ ')' :: t, ?_, rfl, hquote⟩
      rw [htext, List.append_assoc, List.cons_append]
    · refine exists_closesAt_iff.mpr ⟨_, t, htext, rfl, ?_⟩
      have hquote' := ((above_group hquote).after inner).quote
      rw [hinner] at hquote'
      rw [Nesting.after_append, Nesting.after_cons, hquote']
      rfl
    · rw [hclosing, hopening]
      omega
    · have hparts : text.toList = (a ++ ['(']) ++ (inner ++ ')' :: t) := by simp [htext]
      rw [hparts, hclosing, ← hopening, slice?_append, String.toList_ofList]
      exact ⟨List.prefix_append _ _, rfl⟩
    · rw [← isClosed_iff_isBalanced, String.toList_ofList]
      exact hinner

theorem offsetOf_append (a b : List Char) : offsetOf (a ++ b) a.length = byteLength a := by
  rw [offsetOf, List.take_left]

/-- Behind a part of the text, a partner is looked for where the part ends. -/
theorem matchingParen?_of_append {text : String} {a b : List Char} (htext : text.toList = a ++ b) :
    matchingParen? text (byteLength a) =
      (Text.matchingParen? text.toList a.length).map (offsetOf text.toList) := by
  have hindex : indexOf? text.toList (byteLength a) = some a.length := by
    rw [htext]
    exact indexOf?_append a b
  rw [matchingParen?, Option.map_eq_bind]
  simp only [hindex]
  rfl

/-- The parenthesis that is found is the partner of the other. -/
theorem matchingParen?_eq_some_iff {text : String} {opening closing : Nat} :
    matchingParen? text opening = some closing ↔ Encloses text opening closing := by
  rw [encloses_iff]
  constructor
  · intro h
    obtain ⟨i, hi, hclosing⟩ := Option.bind_eq_some_iff.mp h
    obtain ⟨j, hj, hoffset⟩ := Option.bind_eq_some_iff.mp hclosing
    obtain ⟨a, inner, t, htext, rfl, rfl, hquote, hinner⟩ := Text.matchingParen?_eq_some_iff.mp hj
    obtain ⟨-, hopening⟩ := indexOf?_eq_some hi
    refine ⟨a, inner, t, htext, ?_, ?_, hquote, hinner⟩
    · rw [htext, List.append_assoc, List.take_left] at hopening
      exact hopening
    · rw [← offsetOf_append _ (')' :: t), ← htext]
      exact Option.some.inj hoffset
  · rintro ⟨a, inner, t, htext, rfl, rfl, hquote, hinner⟩
    have hpartner : Text.matchingParen? text.toList a.length = some (a ++ '(' :: inner).length :=
      Text.matchingParen?_eq_some_iff.mpr ⟨a, inner, t, htext, rfl, rfl, hquote, hinner⟩
    have hparts : text.toList = a ++ ('(' :: inner ++ ')' :: t) := by
      rw [htext, List.append_assoc]
    rw [matchingParen?_of_append hparts, hpartner, Option.map_some, htext, offsetOf_append]

/-- A parenthesis is opened at the offset, and none of those that are closed behind it stands at its
depth or below. -/
def NeverCloses (text : String) (opening : Nat) : Prop :=
  ∃ depth, OpensAt text opening depth ∧
    ∀ closing other, opening < closing → ClosesAt text closing other → depth < other

/-- Partners stand at the same depth. -/
theorem Encloses.exists_depth {text : String} {opening closing : Nat}
    (h : Encloses text opening closing) :
    ∃ depth, OpensAt text opening depth ∧ ClosesAt text closing depth := by
  obtain ⟨a, inner, t, htext, rfl, rfl, hquote, hinner⟩ := encloses_iff.mp h
  refine ⟨(Nesting.start.after a).depth, (mem_walk_iff (by decide)).mpr ?_,
    (mem_walk_iff (by decide)).mpr ⟨a ++ '(' :: inner, t, htext, rfl, ?_⟩⟩
  · refine ⟨a, inner ++ ')' :: t, ?_, rfl, ?_⟩
    · rw [htext, List.append_assoc, List.cons_append]
    · simp [Nesting.depthAt?, hquote, isQuote]
  · obtain ⟨hquote', hdepth⟩ := (above_group hquote).after inner
    rw [hinner] at hquote' hdepth
    rw [Nesting.after_append, Nesting.after_cons, Nesting.depthAt?, hquote', hdepth]
    simp [Nesting.start, isQuote]

theorem OpensAt.depth_eq {text : String} {offset : Nat} {depth other : Int}
    (h : OpensAt text offset depth) (h' : OpensAt text offset other) : depth = other := by
  obtain ⟨a, b, htext, rfl, hdepth⟩ := (mem_walk_iff (by decide)).mp h
  obtain ⟨a', b', htext', hlength, hdepth'⟩ := (mem_walk_iff (by decide)).mp h'
  obtain ⟨rfl, -⟩ := append_inj_of_byteLength (htext.symm.trans htext') hlength.symm
  exact Option.some.inj (hdepth.symm.trans hdepth')

/-- While a group is open, everything that is closed in it stands above it. -/
theorem lt_of_closesAt {text : String} {a b : List Char} (htext : text.toList = a ++ '(' :: b)
    (hquote : (Nesting.start.after a).quote = none)
    (h : (Nesting.start.after b).underflow = false) {closing : Nat} {other : Int}
    (hless : byteLength a < closing) (hcloses : ClosesAt text closing other) :
    (Nesting.start.after a).depth < other := by
  obtain ⟨a', b', htext', rfl, hdepth⟩ := (mem_walk_iff (by decide)).mp hcloses
  obtain ⟨inner, rfl, rfl⟩ : ∃ inner, a' = a ++ '(' :: inner ∧ b = inner ++ ')' :: b' := by
    rcases List.append_eq_append_iff.mp (htext.symm.trans htext') with
      ⟨x, rfl, hx⟩ | ⟨x, rfl, hx⟩
    · cases x with
      | nil => cases hx
      | cons c x =>
        obtain ⟨rfl, rfl⟩ := List.cons.inj hx
        exact ⟨x, rfl, rfl⟩
    · rw [byteLength_append] at hless
      omega
  obtain ⟨hquote', habove⟩ := (above_group hquote).after inner
  rw [Nesting.after_append, Nesting.after_cons] at hdepth
  obtain ⟨hnone, -, hother⟩ := Nesting.of_depthAt?_eq_some hdepth
  rw [Nesting.after_append] at h
  have hpos := Nesting.depth_pos_of_step (hquote'.symm.trans hnone) (Nesting.underflow_of_after h)
  rw [if_pos rfl] at hother
  omega

/-- A parenthesis that is never closed has no partner, and the other way round. -/
theorem neverCloses_iff {text : String} {opening : Nat} :
    NeverCloses text opening ↔
      (∃ depth, OpensAt text opening depth) ∧ ∀ closing, ¬ Encloses text opening closing := by
  constructor
  · rintro ⟨depth, hopens, hnever⟩
    refine ⟨⟨depth, hopens⟩, fun closing hencloses => ?_⟩
    obtain ⟨other, hopens', hcloses⟩ := hencloses.exists_depth
    obtain rfl := hopens.depth_eq hopens'
    exact absurd (hnever closing depth hencloses.order hcloses) (Int.lt_irrefl depth)
  · rintro ⟨⟨depth, hopens⟩, hnone⟩
    obtain ⟨a, b, htext, rfl, hdepth⟩ := (mem_walk_iff (by decide)).mp hopens
    obtain ⟨hquote, -, hsame⟩ := Nesting.of_depthAt?_eq_some hdepth
    have hsearch : matchingParen? text (byteLength a) = none :=
      Option.eq_none_iff_forall_ne_some.mpr fun closing h =>
        hnone closing (matchingParen?_eq_some_iff.mp h)
    rw [matchingParen?_of_append htext, Option.map_eq_none_iff, htext,
      Text.matchingParen?_append hquote, Option.map_eq_none_iff,
      closingFrom_group_eq_none_iff hquote] at hsearch
    refine ⟨depth, hopens, fun closing other hless hcloses => ?_⟩
    rw [hsame]
    exact lt_of_closesAt htext hquote hsearch hless hcloses

/-- **The partner of a parenthesis.** It is found exactly if there is one, and it is the first
parenthesis that can be it. What comes before the two does not matter. -/
theorem matchingParen?_finds_partner (text : String) (opening : Nat) :
    (∀ closing, matchingParen? text opening = some closing ↔
      Encloses text opening closing ∧ ∀ other < closing, ¬ Encloses text opening other) ∧
    (matchingParen? text opening = none ↔
      (∀ depth, ¬ OpensAt text opening depth) ∨ NeverCloses text opening) := by
  constructor
  · intro closing
    rw [matchingParen?_eq_some_iff]
    refine ⟨fun h => ⟨h, fun other hless hother => ?_⟩, And.left⟩
    -- there is only one partner
    have hsame :=
      (matchingParen?_eq_some_iff.mpr h).symm.trans (matchingParen?_eq_some_iff.mpr hother)
    exact absurd (Option.some.inj hsame) (Nat.ne_of_gt hless)
  · rw [neverCloses_iff, Option.eq_none_iff_forall_ne_some]
    simp only [ne_eq, matchingParen?_eq_some_iff]
    constructor
    · intro h
      by_cases hopens : ∃ depth, OpensAt text opening depth
      · exact .inr ⟨hopens, h⟩
      · exact .inl (not_exists.mp hopens)
    · rintro (hnone | ⟨-, h⟩) closing hencloses
      · obtain ⟨depth, hdepth⟩ := hencloses.opens
        exact hnone depth hdepth
      · exact h closing hencloses

/-- Unmatched parentheses in front do not matter, and those in quotes do not count. -/
example : matchingParen? ")) f(a number(10,2), b := ')')" 4 = some 29 := by decide +kernel

end StoredRoutine.Delimited
