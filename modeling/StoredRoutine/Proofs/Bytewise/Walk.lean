import StoredRoutine.Proofs.Bytewise.Words
import StoredRoutine.Proofs.Text.Find

/-!
# Walking over bytes

Delimiters are looked for in a walk over the bytes of a text that leaves out the quoted sections
and counts parentheses. The walk visits what is visited character by character, a character of
several bytes once for each of them (`walk_eq`).
-/

namespace StoredRoutine.Bytewise

open Source (byteLength byteLength_append)
open Text (Nesting isQuote quotedLength)
open Delimited (bytesOf)
open String (utf8EncodeChar)

/-! ## The walk -/

/-- A byte outside quotes: its offset, itself, and the depth of parentheses that it stands at. -/
abbrev Item := Nat × UInt8 × Int

/-- Where a walk stands: the next byte, how many parentheses are open, and whether one was closed
that had not been opened. -/
structure Walker where
  pos : Nat
  depth : Int
  underflow : Bool

/-- Where the walk stands behind a byte outside quotes, and the depth of the byte. -/
def Walker.pass (w : Walker) (b : UInt8) : Walker × Int :=
  if b = byte '(' then ({ w with pos := w.pos + 1, depth := w.depth + 1 }, w.depth)
  else if b = byte ')' then
    ({ pos := w.pos + 1
       depth := w.depth - 1
       underflow := w.underflow || decide (w.depth - 1 < 0) }, w.depth - 1)
  else ({ w with pos := w.pos + 1 }, w.depth)

@[simp]
theorem Walker.pos_pass (w : Walker) (b : UInt8) : (w.pass b).1.pos = w.pos + 1 := by
  unfold Walker.pass
  split_ifs <;> rfl

/-- What a walk visits from where it stands, and where it ends. -/
def walkFrom (bs : List UInt8) (w : Walker) : Checked (List Item × Walker) :=
  match _read : bs[w.pos]? with
  | none => return ([], w)
  | some b =>
    if isQuoteByte b then
      follow (quotedEnd bs b (w.pos + 1)) fun stop _found => walkFrom bs { w with pos := stop }
    else do
      let visited ← walkFrom bs (w.pass b).1
      return ((w.pos, b, (w.pass b).2) :: visited.1, visited.2)
termination_by bs.length - w.pos
decreasing_by
  · have inside := (List.getElem?_eq_some_iff.1 _read).1
    have := le_of_quotedEnd inside _found
    omega
  · have inside := (List.getElem?_eq_some_iff.1 _read).1
    rw [Walker.pos_pass]
    omega

/-- What a walk over a whole text visits, and where it ends. -/
def walk (s : List Char) : Checked (List Item × Walker) := walkFrom (bytes s) ⟨0, 0, false⟩

/-- Did every parenthesis that the walk passed have its partner? -/
def Walker.isBalanced (w : Walker) : Bool := w.depth == 0 && !w.underflow

/-- A walk that stands where the nesting is known. -/
def Walker.at (pos : Nat) (n : Nesting) : Walker := ⟨pos, n.depth, n.underflow⟩

theorem walkFrom_all {bs : List UInt8} {w : Walker} (h : w.pos = bs.length) :
    walkFrom bs w = .ok ([], w) := by
  have behind : bs[w.pos]? = none := List.getElem?_eq_none (Nat.le_of_eq h.symm)
  rw [walkFrom]
  split
  · rfl
  · next read => cases behind.symm.trans read

theorem walkFrom_quote {bs : List UInt8} {w : Walker} {b : UInt8} {stop : Nat}
    (read : bs[w.pos]? = some b) (quote : isQuoteByte b = true)
    (found : quotedEnd bs b (w.pos + 1) = .ok stop) :
    walkFrom bs w = walkFrom bs { w with pos := stop } := by
  rw [walkFrom]
  split
  · next none => cases read.symm.trans none
  · next read' =>
    cases read.symm.trans read'
    rw [if_pos quote, follow_eq found]

theorem walkFrom_pass {bs : List UInt8} {w : Walker} {b : UInt8} (read : bs[w.pos]? = some b)
    (plain : isQuoteByte b = false) :
    walkFrom bs w = (fun visited => ((w.pos, b, (w.pass b).2) :: visited.1, visited.2)) <$>
      walkFrom bs (w.pass b).1 := by
  rw [walkFrom]
  split
  · next none => cases read.symm.trans none
  · next read' =>
    cases read.symm.trans read'
    rw [if_neg (by simp [plain])]
    rfl

/-- Bytes that are neither quotes nor parentheses are visited one after the other, at one
depth. -/
theorem walkFrom_plain {mid : List UInt8}
    (plain : ∀ b ∈ mid, isQuoteByte b = false ∧ b ≠ byte '(' ∧ b ≠ byte ')')
    (front back : List UInt8) (n : Nesting) :
    walkFrom (front ++ (mid ++ back)) (.at front.length n)
      = (fun visited => ((mid.zipIdx front.length).map (fun x => (x.2, x.1, n.depth))
          ++ visited.1, visited.2)) <$>
        walkFrom (front ++ (mid ++ back)) (.at (front.length + mid.length) n) := by
  induction mid generalizing front with
  | nil => simp
  | cons b mid ih =>
    obtain ⟨⟨noQuote, noOpen, noClose⟩, others⟩ := List.forall_mem_cons.1 plain
    have read : (front ++ (b :: mid ++ back))[(Walker.at front.length n).pos]? = some b := by
      simp [Walker.at]
    have next := ih others (front ++ [b])
    rw [List.append_assoc, List.length_append, List.length_singleton, List.singleton_append,
      Nat.add_assoc, Nat.add_comm 1] at next
    rw [walkFrom_pass read noQuote, Walker.pass, if_neg noOpen, if_neg noClose]
    rw [List.zipIdx_cons, List.map_cons, List.length_cons]
    exact (congrArg _ next).trans (by rw [← comp_map]; rfl)

/-! ## The walk by characters -/

theorem bytesOf_eq (offset : Nat) (c : Char) (depth : Int) :
    bytesOf offset c depth = ((utf8EncodeChar c).zipIdx offset).map fun x => (x.2, x.1, depth) := by
  rw [bytesOf, List.zipIdx_eq_map_add (i := offset), List.map_map]
  rfl

theorem bytesOf_of_ascii {c : Char} (ascii : c.toNat < 0x80) (offset : Nat) (depth : Int) :
    bytesOf offset c depth = [(offset, byte c, depth)] := by
  rw [bytesOf_eq, utf8EncodeChar_of_ascii ascii]
  rfl

theorem of_mem_bytesOf {offset : Nat} {c : Char} {depth : Int} {item : Item}
    (h : item ∈ bytesOf offset c depth) : item.2.1 ∈ utf8EncodeChar c ∧ item.2.2 = depth := by
  rw [bytesOf_eq] at h
  obtain ⟨⟨b, i⟩, hmem, rfl⟩ := List.mem_map.1 h
  exact ⟨(List.mem_zipIdx hmem).2.2 ▸ List.getElem_mem _, rfl⟩

/-- What is visited of a character that stands in the open. -/
theorem walkFrom_open {n : Nesting} {c : Char} {depth : Int} (h : n.depthAt? c = some depth)
    (offset : Nat) (s : List Char) :
    Delimited.walkFrom offset n (c :: s)
      = bytesOf offset c depth ++ Delimited.walkFrom (offset + c.utf8Size) (n.step c) s := by
  rw [Delimited.walkFrom, h]

theorem walkFrom_hidden {n : Nesting} {c : Char} (h : n.depthAt? c = none)
    (offset : Nat) (s : List Char) :
    Delimited.walkFrom offset n (c :: s)
      = Delimited.walkFrom (offset + c.utf8Size) (n.step c) s := by
  rw [Delimited.walkFrom, h]
  rfl

/-- A doubled quote closes a section and opens the next one. -/
theorem quote_step_twice {c : Char} (hquote : isQuote c = true) {n : Nesting}
    (hn : n.quote = some c) : ((n.step c).step c).quote = some c := by
  have closed : (n.step c).quote = none := by
    rw [Nesting.quote_step_of_some hn, if_pos rfl]
  rw [Nesting.quote_step_of_none closed, if_pos hquote]

/-- In quotes, nothing is visited. -/
theorem walkFrom_quoted {quote : Char} (hquote : isQuote quote = true) {n : Nesting}
    (hn : n.quote = some quote) (offset : Nat) (s : List Char) :
    Delimited.walkFrom offset n s
      = Delimited.walkFrom (offset + byteLength (s.take (quotedLength quote s)))
          (n.after (s.take (quotedLength quote s))) (s.drop (quotedLength quote s)) := by
  have hidden {m : Nesting} (hm : m.quote = some quote) (c : Char) : m.depthAt? c = none := by
    simp [Nesting.depthAt?, hm]
  fun_induction quotedLength quote s generalizing n offset with
  | case1 => rfl
  | case2 c => rw [walkFrom_hidden (hidden hn c)]; simp
  | case3 c d rest hc ih =>
    have inside : (n.step c).quote = some quote := by
      rw [Nesting.quote_step_of_some hn, if_neg hc]
    rw [walkFrom_hidden (hidden hn c), ih inside, Nat.add_comm 1, List.take_succ_cons,
      Source.byteLength_cons, List.drop_succ_cons, Nesting.after_cons, Nat.add_assoc]
  | case4 c rest hc ih =>
    obtain rfl := Decidable.of_not_not hc
    have between : (n.step c).depthAt? c = none := by simp [Nesting.depthAt?, hquote]
    rw [walkFrom_hidden (hidden hn c), walkFrom_hidden between,
      ih (quote_step_twice hquote hn), Nat.add_comm 2,
      List.take_succ_cons, List.take_succ_cons, Source.byteLength_cons, Source.byteLength_cons,
      List.drop_succ_cons, List.drop_succ_cons, Nesting.after_cons, Nesting.after_cons,
      Nat.add_assoc, Nat.add_assoc]
  | case5 c d rest hc hd =>
    rw [walkFrom_hidden (hidden hn c)]
    simp

theorem at_step_of_some {n : Nesting} {quote : Char} (hn : n.quote = some quote) (pos : Nat)
    (c : Char) : Walker.at pos (n.step c) = .at pos n := by
  unfold Nesting.step
  rw [hn]
  dsimp only
  split_ifs <;> rfl

theorem at_step_of_isQuote (n : Nesting) {c : Char} (hquote : isQuote c = true) (pos : Nat) :
    Walker.at pos (n.step c) = .at pos n := by
  cases hn : n.quote with
  | some quote => exact at_step_of_some hn pos c
  | none =>
    unfold Nesting.step
    rw [hn]
    simp [hquote, Walker.at]

/-- In quotes, parentheses do not count. -/
theorem at_after_quoted {quote : Char} (hquote : isQuote quote = true) {n : Nesting}
    (hn : n.quote = some quote) (pos : Nat) (s : List Char) :
    Walker.at pos (n.after (s.take (quotedLength quote s))) = .at pos n := by
  fun_induction quotedLength quote s generalizing n with
  | case1 => rfl
  | case2 c => exact at_step_of_some hn pos c
  | case3 c d rest hc ih =>
    have inside : (n.step c).quote = some quote := by
      rw [Nesting.quote_step_of_some hn, if_neg hc]
    rw [Nat.add_comm 1, List.take_succ_cons, Nesting.after_cons, ih inside,
      at_step_of_some hn pos]
  | case4 c rest hc ih =>
    obtain rfl := Decidable.of_not_not hc
    rw [Nat.add_comm 2, List.take_succ_cons, List.take_succ_cons, Nesting.after_cons,
      Nesting.after_cons, ih (quote_step_twice hquote hn), at_step_of_isQuote _ hquote,
      at_step_of_some hn]
  | case5 c d rest hc hd => exact at_step_of_some hn pos c

/-- A parenthesis that is passed changes the walk as it changes the nesting. -/
theorem pass_at {n : Nesting} (hn : n.quote = none) {c : Char} (hc : c = '(' ∨ c = ')')
    (pos : Nat) : ∃ depth, n.depthAt? c = some depth ∧
      (Walker.at pos n).pass (byte c) = (.at (pos + 1) (n.step c), depth) := by
  rcases hc with rfl | rfl
  · refine ⟨n.depth, by simp [Nesting.depthAt?, hn, isQuote], ?_⟩
    rw [Nesting.step_open hn, Walker.pass, if_pos rfl]
    rfl
  · refine ⟨n.depth - 1, by simp [Nesting.depthAt?, hn, isQuote], ?_⟩
    have below : decide (n.depth - 1 < 0) = decide (n.depth ≤ 0) := by
      rw [decide_eq_decide]
      omega
    rw [Walker.pass, if_neg (by decide), if_pos rfl, Walker.at, below]
    unfold Nesting.step
    rw [hn]
    rfl

/-- A quoted section is passed over as a whole. -/
theorem walkFrom_section {c : Char} (hquote : isQuote c = true) (a t : List Char) (n : Nesting) :
    walkFrom (bytes (a ++ c :: t)) (.at (byteLength a) n)
      = walkFrom (bytes (a ++ c :: t))
          (.at (byteLength (a ++ c :: t.take (quotedLength c t))) n) := by
  have ascii := ascii_of_isQuote hquote
  obtain ⟨b, hb, read⟩ := exists_get_bytes a c t
  obtain rfl : b = byte c := (eq_byte_iff ascii hb).2 rfl
  have stop := quotedFrom_bytes ascii a t
  rw [quotedFrom, read, ok_bind, ← byteLength_append] at stop
  exact walkFrom_quote (get_eq_ok.1 read) (by rw [tells_quote c _ hb, hquote]) stop

/-- A character outside quotes is visited at its depth, byte by byte. -/
theorem walkFrom_char {n : Nesting} (hn : n.quote = none) {c : Char} (outside : isQuote c = false)
    (a t : List Char) : ∃ depth, n.depthAt? c = some depth ∧
      walkFrom (bytes (a ++ c :: t)) (.at (byteLength a) n)
        = (fun visited => (bytesOf (byteLength a) c depth ++ visited.1, visited.2)) <$>
          walkFrom (bytes (a ++ c :: t)) (.at (byteLength (a ++ [c])) (n.step c)) := by
  by_cases paren : c = '(' ∨ c = ')'
  · have ascii : c.toNat < 0x80 := by rcases paren with rfl | rfl <;> decide
    obtain ⟨b, hb, read⟩ := exists_get_bytes a c t
    obtain rfl : b = byte c := (eq_byte_iff ascii hb).2 rfl
    obtain ⟨depth, hdepth, passed⟩ := pass_at hn paren (byteLength a)
    refine ⟨depth, hdepth, ?_⟩
    rw [walkFrom_pass (get_eq_ok.1 read) (by rw [tells_quote c _ hb, outside]), passed,
      bytesOf_of_ascii ascii, byteLength_concat, utf8Size_of_ascii ascii]
    rfl
  · obtain ⟨noOpen, noClose⟩ := not_or.1 paren
    have plain : ∀ b ∈ utf8EncodeChar c, isQuoteByte b = false ∧ b ≠ byte '(' ∧ b ≠ byte ')' :=
      fun b hb => ⟨by rw [tells_quote c b hb, outside],
        mt (eq_byte_iff (by decide) hb).1 noOpen, mt (eq_byte_iff (by decide) hb).1 noClose⟩
    have passed := walkFrom_plain plain (bytes a) (bytes t) n
    rw [← bytes_cons, ← bytes_append, length_bytes, String.length_utf8EncodeChar] at passed
    refine ⟨n.depth, by simp [Nesting.depthAt?, hn, outside, noClose], ?_⟩
    rw [passed, bytesOf_eq, byteLength_concat, Nesting.step_of_plain hn outside noOpen noClose]

/-- The walk from an offset between two characters visits what is visited character by
character. -/
theorem walkFrom_append (a t : List Char) {n : Nesting} (hn : t ≠ [] → n.quote = none) :
    walkFrom (bytes (a ++ t)) (.at (byteLength a) n)
      = .ok (Delimited.walkFrom (byteLength a) n t,
          .at (byteLength (a ++ t)) (n.after t)) := by
  induction left : t.length using Nat.strongRecOn generalizing a t n with
  | ind k ih =>
    subst left
    cases t with
    | nil =>
      rw [List.append_nil]
      exact walkFrom_all (length_bytes a).symm
    | cons c t =>
      have code : n.quote = none := hn (List.cons_ne_nil c t)
      by_cases hquote : isQuote c = true
      · have opened : (n.step c).quote = some c := by
          rw [Nesting.quote_step_of_none code, if_pos hquote]
        have hidden : n.depthAt? c = none := by simp [Nesting.depthAt?, hquote]
        have behind := ih (t.drop (quotedLength c t)).length
          (by rw [List.length_drop, List.length_cons]; omega)
          (a ++ c :: t.take (quotedLength c t)) _
          (Source.quote_after_quotedLength hquote opened) rfl
        -- the section leaves the nesting as it was, but for its own quote
        rw [at_after_quoted hquote opened, at_step_of_isQuote n hquote, List.append_assoc,
          List.cons_append, List.take_append_drop, ← Nesting.after_append,
          List.take_append_drop] at behind
        rw [walkFrom_section hquote, behind, walkFrom_hidden hidden,
          walkFrom_quoted hquote opened, Nat.add_assoc, ← Source.byteLength_cons,
          ← byteLength_append]
        rfl
      · have outside : isQuote c = false := eq_false_of_ne_true hquote
        obtain ⟨depth, hdepth, passed⟩ := walkFrom_char code outside a t
        have behind := ih t.length (Nat.lt_succ_self _) (a ++ [c]) t (n := n.step c)
          (fun _ => by rw [Nesting.quote_step_of_none code, if_neg hquote]) rfl
        rw [List.append_assoc, List.singleton_append] at behind
        rw [passed, behind, walkFrom_open hdepth, byteLength_concat]
        rfl

/-- **The walk over bytes** visits what is visited character by character. -/
theorem walk_eq (s : List Char) : walk s = .ok (Delimited.walkFrom 0 .start s,
    .at (byteLength s) (Nesting.start.after s)) :=
  walkFrom_append [] s (n := .start) fun _ => rfl

end StoredRoutine.Bytewise
