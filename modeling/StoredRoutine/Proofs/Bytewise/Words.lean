import StoredRoutine.Proofs.Bytewise.Text
import StoredRoutine.Proofs.Source.Words

/-!
# Words by their bytes

Words are found in a loop over bytes, which stops where a quote or a part of a word begins and
looks for its end. The words are those found character by character, each with the offset of its
first byte (`words_eq`).
-/

namespace StoredRoutine.Bytewise

open Source (byteLength byteLength_append)
open Text (isQuote isWordChar quotedLength quotedLength_le)
open String (utf8EncodeChar)

/-! ## Ends -/

/-- The offset behind the quoted section that the offset `i` is inside of. A doubled quote does
not end it; one that is not closed runs to the end of the text. -/
def quotedEnd (bs : List UInt8) (quote : UInt8) (i : Nat) : Checked Nat :=
  if _h : i < bs.length then do
    if (← get bs i) = quote then
      if bs[i + 1]? = some quote then quotedEnd bs quote (i + 2) else return i + 1
    else quotedEnd bs quote (i + 1)
  else return bs.length
termination_by bs.length - i

/-- The offset behind the part of a word that the offset `i` is inside of. -/
def wordEnd (bs : List UInt8) (i : Nat) : Checked Nat :=
  if _h : i < bs.length then do
    if isWordByte (← get bs i) then wordEnd bs (i + 1) else return i
  else return i
termination_by bs.length - i

theorem le_of_quotedEnd {bs : List UInt8} {quote : UInt8} {i stop : Nat} (le : i ≤ bs.length)
    (h : quotedEnd bs quote i = .ok stop) : i ≤ stop := by
  induction left : bs.length - i using Nat.strongRecOn generalizing i with
  | ind n ih =>
    rw [quotedEnd] at h
    split at h
    · next inside =>
      obtain ⟨b, -, h⟩ := bind_eq_ok.1 h
      split at h
      · split at h
        · next next =>
          have := (List.getElem?_eq_some_iff.1 next).1
          have := ih _ (by omega) (by omega) h rfl
          omega
        · exact Except.ok.inj h ▸ Nat.le_succ i
      · have := ih _ (by omega) (by omega) h rfl
        omega
    · exact Except.ok.inj h ▸ le

theorem le_of_wordEnd {bs : List UInt8} {i stop : Nat} (h : wordEnd bs i = .ok stop) :
    i ≤ stop := by
  induction left : bs.length - i using Nat.strongRecOn generalizing i with
  | ind n ih =>
    rw [wordEnd] at h
    split at h
    · obtain ⟨b, -, h⟩ := bind_eq_ok.1 h
      split at h
      · have := ih _ (by omega) h rfl
        omega
      · exact Except.ok.inj h ▸ Nat.le_refl i
    · exact Except.ok.inj h ▸ Nat.le_refl i

theorem lt_of_wordEnd {bs : List UInt8} {b : UInt8} {i stop : Nat} (inside : i < bs.length)
    (read : get bs i = .ok b) (word : isWordByte b = true) (h : wordEnd bs i = .ok stop) :
    i < stop := by
  rw [wordEnd, dif_pos inside, read, ok_bind, if_pos word] at h
  exact le_of_wordEnd h

/-- A loop over bytes that passes over each of some bytes passes over all of them. -/
theorem pass_over {α : Type} (loop : Nat → α) {passed : UInt8 → Prop} (bs : List UInt8)
    (each : ∀ front b back, bs = front ++ b :: back → passed b →
      loop front.length = loop (front.length + 1))
    {mid : List UInt8} (all : ∀ b ∈ mid, passed b) (front back : List UInt8)
    (h : bs = front ++ (mid ++ back)) : loop front.length = loop (front ++ mid).length := by
  induction mid generalizing front with
  | nil => simp
  | cons b mid ih =>
    obtain ⟨first, others⟩ := List.forall_mem_cons.1 all
    have rest := ih others (front ++ [b]) (by simp [h])
    rw [each front b (mid ++ back) h first]
    simpa using rest

/-! ## Quoted sections -/

theorem quotedEnd_all (bs : List UInt8) (quote : UInt8) :
    quotedEnd bs quote bs.length = .ok bs.length := by
  rw [quotedEnd, dif_neg (Nat.lt_irrefl _), pure_eq_ok]

theorem quotedEnd_quote (front back : List UInt8) (quote : UInt8) :
    quotedEnd (front ++ quote :: back) quote front.length
      = if back.head? = some quote then
          quotedEnd (front ++ quote :: back) quote (front.length + 2)
        else .ok (front.length + 1) := by
  have next : (front ++ quote :: back)[front.length + 1]? = back.head? := by
    rw [List.getElem?_append_right (by omega)]
    simp [List.head?_eq_getElem?]
  rw [quotedEnd, dif_pos (by simp), get_append, ok_bind, if_pos rfl, next, pure_eq_ok]

/-- The bytes of a character that is not the quote are passed over. -/
theorem quotedEnd_pass {quote c : Char} (ascii : quote.toNat < 0x80) (other : c ≠ quote)
    (front back : List UInt8) :
    quotedEnd (front ++ (utf8EncodeChar c ++ back)) (byte quote) front.length
      = quotedEnd (front ++ (utf8EncodeChar c ++ back)) (byte quote)
          (front ++ utf8EncodeChar c).length := by
  have all : ∀ b ∈ utf8EncodeChar c, b ≠ byte quote := fun b hb =>
    mt (eq_byte_iff ascii hb).1 other
  refine pass_over (quotedEnd _ _) _ (fun front b back split first => ?_) all front back rfl
  rw [split, quotedEnd, dif_pos (by simp), get_append, ok_bind, if_neg first]

/-- The end of a quoted section is found where it is found character by character. -/
theorem quotedEnd_bytes {quote : Char} (ascii : quote.toNat < 0x80) (front : List UInt8)
    (s : List Char) :
    quotedEnd (front ++ bytes s) (byte quote) front.length
      = .ok (front.length + byteLength (s.take (quotedLength quote s))) := by
  have single := utf8EncodeChar_of_ascii ascii
  have size := utf8Size_of_ascii ascii
  fun_induction quotedLength quote s generalizing front with
  | case1 => simp [quotedEnd_all]
  | case2 c =>
    by_cases h : c = quote
    · rw [h, bytes_cons, single, bytes_nil, List.append_nil, quotedEnd_quote, if_neg (by simp)]
      simp [size]
    · have passed := quotedEnd_pass ascii h front []
      rw [List.append_nil] at passed
      rw [bytes_cons, bytes_nil, List.append_nil, passed, quotedEnd_all]
      simp
  | case3 c d rest hc ih =>
    rw [bytes_cons, quotedEnd_pass ascii hc, ← List.append_assoc, ih, Nat.add_comm 1,
      List.take_succ_cons, Source.byteLength_cons]
    simp [Nat.add_assoc]
  | case4 c rest hc ih =>
    obtain rfl := Decidable.of_not_not hc
    have twice := quotedEnd_quote front (byte c :: bytes rest) (byte c)
    rw [List.head?_cons, if_pos rfl] at twice
    have rest := ih (front ++ [byte c, byte c])
    simp only [List.append_assoc, List.cons_append, List.nil_append, List.length_append,
      List.length_cons, List.length_nil] at rest
    rw [bytes_cons, bytes_cons, single, List.singleton_append, List.singleton_append, twice, rest,
      Nat.add_comm 2, List.take_succ_cons, List.take_succ_cons, Source.byteLength_cons,
      Source.byteLength_cons, size]
    congr 1
    omega
  | case5 c d rest hc hd =>
    obtain rfl := Decidable.of_not_not hc
    obtain ⟨b, others, split, hb⟩ := exists_bytes_eq_cons d rest
    rw [bytes_cons, single, List.singleton_append, quotedEnd_quote, split, List.head?_cons,
      if_neg fun h => hd ((eq_byte_iff ascii hb).1 (Option.some.inj h))]
    simp [size]

/-! ## Words -/

/-- The end of a part of a word is found where it is found character by character. -/
theorem wordEnd_bytes (front : List UInt8) (s : List Char) :
    wordEnd (front ++ bytes s) front.length
      = .ok (front.length + byteLength (s.takeWhile isWordChar)) := by
  induction s generalizing front with
  | nil =>
    rw [bytes_nil, List.append_nil, wordEnd, dif_neg (Nat.lt_irrefl _)]
    rfl
  | cons c s ih =>
    by_cases word : isWordChar c = true
    · have all : ∀ b ∈ utf8EncodeChar c, isWordByte b = true := fun b hb => by
        rw [tells_word c b hb, word]
      have passed := pass_over (wordEnd (front ++ (utf8EncodeChar c ++ bytes s))) _
        (fun front' b back split first => by
          rw [split, wordEnd, dif_pos (by simp), get_append, ok_bind, if_pos first])
        all front (bytes s) rfl
      rw [bytes_cons, passed, ← List.append_assoc, ih, List.takeWhile_cons_of_pos word,
        Source.byteLength_cons]
      simp [Nat.add_assoc]
    · obtain ⟨b, others, split, hb⟩ := exists_bytes_eq_cons c s
      have stops : isWordByte b = false := by rw [tells_word c b hb]; simpa using word
      rw [split, wordEnd, dif_pos (by simp), get_append, ok_bind, if_neg (by simp [stops]),
        List.takeWhile_cons_of_neg word]
      rfl

/-- Goes on with a result, and with the fact that it is the result. -/
def follow {α β : Type} (x : Checked α) (f : (a : α) → x = .ok a → Checked β) : Checked β :=
  match x with
  | .ok a => f a rfl
  | .error e => .error e

theorem follow_eq {α β : Type} {x : Checked α} {a : α} (h : x = .ok a)
    (f : (a : α) → x = .ok a → Checked β) : follow x f = f a h := by
  subst h
  rfl

/-- The offset behind the quoted section that begins at `start`. -/
def quotedFrom (bs : List UInt8) (start : Nat) : Checked Nat := do
  let quote ← get bs start
  quotedEnd bs quote (start + 1)

theorem lt_of_quotedFrom {bs : List UInt8} {start stop : Nat}
    (h : quotedFrom bs start = .ok stop) : start < stop := by
  obtain ⟨quote, read, h⟩ := bind_eq_ok.1 h
  have inside : start < bs.length := by
    rw [get] at read
    split at read
    · next x found => exact (List.getElem?_eq_some_iff.1 found).1
    · cases read
  exact le_of_quotedEnd inside h

/-- The words of the text from the offset `i` on, each with its offset. -/
def wordsFrom (s : List Char) (i : Nat) : Checked (List (Nat × List Char)) :=
  if inside : i < (bytes s).length then
    follow (get (bytes s) i) fun b read =>
      if isQuoteByte b then
        follow (quotedFrom (bytes s) i) fun stop _found => do
          if b = byte '"' then
            let word ← slice s i stop
            return (i, word) :: (← wordsFrom s stop)
          else wordsFrom s stop
      else if word : isWordByte b = true then
        follow (wordEnd (bytes s) i) fun stop _found => do
          let word ← slice s i stop
          return (i, word) :: (← wordsFrom s stop)
      else wordsFrom s (i + 1)
  else return []
termination_by (bytes s).length - i
decreasing_by
  · have := lt_of_quotedFrom _found
    omega
  · have := lt_of_quotedFrom _found
    omega
  · have := lt_of_wordEnd inside read word _found
    omega
  · omega

/-- The words of a text, each with the offset of its first byte. -/
def words (s : List Char) : Checked (List (Nat × List Char)) := wordsFrom s 0

/-- The quoted section that begins behind `a` ends where it ends character by character. -/
theorem quotedFrom_bytes {quote : Char} (ascii : quote.toNat < 0x80) (a s : List Char) :
    quotedFrom (bytes (a ++ quote :: s)) (byteLength a)
      = .ok (byteLength a + byteLength (quote :: s.take (quotedLength quote s))) := by
  have single := utf8EncodeChar_of_ascii ascii
  have split : bytes (a ++ quote :: s) = bytes (a ++ [quote]) ++ bytes s := by
    rw [← bytes_append, List.append_assoc, List.singleton_append]
  have read : get (bytes (a ++ quote :: s)) (byteLength a) = .ok (byte quote) := by
    obtain ⟨b, hb, read⟩ := exists_get_bytes a quote s
    rwa [(eq_byte_iff ascii hb).2 rfl] at read
  have stop := quotedEnd_bytes ascii (bytes (a ++ [quote])) s
  rw [length_bytes, byteLength_concat, utf8Size_of_ascii ascii] at stop
  rw [quotedFrom, read, ok_bind, split, stop, Source.byteLength_cons, utf8Size_of_ascii ascii,
    Nat.add_assoc]

/-- A word with the offset of its first byte in place of the number of characters before it. -/
def located (s : List Char) (word : Nat × List Char) : Nat × List Char :=
  (Delimited.offsetOf s word.1, word.2)

theorem located_length (a s word : List Char) :
    located (a ++ s) (a.length, word) = (byteLength a, word) := by
  rw [located, Delimited.offsetOf, List.take_left]

/-- What stands behind `a` is cut out. -/
theorem slice_behind (a front back : List Char) :
    slice (a ++ (front ++ back)) (byteLength a) (byteLength (a ++ front)) = .ok front := by
  rw [← List.append_assoc, byteLength_append]
  exact slice_append a front back

theorem lt_length_bytes (a : List Char) (c : Char) (t : List Char) :
    byteLength a < (bytes (a ++ c :: t)).length := by
  have positive := c.utf8Size_pos
  rw [length_bytes, byteLength_append, Source.byteLength_cons]
  omega

/-- A quoted section is passed over as a whole, and is a word if it is an identifier. -/
theorem wordsFrom_section {c : Char} (hquote : isQuote c = true) (a t : List Char) :
    wordsFrom (a ++ c :: t) (byteLength a)
      = (fun found => if c = '"' then (byteLength a, c :: t.take (quotedLength c t)) :: found
          else found) <$>
        wordsFrom (a ++ c :: t) (byteLength (a ++ c :: t.take (quotedLength c t))) := by
  obtain ⟨b, hb, read⟩ := exists_get_bytes a c t
  have stop := quotedFrom_bytes (ascii_of_isQuote hquote) a t
  rw [← byteLength_append] at stop
  have here := slice_behind a (c :: t.take (quotedLength c t)) (t.drop (quotedLength c t))
  rw [List.cons_append, List.take_append_drop] at here
  rw [wordsFrom, dif_pos (lt_length_bytes a c t), follow_eq read,
    if_pos (by rw [tells_quote c b hb, hquote]), follow_eq stop]
  by_cases double : c = '"'
  · simp only [if_pos double, if_pos ((eq_byte_iff (d := '"') (by decide) hb).2 double), here,
      ok_bind]
    rfl
  · simp only [if_neg double, if_neg (mt (eq_byte_iff (d := '"') (by decide) hb).1 double)]
    exact (id_map _).symm

/-- A run of word characters is a word. -/
theorem wordsFrom_run {c : Char} (hword : isWordChar c = true) (a t : List Char) :
    wordsFrom (a ++ c :: t) (byteLength a)
      = (fun found => (byteLength a, c :: t.takeWhile isWordChar) :: found) <$>
        wordsFrom (a ++ c :: t) (byteLength (a ++ c :: t.takeWhile isWordChar)) := by
  obtain ⟨b, hb, read⟩ := exists_get_bytes a c t
  have outside : isQuoteByte b = false := by
    rw [tells_quote c b hb, Text.isQuote_of_isWordChar hword]
  have stop := wordEnd_bytes (bytes a) (c :: t)
  rw [← bytes_append, length_bytes, List.takeWhile_cons_of_pos hword, ← byteLength_append] at stop
  have here := slice_behind a (c :: t.takeWhile isWordChar) (t.dropWhile isWordChar)
  rw [List.cons_append, List.takeWhile_append_dropWhile] at here
  rw [wordsFrom, dif_pos (lt_length_bytes a c t), follow_eq read,
    if_neg (by rw [outside]; decide), dif_pos (by rw [tells_word c b hb, hword]), follow_eq stop,
    here, ok_bind]
  rfl

/-- Any other character is one byte, which is passed over. -/
theorem wordsFrom_other {c : Char} (outside : isQuote c = false) (plain : isWordChar c = false)
    (a t : List Char) :
    wordsFrom (a ++ c :: t) (byteLength a) = wordsFrom (a ++ c :: t) (byteLength (a ++ [c])) := by
  obtain ⟨b, hb, read⟩ := exists_get_bytes a c t
  have ascii : c.toNat < 0x80 := Nat.lt_of_not_le fun beyond => by
    simp [isWordChar, beyond] at plain
  rw [wordsFrom, dif_pos (lt_length_bytes a c t), follow_eq read,
    if_neg (by rw [tells_quote c b hb, outside]; decide),
    dif_neg (by rw [tells_word c b hb, plain]; decide), byteLength_concat,
    utf8Size_of_ascii ascii]

/-- The words from an offset between two characters on are those that are found character by
character. -/
theorem wordsFrom_append (a t : List Char) :
    wordsFrom (a ++ t) (byteLength a)
      = .ok ((Text.wordsFrom a.length t).map (located (a ++ t))) := by
  induction left : t.length using Nat.strongRecOn generalizing a t with
  | ind n ih =>
    subst left
    cases t with
    | nil =>
      rw [wordsFrom, dif_neg (by simp), Text.wordsFrom_nil]
      rfl
    | cons c t =>
      -- the words behind what is passed over
      have others {front back : List Char} (split : t = front ++ back) :
          wordsFrom (a ++ c :: t) (byteLength (a ++ c :: front))
            = .ok ((Text.wordsFrom (a.length + (front.length + 1)) back).map
                (located (a ++ c :: t))) := by
        have behind := ih back.length (by rw [split, List.length_cons, List.length_append]; omega)
          (a ++ c :: front) back rfl
        rwa [List.append_assoc, List.cons_append, ← split, List.length_append,
          List.length_cons] at behind
      by_cases hquote : isQuote c = true
      · have size : (t.take (quotedLength c t)).length = quotedLength c t :=
          List.length_take_of_le (quotedLength_le c t)
        rw [wordsFrom_section hquote, others (List.take_append_drop _ t).symm, map_ok, size]
        by_cases double : c = '"'
        · subst double
          rw [if_pos rfl, Text.wordsFrom_quoted, List.map_cons, located_length]
        · rw [if_neg double, Text.wordsFrom_literal hquote double]
      · have outside : isQuote c = false := eq_false_of_ne_true hquote
        by_cases hword : isWordChar c = true
        · rw [wordsFrom_run hword, others List.takeWhile_append_dropWhile.symm, map_ok,
            Text.wordsFrom_run hword, List.map_cons, located_length]
        · have plain : isWordChar c = false := eq_false_of_ne_true hword
          rw [wordsFrom_other outside plain, others (List.nil_append t).symm,
            Text.wordsFrom_cons outside plain]
          rfl

/-- The words of a text are those that are found character by character. -/
theorem words_eq (s : List Char) : words s = .ok ((Text.words s).map (located s)) :=
  wordsFrom_append [] s

end StoredRoutine.Bytewise
