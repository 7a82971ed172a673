import StoredRoutine.Delimited
import StoredRoutine.Text.Word

/-!
# Texts by their bytes

A text in UTF-8 is read by byte offsets, and not every offset may be used: an index has to be
below the number of bytes, and the two ends of a slice have to stand in order, within the text,
and not inside of a character. Everything that reads a text this way is written in `Checked`,
where an access that breaks a rule is a `Fault`.

A loop over bytes sees every byte of a character that takes several. It need not tell such
characters apart as long as its tests do not: all their bytes are `0x80` or more, so that they are
neither quotes nor punctuation, and count as parts of words (`Tells`).
-/

namespace StoredRoutine.Bytewise

open Source (byteLength byteLength_append)
open Delimited (indexOf? offsetOf)
open String (utf8EncodeChar)

/-! ## Accesses that can fail -/

/-- An access that breaks a rule. -/
inductive Fault where
  /-- an index that is not below the number of elements -/
  | index (i size : Nat)
  /-- a slice whose ends are not in order, or one of them not between two characters -/
  | slice (start stop : Nat)
  deriving DecidableEq, Repr

/-- Something that is computed unless an access breaks a rule. -/
abbrev Checked := Except Fault

@[simp]
theorem ok_bind {α β : Type} (a : α) (f : α → Checked β) : (Except.ok a : Checked α) >>= f = f a :=
  rfl

@[simp]
theorem pure_eq_ok {α : Type} (a : α) : (pure a : Checked α) = .ok a := rfl

@[simp]
theorem map_ok {α β : Type} (f : α → β) (a : α) : f <$> (Except.ok a : Checked α) = .ok (f a) := rfl

/-- The element at an index. -/
def get {α : Type} (xs : List α) (i : Nat) : Checked α :=
  match xs[i]? with
  | some x => .ok x
  | none => .error (.index i xs.length)

/-- The text from one byte offset up to another. -/
def slice (s : List Char) (start stop : Nat) : Checked (List Char) :=
  match indexOf? s start, indexOf? s stop with
  | some i, some j => if i ≤ j then .ok ((s.take j).drop i) else .error (.slice start stop)
  | _, _ => .error (.slice start stop)

/-- The text from a byte offset on. -/
def sliceFrom (s : List Char) (start : Nat) : Checked (List Char) := slice s start (byteLength s)

/-- The text up to a byte offset. -/
def sliceTo (s : List Char) (stop : Nat) : Checked (List Char) := slice s 0 stop

/-- The text from one byte offset up to another, if there is such a slice. -/
def slice? (s : List Char) (start stop : Nat) : Option (List Char) := (slice s start stop).toOption

theorem get_eq_ok {α : Type} {xs : List α} {i : Nat} {x : α} :
    get xs i = .ok x ↔ xs[i]? = some x := by
  rw [get]
  cases xs[i]? <;> simp

theorem get_append {α : Type} (front : List α) (x : α) (back : List α) :
    get (front ++ x :: back) front.length = .ok x := by
  simp [get]

/-! ## Offsets between characters -/

theorem byteLength_concat (s : List Char) (c : Char) :
    byteLength (s ++ [c]) = byteLength s + c.utf8Size := by
  rw [byteLength_append, Source.byteLength_cons, Source.byteLength_nil, Nat.add_zero]

theorem indexOf?_append (a b : List Char) : indexOf? (a ++ b) (byteLength a) = some a.length := by
  induction a with
  | nil => rw [Source.byteLength_nil, indexOf?, List.length_nil]
  | cons c a ih =>
    have positive := c.utf8Size_pos
    obtain ⟨n, hn⟩ : ∃ n, byteLength (c :: a) = n + 1 :=
      ⟨byteLength (c :: a) - 1, by rw [Source.byteLength_cons]; omega⟩
    have rest : n + 1 - c.utf8Size = byteLength a := by
      rw [← hn, Source.byteLength_cons, Nat.add_sub_cancel_left]
    have fits : c.utf8Size ≤ n + 1 := by rw [← hn, Source.byteLength_cons]; omega
    rw [hn, List.cons_append, indexOf?, if_pos fits, rest, ih, Option.map_some, List.length_cons]

/-- One offset cuts a text in one way. -/
theorem append_inj_of_byteLength {a b a' b' : List Char} (h : a ++ b = a' ++ b')
    (length : byteLength a = byteLength a') : a = a' ∧ b = b' := by
  have first := indexOf?_append a b
  have second := indexOf?_append a' b'
  rw [h, length, second] at first
  exact List.append_inj h (Option.some.inj first).symm

/-- Offsets between characters are those that a part of the text from its beginning ends at. -/
theorem indexOf?_eq_some {s : List Char} {n i : Nat} (h : indexOf? s n = some i) :
    i ≤ s.length ∧ byteLength (s.take i) = n := by
  fun_induction indexOf? s n generalizing i with
  | case1 s =>
    cases h
    simp
  | case2 => cases h
  | case3 n c rest fits ih =>
    obtain ⟨j, hj, rfl⟩ := Option.map_eq_some_iff.1 h
    obtain ⟨le, size⟩ := ih hj
    rw [List.take_succ_cons, Source.byteLength_cons, size, List.length_cons]
    omega
  | case4 => cases h

/-- An offset inside of a character is not between two. -/
theorem indexOf?_inside (a : List Char) (c : Char) (b : List Char) {k : Nat} (positive : 0 < k)
    (inside : k < c.utf8Size) : indexOf? (a ++ c :: b) (byteLength a + k) = none := by
  cases found : indexOf? (a ++ c :: b) (byteLength a + k) with
  | none => rfl
  | some i =>
    obtain ⟨-, size⟩ := indexOf?_eq_some found
    rw [List.take_append, byteLength_append] at size
    by_cases before : i ≤ a.length
    · have front := byteLength_append (a.take i) (a.drop i)
      rw [List.take_append_drop] at front
      rw [Nat.sub_eq_zero_of_le before, List.take_zero, Source.byteLength_nil] at size
      omega
    · obtain ⟨j, hj⟩ : ∃ j, i - a.length = j + 1 := ⟨i - a.length - 1, by omega⟩
      rw [List.take_of_length_le (by omega), hj, List.take_succ_cons, Source.byteLength_cons]
        at size
      omega

/-! ## Bytes -/

/-- The bytes of a text. -/
def bytes (s : List Char) : List UInt8 := s.flatMap utf8EncodeChar

@[simp]
theorem bytes_nil : bytes [] = [] := rfl

@[simp]
theorem bytes_cons (c : Char) (s : List Char) : bytes (c :: s) = utf8EncodeChar c ++ bytes s := rfl

theorem bytes_append (s t : List Char) : bytes (s ++ t) = bytes s ++ bytes t :=
  List.flatMap_append

@[simp]
theorem length_bytes (s : List Char) : (bytes s).length = byteLength s := by
  induction s with
  | nil => rfl
  | cons c s ih => simp [ih]

/-! ## Slices -/

theorem slice_append (a b c : List Char) :
    slice (a ++ b ++ c) (byteLength a) (byteLength a + byteLength b) = .ok b := by
  have start : indexOf? (a ++ b ++ c) (byteLength a) = some a.length := by
    rw [List.append_assoc]
    exact indexOf?_append a _
  have stop : indexOf? (a ++ b ++ c) (byteLength a + byteLength b) = some (a ++ b).length := by
    rw [← byteLength_append]
    exact indexOf?_append _ c
  have inside : ((a ++ b ++ c).take (a ++ b).length).drop a.length = b := by
    rw [List.take_left, List.drop_left]
  have order : a.length ≤ (a ++ b).length := by simp
  rw [slice, start, stop]
  simp only [if_pos order, inside]

/-- There is a slice only if it is a part of the text between the two offsets. -/
theorem exists_of_slice {s t : List Char} {start stop : Nat} (h : slice s start stop = .ok t) :
    ∃ a b, s = a ++ t ++ b ∧ byteLength a = start ∧ byteLength a + byteLength t = stop := by
  rw [slice] at h
  split at h
  · next i j hi hj =>
    split at h
    · next le =>
      cases h
      obtain ⟨-, first⟩ := indexOf?_eq_some hi
      obtain ⟨-, second⟩ := indexOf?_eq_some hj
      have front := List.take_append_drop i (s.take j)
      rw [List.take_take, Nat.min_eq_left le] at front
      refine ⟨s.take i, s.drop j, ?_, first, ?_⟩
      · rw [front, List.take_append_drop]
      · rw [← byteLength_append, front, second]
    · cases h
  · cases h

theorem sliceFrom_append (a b : List Char) : sliceFrom (a ++ b) (byteLength a) = .ok b := by
  have whole := slice_append a b []
  rwa [List.append_nil, ← byteLength_append] at whole

theorem sliceTo_append (a b : List Char) : sliceTo (a ++ b) (byteLength a) = .ok a := by
  have whole := slice_append [] a b
  rwa [List.nil_append, Source.byteLength_nil, Nat.zero_add] at whole

/-! ## Slices at characters -/

theorem sliceTo_offsetOf (s : List Char) (i : Nat) : sliceTo s (offsetOf s i) = .ok (s.take i) := by
  have whole := sliceTo_append (s.take i) (s.drop i)
  rwa [List.take_append_drop] at whole

theorem sliceFrom_offsetOf (s : List Char) (i : Nat) :
    sliceFrom s (offsetOf s i) = .ok (s.drop i) := by
  have whole := sliceFrom_append (s.take i) (s.drop i)
  rwa [List.take_append_drop] at whole

theorem offsetOf_add (s : List Char) (i k : Nat) :
    offsetOf s (i + k) = offsetOf s i + byteLength ((s.drop i).take k) := by
  rw [offsetOf, List.take_add, byteLength_append]
  rfl

/-- Places behind the first of some characters are counted from the second on. -/
theorem offsetOf_comp_succ (s : List Char) (k : Nat) :
    (fun i => offsetOf s (k + i)) ∘ (· + 1) = fun i => offsetOf s (k + 1 + i) := by
  funext i
  rw [Function.comp_apply, Nat.add_assoc, Nat.add_comm 1]

theorem offsetOf_le (s : List Char) {i j : Nat} (h : i ≤ j) : offsetOf s i ≤ offsetOf s j := by
  obtain ⟨k, rfl⟩ := Nat.exists_eq_add_of_le h
  rw [offsetOf_add]
  exact Nat.le_add_right _ _

theorem offsetOf_lt {s : List Char} {i j : Nat} (hi : i < s.length) (h : i < j) :
    offsetOf s i < offsetOf s j := by
  obtain ⟨k, rfl⟩ := Nat.exists_eq_add_of_lt h
  obtain ⟨c, rest, hrest⟩ := List.exists_cons_of_length_pos (l := s.drop i) (by simp; omega)
  have positive := c.utf8Size_pos
  rw [Nat.add_assoc, offsetOf_add, hrest, List.take_succ_cons, Source.byteLength_cons]
  omega

/-- Offsets are in the order of the places. -/
theorem offsetOf_lt_iff {s : List Char} {i j : Nat} (hi : i < s.length) :
    offsetOf s i < offsetOf s j ↔ i < j :=
  ⟨fun h => Nat.lt_of_not_le fun le => Nat.not_lt_of_le (offsetOf_le s le) h, offsetOf_lt hi⟩

/-! ## Bytes of a character -/

/-- The only byte of a character of ASCII. -/
def byte (c : Char) : UInt8 := UInt8.ofNat c.toNat

theorem utf8EncodeChar_of_ascii {c : Char} (h : c.toNat < 0x80) : utf8EncodeChar c = [byte c] := by
  have small : c.val.toNat ≤ 0x7f := Nat.le_of_lt_succ h
  rw [utf8EncodeChar, if_pos small]
  rfl

theorem le_of_mem_utf8EncodeChar {c : Char} (h : 0x80 ≤ c.toNat) {b : UInt8}
    (hb : b ∈ utf8EncodeChar c) : 0x80 ≤ b.toNat := by
  have large : ¬ c.val.toNat ≤ 0x7f := Nat.not_le_of_lt h
  have high (n m : Nat) (hm : 0x80 ≤ m) (hnm : n + m < 256) :
      0x80 ≤ (UInt8.ofNat (n + m)).toNat := by
    rw [UInt8.toNat_ofNat_of_lt' hnm]
    omega
  simp only [utf8EncodeChar, large, ↓reduceIte] at hb
  split at hb
  · simp only [List.mem_cons, List.not_mem_nil, or_false] at hb
    rcases hb with rfl | rfl <;> exact high _ _ (by omega) (by omega)
  · split at hb
    · simp only [List.mem_cons, List.not_mem_nil, or_false] at hb
      rcases hb with rfl | rfl | rfl <;> exact high _ _ (by omega) (by omega)
    · simp only [List.mem_cons, List.not_mem_nil, or_false] at hb
      rcases hb with rfl | rfl | rfl | rfl <;> exact high _ _ (by omega) (by omega)

/-- The test of bytes says of every byte of a character what the test of characters says of the
character. -/
def Tells (test : UInt8 → Bool) (meaning : Char → Bool) : Prop :=
  ∀ c, ∀ b ∈ utf8EncodeChar c, test b = meaning c

/-- Is it a byte of an unquoted identifier? -/
def isWordByte (b : UInt8) : Bool :=
  (byte '0' ≤ b && b ≤ byte '9') || (byte 'A' ≤ b && b ≤ byte 'Z') ||
    (byte 'a' ≤ b && b ≤ byte 'z') || b == byte '_' || b == byte '$' || b == byte '#' ||
    0x80 ≤ b

/-- Is it one of the two quotes? -/
def isQuoteByte (b : UInt8) : Bool := b == byte '\'' || b == byte '"'

/-- A test that agrees on ASCII, and says one thing of all bytes and characters beyond. -/
theorem tells_of {test : UInt8 → Bool} {meaning : Char → Bool} (beyond : Bool)
    (ascii : ∀ n < 0x80, test (UInt8.ofNat n) = meaning (Char.ofNat n))
    (test_beyond : ∀ b : UInt8, 0x80 ≤ b.toNat → test b = beyond)
    (meaning_beyond : ∀ c : Char, 0x80 ≤ c.toNat → meaning c = beyond) : Tells test meaning := by
  intro c b hb
  by_cases h : c.toNat < 0x80
  · rw [utf8EncodeChar_of_ascii h, List.mem_singleton] at hb
    rw [hb, byte, ascii _ h, Char.ofNat_toNat]
  · rw [test_beyond b (le_of_mem_utf8EncodeChar (by omega) hb), meaning_beyond c (by omega)]

theorem tells_word : Tells isWordByte Text.isWordChar := by
  refine tells_of true (by decide) (fun b hb => ?_) (fun c hc => ?_)
  · have large : (0x80 : UInt8) ≤ b := UInt8.le_iff_toNat_le.2 hb
    simp [isWordByte, large]
  · simp [Text.isWordChar, hc]

theorem tells_eq {d : Char} (hd : d.toNat < 0x80) : Tells (· == byte d) (· == d) := by
  have small {n : Nat} (h : n < 0x80) : (UInt8.ofNat n).toNat = n :=
    UInt8.toNat_ofNat_of_lt' (Nat.lt_trans h (by decide))
  have code {n : Nat} (h : n < 0x80) : (Char.ofNat n).toNat = n := by
    rw [Char.ofNat, dif_pos (.inl (by omega))]
    rfl
  have size : (byte d).toNat = d.toNat := small hd
  refine tells_of false (fun n hn => ?_) (fun b hb => ?_) (fun c hc => ?_)
  · rw [Bool.eq_iff_iff, beq_iff_eq, beq_iff_eq, ← UInt8.toNat_inj, size, small hn,
      ← Char.toNat_inj, code hn]
  · rw [beq_eq_false_iff_ne]
    rintro rfl
    omega
  · rw [beq_eq_false_iff_ne]
    rintro rfl
    omega

theorem ascii_of_isQuote {c : Char} (h : Text.isQuote c = true) : c.toNat < 0x80 := by
  rcases (by simpa [Text.isQuote] using h : c = '\'' ∨ c = '"') with rfl | rfl <;> decide

theorem eq_byte_iff {c d : Char} (hd : d.toNat < 0x80) {b : UInt8} (hb : b ∈ utf8EncodeChar c) :
    b = byte d ↔ c = d := by
  have told : (b == byte d) = (c == d) := tells_eq hd c b hb
  rw [← beq_iff_eq, told, beq_iff_eq]

theorem utf8Size_of_ascii {c : Char} (h : c.toNat < 0x80) : c.utf8Size = 1 := by
  rw [← String.length_utf8EncodeChar, utf8EncodeChar_of_ascii h]
  rfl

/-- The first byte of a text is that of its first character. -/
theorem exists_bytes_eq_cons (c : Char) (s : List Char) :
    ∃ b rest, bytes (c :: s) = b :: rest ∧ b ∈ utf8EncodeChar c := by
  cases split : utf8EncodeChar c with
  | nil =>
    have := c.utf8Size_pos
    rw [← String.length_utf8EncodeChar, split] at this
    exact absurd this (by decide)
  | cons b rest => exact ⟨b, rest ++ bytes s, by rw [bytes_cons, split]; rfl, List.mem_cons_self⟩

/-- What is read at an offset between two characters is the first byte of the second. -/
theorem exists_get_bytes (a : List Char) (c : Char) (s : List Char) :
    ∃ b ∈ utf8EncodeChar c, get (bytes (a ++ c :: s)) (byteLength a) = .ok b := by
  obtain ⟨b, rest, split, hb⟩ := exists_bytes_eq_cons c s
  have read := get_append (bytes a) b rest
  rw [length_bytes] at read
  exact ⟨b, hb, by rw [bytes_append, split, read]⟩

theorem tells_quote : Tells isQuoteByte Text.isQuote := fun c b hb => by
  have single : (b == byte '\'') = (c == '\'') := tells_eq (by decide) c b hb
  have double : (b == byte '"') = (c == '"') := tells_eq (by decide) c b hb
  rw [isQuoteByte, Text.isQuote, single, double]

end StoredRoutine.Bytewise
