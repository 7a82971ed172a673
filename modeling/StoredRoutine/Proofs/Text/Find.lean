import StoredRoutine.Proofs.Text.Blank
import StoredRoutine.Proofs.Text.Nesting

/-!
# Finding in a text made of pieces

What is found in a text that is put together from pieces. A piece in which nothing is found does
not hide what follows it (`findFrom_append`), as long as the test cannot tell whether the piece
ends there; a space behind the piece sees to that (`isPrefixOf_append_space`,
`isWholeWord_append_space`). A character that `Lacks` says is not found in the pieces is not found
in the whole.
-/

namespace StoredRoutine.Text

open Nesting

/-! ## Words at the front of a text -/

theorem startsWithLetters_iff {word s : List Char} :
    startsWithLetters word s = true ↔ asciiLower word <+: asciiLower s := by
  rw [startsWithLetters, sameLetters_iff]
  have htake : asciiLower (s.take word.length) = (asciiLower s).take (asciiLower word).length := by
    rw [length_asciiLower, asciiLower, asciiLower, List.map_take]
  rw [htake, List.prefix_iff_eq_take]

theorem length_le_of_startsWithLetters {word s : List Char}
    (h : startsWithLetters word s = true) : word.length ≤ s.length := by
  simpa using (startsWithLetters_iff.mp h).length_le

/-- A character that the word does not have ends the search for it. -/
theorem prefix_append_cons_iff {word s t : List Char} {c : Char} (hc : c ∉ word) :
    word <+: s ++ c :: t ↔ word <+: s := by
  refine ⟨fun h => ?_, fun h => h.trans (List.prefix_append _ _)⟩
  induction word generalizing s with
  | nil => exact List.nil_prefix
  | cons d word ih =>
    cases s with
    | nil =>
      obtain ⟨rfl, -⟩ := List.cons_prefix_cons.mp h
      exact absurd List.mem_cons_self hc
    | cons e s =>
      obtain ⟨rfl, hrest⟩ := List.cons_prefix_cons.mp h
      have hword : c ∉ word := fun hd => hc (List.mem_cons_of_mem _ hd)
      exact List.cons_prefix_cons.mpr ⟨rfl, ih hword hrest⟩

theorem isPrefixOf_append_space {sequence : List Char} (h : ' ' ∉ sequence) (s t : List Char) :
    sequence.isPrefixOf (s ++ ' ' :: t) = sequence.isPrefixOf s := by
  rw [Bool.eq_iff_iff, List.isPrefixOf_iff_prefix, List.isPrefixOf_iff_prefix]
  exact prefix_append_cons_iff h

theorem startsWithLetters_append_space {word : List Char} (h : ' ' ∉ asciiLower word)
    (s t : List Char) : startsWithLetters word (s ++ ' ' :: t) = startsWithLetters word s := by
  have hmap : asciiLower (s ++ ' ' :: t) = asciiLower s ++ ' ' :: asciiLower t :=
    List.map_append
  rw [Bool.eq_iff_iff, startsWithLetters_iff, startsWithLetters_iff, hmap]
  exact prefix_append_cons_iff h

theorem isWholeWord_append_space {word : List Char} (h : ' ' ∉ asciiLower word)
    (left : Option Char) (s t : List Char) :
    isWholeWord word left (s ++ ' ' :: t) = isWholeWord word left s := by
  rw [isWholeWord, isWholeWord, startsWithLetters_append_space h]
  cases hstarts : startsWithLetters word s with
  | false => rfl
  | true =>
    rw [List.drop_append_of_le_length (length_le_of_startsWithLetters hstarts)]
    cases hrest : s.drop word.length with
    | nil => rfl
    | cons c rest => rfl

/-! ## Finding -/

section Find

variable {test : Option Char → List Char → Bool} {n : Nesting} {left : Option Char}
  {s t : List Char}

/-- **Behind a piece in which nothing is found.** -/
theorem findFrom_append
    (hlocal : ∀ left rest, rest ≠ [] → test left (rest ++ t) = test left rest)
    (h : findFrom test n left s = none) :
    findFrom test n left (s ++ t) =
      (findFrom test (n.after s) (s.getLast?.or left) t).map (· + s.length) := by
  induction s generalizing n left with
  | nil => simp
  | cons c s ih =>
    rw [findFrom] at h
    split_ifs at h with hfound
    have hrest : findFrom test (n.step c) (some c) s = none := Option.map_eq_none_iff.mp h
    -- the character to the left of what follows is the last one of the piece
    have hlast : (c :: s).getLast?.or left = s.getLast?.or (some c) := by
      rw [List.getLast?_cons]
      cases s.getLast? <;> rfl
    rw [← hlocal left (c :: s) (List.cons_ne_nil c s), List.cons_append] at hfound
    rw [List.cons_append, findFrom, if_neg hfound, ih hrest, hlast, Option.map_map]
    rfl

theorem findFrom_cons_of_neg {c : Char} (h : test left (c :: s) = false) :
    findFrom test n left (c :: s) = (findFrom test (n.step c) (some c) s).map (· + 1) := by
  rw [findFrom, if_neg]
  simp [h]

end Find

/-! ## Characters that are not found -/

/-- The character does not stand at depth zero anywhere in the text. -/
def Lacks (c : Char) (s : List Char) : Prop :=
  everyOpen (fun d e _ => e != c || d != 0) .start s = true

instance (c : Char) (s : List Char) : Decidable (Lacks c s) :=
  inferInstanceAs (Decidable (_ = true))

namespace Lacks

variable {c : Char} {s t : List Char}

theorem append (hs : Lacks c s) (hclosed : IsClosed s) (ht : Lacks c t) : Lacks c (s ++ t) := by
  refine everyOpen_append (fun d e rest h => h) hs ?_
  rw [hclosed]
  exact ht

theorem of_not_mem (h : c ∉ s) : Lacks c s := by
  have hn : ∀ n, everyOpen (fun d e _ => e != c || d != 0) n s = true := by
    induction s with
    | nil => exact fun n => rfl
    | cons e s ih =>
      obtain ⟨hne, hs⟩ := List.ne_and_not_mem_of_not_mem_cons h
      refine fun n => everyOpen_cons ?_ (ih hs _)
      rw [Option.all_eq_true]
      exact fun d _ => by simp [Ne.symm hne]
  exact hn _

/-- In parentheses nothing stands at depth zero. -/
theorem inside (hs : IsClosed s) :
    everyOpen (fun d e _ => e != c || d != 0) (Nesting.start.step '(') s = true := by
  refine everyOpen_mono ?_ hs.everyOpen_pos
  intro d e _ hd
  have hne : d ≠ 0 := Int.ne_of_gt (of_decide_eq_true hd)
  simp [hne]

theorem group (hs : IsClosed s) (hopen : c ≠ '(') (hclose : c ≠ ')') :
    Lacks c ('(' :: s ++ [')']) := by
  refine everyOpen_cons ?_ (everyOpen_append (fun d e rest h => h) (inside hs) ?_)
  · simp [depthAt?, Nesting.start, isQuote, Ne.symm hopen]
  · rw [hs.after_group]
    refine everyOpen_cons ?_ rfl
    rw [Option.all_eq_true]
    intro d _
    simp [Ne.symm hclose]

end Lacks

end StoredRoutine.Text
