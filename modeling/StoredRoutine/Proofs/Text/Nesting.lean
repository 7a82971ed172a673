import Mathlib.Tactic.SplitIfs
import StoredRoutine.Text.Nesting

/-!
# Texts inside parentheses

The same text can stand at any depth of parentheses. `Nesting.Above k n m` says that `m` is what
`n` is, only with `k` more parentheses around it, and reading a text keeps it that way.

A text is `IsClosed` if its parentheses balance and its quotes are closed, so that nothing is left
of it behind it, at whatever depth it stands (`IsClosed.after_eq`).

`everyOpen test` holds of a text if every character of it that stands in the open passes the
test, which is given the depth, the character and what follows it. Such facts are proved piece by
piece (`everyOpen_append`) and carried from one depth to another (`everyOpen_above`).
-/

namespace StoredRoutine.Text

namespace Nesting

/-! ## Steps -/

/-- Only quotes and parentheses count. -/
theorem step_of_plain {n : Nesting} {c : Char} (hn : n.quote = none) (hquote : isQuote c = false)
    (hopen : c ≠ '(') (hclose : c ≠ ')') : n.step c = n := by
  unfold step
  rw [hn]
  simp [hquote, hopen, hclose]

theorem step_open {n : Nesting} (hn : n.quote = none) :
    n.step '(' = { n with depth := n.depth + 1 } := by
  unfold step
  rw [hn]
  rfl

/-- In the open, a quote opens a section. -/
theorem quote_step_of_none {n : Nesting} (hn : n.quote = none) (c : Char) :
    (n.step c).quote = if isQuote c then some c else none := by
  unfold step
  rw [hn]
  dsimp only
  split_ifs <;> first | rfl | exact hn

/-- In a quoted section, the quote that opened it closes it. -/
theorem quote_step_of_some {n : Nesting} {quote : Char} (hn : n.quote = some quote) (c : Char) :
    (n.step c).quote = if c = quote then none else some quote := by
  unfold step
  rw [hn]
  dsimp only
  split_ifs
  · rfl
  · exact hn

theorem underflow_of_step {n : Nesting} {c : Char} (h : (n.step c).underflow = false) :
    n.underflow = false := by
  unfold step at h
  split at h
  · split at h <;> exact h
  · split_ifs at h
    · exact h
    · exact h
    · exact (Bool.or_eq_false_iff.mp h).1
    · exact h

theorem underflow_of_after {n : Nesting} {s : List Char} (h : (n.after s).underflow = false) :
    n.underflow = false := by
  induction s generalizing n with
  | nil => exact h
  | cons c s ih => exact underflow_of_step (ih h)

/-- A parenthesis that is closed in the open was opened. -/
theorem depth_pos_of_step {n : Nesting} (hn : n.quote = none)
    (h : (n.step ')').underflow = false) : 0 < n.depth := by
  unfold step at h
  rw [hn] at h
  have hnot : ¬ n.depth ≤ 0 := of_decide_eq_false (Bool.or_eq_false_iff.mp h).2
  omega

theorem depth_step_nonneg {n : Nesting} (hn : 0 ≤ n.depth) {c : Char}
    (h : (n.step c).underflow = false) : 0 ≤ (n.step c).depth := by
  unfold step at h ⊢
  split
  · split <;> exact hn
  · next hquote =>
    rw [hquote] at h
    split_ifs at h ⊢
    · exact hn
    · exact Int.add_nonneg hn (by decide)
    · have hnot : ¬ n.depth ≤ 0 := of_decide_eq_false (Bool.or_eq_false_iff.mp h).2
      dsimp only
      omega
    · exact hn

theorem depth_after_nonneg {n : Nesting} (hn : 0 ≤ n.depth) {s : List Char}
    (h : (n.after s).underflow = false) : 0 ≤ (n.after s).depth := by
  induction s generalizing n with
  | nil => exact hn
  | cons c s ih => exact ih (depth_step_nonneg hn (underflow_of_after h)) h

/-- What stands in the open is no quote, and no quote is open. -/
theorem of_depthAt?_eq_some {n : Nesting} {c : Char} {d : Int} (h : n.depthAt? c = some d) :
    n.quote = none ∧ isQuote c = false ∧ d = if c = ')' then n.depth - 1 else n.depth := by
  unfold depthAt? at h
  by_cases hquoted : (n.quote.isSome || isQuote c) = true
  · rw [if_pos hquoted] at h
    cases h
  · rw [if_neg hquoted] at h
    rw [Bool.not_eq_true, Bool.or_eq_false_iff, Option.isSome_eq_false_iff,
      Option.isNone_iff_eq_none] at hquoted
    refine ⟨hquoted.1, hquoted.2, ?_⟩
    split_ifs at h ⊢
    · exact (Option.some.inj h).symm
    · exact (Option.some.inj h).symm

theorem depthAt?_nonneg {n : Nesting} (hn : 0 ≤ n.depth) {c : Char}
    (h : (n.step c).underflow = false) : ∀ d ∈ n.depthAt? c, 0 ≤ d := by
  intro d hd
  obtain ⟨hnone, -, rfl⟩ := of_depthAt?_eq_some hd
  split_ifs with hclose
  · subst hclose
    have hpos := depth_pos_of_step hnone h
    omega
  · exact hn

/-! ## The same place at another depth -/

/-- The second nesting is the first one with `k` more parentheses around it. -/
structure Above (k : Int) (n m : Nesting) : Prop where
  quote : m.quote = n.quote
  depth : m.depth = n.depth + k

namespace Above

variable {k : Int} {n m : Nesting}

theorem step (h : Above k n m) (c : Char) : Above k (n.step c) (m.step c) := by
  obtain ⟨hquote, hdepth⟩ := h
  unfold Nesting.step
  rw [hquote]
  split
  · split_ifs
    · exact ⟨rfl, hdepth⟩
    · exact ⟨hquote, hdepth⟩
  · split_ifs
    · exact ⟨rfl, hdepth⟩
    · exact ⟨rfl, by dsimp only; omega⟩
    · exact ⟨rfl, by dsimp only; omega⟩
    · exact ⟨hquote, hdepth⟩

theorem after (h : Above k n m) (s : List Char) : Above k (n.after s) (m.after s) := by
  induction s generalizing n m with
  | nil => exact h
  | cons c s ih => exact ih (h.step c)

theorem depthAt? (h : Above k n m) (c : Char) : m.depthAt? c = (n.depthAt? c).map (· + k) := by
  obtain ⟨hquote, hdepth⟩ := h
  unfold Nesting.depthAt?
  rw [hquote, hdepth]
  split_ifs
  · rfl
  · simp only [Option.map_some, Option.some.injEq]
    omega
  · rfl

/-- Parentheses around a text do no harm to its own: what closes no group of its own without
having opened it closes none of theirs. -/
theorem underflow_step (h : Above k n m) (hk : 0 ≤ k) {c : Char}
    (hstep : (n.step c).underflow = false) : (m.step c).underflow = m.underflow := by
  obtain ⟨hquote, hdepth⟩ := h
  unfold Nesting.step at hstep ⊢
  rw [hquote]
  split
  · split_ifs <;> rfl
  · next hnone =>
    rw [hnone] at hstep
    split_ifs at hstep ⊢
    · rfl
    · rfl
    · have hpos : ¬ n.depth ≤ 0 := of_decide_eq_false (Bool.or_eq_false_iff.mp hstep).2
      have hnot : ¬ m.depth ≤ 0 := by omega
      simp [hnot]
    · rfl

theorem underflow_after (h : Above k n m) (hk : 0 ≤ k) {s : List Char}
    (hafter : (n.after s).underflow = false) : (m.after s).underflow = m.underflow := by
  induction s generalizing n m with
  | nil => rfl
  | cons c s ih =>
    exact (ih (h.step c) hafter).trans (h.underflow_step hk (underflow_of_after hafter))

end Above

end Nesting

open Nesting

/-! ## Closed texts -/

/-- Nothing is left of the text behind it: no group is open, no quote is open, and no parenthesis
was closed without having been opened. -/
def IsClosed (s : List Char) : Prop := Nesting.start.after s = .start

instance (s : List Char) : Decidable (IsClosed s) :=
  inferInstanceAs (Decidable (Nesting.start.after s = .start))

theorem isClosed_iff {s : List Char} :
    IsClosed s ↔ (Nesting.start.after s).quote = none ∧ (Nesting.start.after s).depth = 0 ∧
      (Nesting.start.after s).underflow = false := by
  rw [IsClosed]
  generalize Nesting.start.after s = n
  obtain ⟨quote, depth, underflow⟩ := n
  simp [Nesting.start]

/-- **Closed texts leave no trace**, wherever they stand. -/
theorem IsClosed.after_eq {s : List Char} (h : IsClosed s) {n : Nesting} (hn : n.quote = none)
    (hdepth : 0 ≤ n.depth) : n.after s = n := by
  -- By itself the text comes back to where it began, and here it does so with more parentheses
  -- around it. Only the flag has to be carried over apart.
  have habove : Above n.depth .start n := ⟨hn, (Int.zero_add _).symm⟩
  have hunderflow : (Nesting.start.after s).underflow = false := by
    rw [h]
    rfl
  obtain ⟨hquote', hdepth'⟩ := habove.after s
  have hunderflow' := habove.underflow_after hdepth hunderflow
  rw [h] at hquote' hdepth'
  obtain ⟨quote, depth, underflow⟩ := n
  obtain rfl : quote = none := hn
  generalize (⟨none, depth, underflow⟩ : Nesting).after s = m at *
  obtain ⟨quote', depth', underflow'⟩ := m
  simp only [Nesting.start, Int.zero_add] at hquote' hdepth' hunderflow'
  rw [hquote', hdepth', hunderflow']

theorem IsClosed.append {s t : List Char} (hs : IsClosed s) (ht : IsClosed t) :
    IsClosed (s ++ t) := by
  rw [IsClosed, after_append, hs]
  exact ht

/-! ## Characters in the open -/

/-- Does every character in the open pass the test? It is given the depth, the character, and
what follows it in the text. -/
def everyOpen (test : Int → Char → List Char → Bool) (n : Nesting) : List Char → Bool
  | [] => true
  | c :: rest => (n.depthAt? c).all (test · c rest) && everyOpen test (n.step c) rest

section EveryOpen

variable {test other : Int → Char → List Char → Bool} {n m : Nesting} {s t : List Char}

theorem everyOpen_cons {c : Char} (hc : (n.depthAt? c).all (test · c s) = true)
    (hs : everyOpen test (n.step c) s = true) : everyOpen test n (c :: s) = true := by
  rw [everyOpen, hc, hs]
  rfl

theorem of_everyOpen_cons {c : Char} (h : everyOpen test n (c :: s) = true) :
    (n.depthAt? c).all (test · c s) = true ∧ everyOpen test (n.step c) s = true := by
  rw [everyOpen, Bool.and_eq_true] at h
  exact h

/-- A character passes the test for another one at some depth unless it is this one at this
depth. -/
theorem all_depthAt?_iff {c d : Char} {outer : Int} :
    (n.depthAt? c).all (fun e => c != d || e != outer) = true ↔
      ¬ (c = d ∧ n.depthAt? c = some outer) := by
  cases n.depthAt? c with
  | none => simp
  | some e => by_cases hc : c = d <;> simp [hc]

theorem everyOpen_mono (h : ∀ d c rest, test d c rest = true → other d c rest = true)
    (hs : everyOpen test n s = true) : everyOpen other n s = true := by
  induction s generalizing n with
  | nil => rfl
  | cons c s ih =>
    obtain ⟨hc, hs⟩ := of_everyOpen_cons hs
    refine everyOpen_cons ?_ (ih hs)
    rw [Option.all_eq_true] at hc ⊢
    exact fun d hd => h d c s (hc d hd)

/-- Tests that are passed apart are passed together. -/
theorem everyOpen_and (hs : everyOpen test n s = true) (hs' : everyOpen other n s = true) :
    everyOpen (fun d c rest => test d c rest && other d c rest) n s = true := by
  induction s generalizing n with
  | nil => rfl
  | cons c s ih =>
    obtain ⟨hc, hs⟩ := of_everyOpen_cons hs
    obtain ⟨hc', hs'⟩ := of_everyOpen_cons hs'
    refine everyOpen_cons ?_ (ih hs hs')
    rw [Option.all_eq_true] at hc hc' ⊢
    intro d hd
    rw [hc d hd, hc' d hd]
    rfl

/-- **Piece by piece.** What follows the first piece must not spoil the test for it. -/
theorem everyOpen_append
    (hlocal : ∀ d c rest, test d c rest = true → test d c (rest ++ t) = true)
    (hs : everyOpen test n s = true) (ht : everyOpen test (n.after s) t = true) :
    everyOpen test n (s ++ t) = true := by
  induction s generalizing n with
  | nil => exact ht
  | cons c s ih =>
    obtain ⟨hc, hs⟩ := of_everyOpen_cons hs
    refine everyOpen_cons ?_ (ih hs ht)
    rw [Option.all_eq_true] at hc ⊢
    exact fun d hd => hlocal d c s (hc d hd)

/-- **At another depth.** -/
theorem everyOpen_above {k : Int} (h : Above k n m)
    (hs : everyOpen (fun d c rest => test (d + k) c rest) n s = true) :
    everyOpen test m s = true := by
  induction s generalizing n m with
  | nil => rfl
  | cons c s ih =>
    obtain ⟨hc, hs⟩ := of_everyOpen_cons hs
    refine everyOpen_cons ?_ (ih (h.step c) hs)
    rw [h.depthAt? c]
    cases hd : n.depthAt? c with
    | none => rfl
    | some d =>
      rw [hd] at hc
      exact hc

/-- Where nothing is closed without having been opened, everything stands at depth zero or
above. -/
theorem everyOpen_nonneg (hn : 0 ≤ n.depth) (h : (n.after s).underflow = false) :
    everyOpen (fun d _ _ => 0 ≤ d) n s = true := by
  induction s generalizing n with
  | nil => rfl
  | cons c s ih =>
    have hstep : (n.step c).underflow = false := underflow_of_after h
    refine everyOpen_cons ?_ (ih (depth_step_nonneg hn hstep) h)
    rw [Option.all_eq_true]
    exact fun d hd => decide_eq_true (depthAt?_nonneg hn hstep d hd)

/-- What stands in a group stands above depth zero. -/
theorem IsClosed.everyOpen_pos (h : IsClosed s) :
    everyOpen (fun d _ _ => 0 < d) (Nesting.start.step '(') s = true := by
  have hunderflow : (Nesting.start.after s).underflow = false := by
    rw [h]
    rfl
  have habove : Above 1 .start (Nesting.start.step '(') := ⟨rfl, rfl⟩
  refine everyOpen_above habove (everyOpen_mono ?_ (everyOpen_nonneg (by decide) hunderflow))
  intro d c _ hd
  have hnonneg := of_decide_eq_true hd
  exact decide_eq_true (by omega)

/-- Behind the text of a group its parenthesis is still open. -/
theorem IsClosed.after_group (h : IsClosed s) :
    (Nesting.start.step '(').after s = Nesting.start.step '(' :=
  h.after_eq rfl (by decide)

/-- A closed text in parentheses is closed. -/
theorem IsClosed.group (h : IsClosed s) : IsClosed ('(' :: s ++ [')']) := by
  rw [IsClosed, List.cons_append, after_cons, after_append, h.after_group]
  rfl

end EveryOpen

end StoredRoutine.Text
