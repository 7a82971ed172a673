import Mathlib.Data.ENat.Lattice
import StoredRoutine.Driver.Rows

/-!
# Rows are what the result set answers

A result set can be asked for ever, and after its end or an error it may go on to answer anything.
`ResultSet.answer` is what it answers if it is asked that often, and `ResultSet.EndsAt` says which
of these answers is the first that is no row.

Rows yield the answers up to that one and nothing behind it (`Rows.take_faithful`). To see that they
do not ask for more than they yield, the result set is put under observation: `Rows.counted` answers
as the result set does and counts how often it is asked.
-/

namespace StoredRoutine

variable {C : Type}

namespace ResultSet

/-- Is the answer a row? -/
def isRow : Except Error (Option Row) → Bool
  | .ok (some _) => true
  | _ => false

/-- What a step yields for an answer. -/
def yielded : Except Error (Option Row) → Option (Except Error Row)
  | .ok (some row) => some (.ok row)
  | .ok none => none
  | .error e => some (.error e)

variable [ResultSet C]

/-- The result set after it was asked `i` times, whatever it answered. -/
def afterAsked (cursor : C) : Nat → C
  | 0 => cursor
  | i + 1 => afterAsked (nextRow cursor).2 i

/-- What the result set answers when it was asked `i` times before. -/
def answer (cursor : C) (i : Nat) : Except Error (Option Row) := (nextRow (afterAsked cursor i)).1

/-- **The end of a result set**: its `k`-th answer, counted from 1, is the first that is no row. If
there is no such answer, `k` is infinite. -/
structure EndsAt (cursor : C) (k : ℕ∞) : Prop where
  pos : 1 ≤ k
  rows : ∀ i : ℕ, (i + 1 : ℕ∞) < k → isRow (answer cursor i) = true
  last : ∀ i : ℕ, (i + 1 : ℕ∞) = k → isRow (answer cursor i) = false

theorem exists_endsAt (cursor : C) : ∃ k, EndsAt cursor k := by
  classical
  by_cases h : ∃ i, isRow (answer cursor i) = false
  · refine ⟨(Nat.find h + 1 : ℕ), ⟨by simp, fun i hi => ?_, fun i hi => ?_⟩⟩
    · have hlt : i < Nat.find h := by
        have hlt : i + 1 < Nat.find h + 1 := by exact_mod_cast hi
        omega
      simpa using Nat.find_min h hlt
    · obtain rfl : i = Nat.find h := by
        have heq : i + 1 = Nat.find h + 1 := by exact_mod_cast hi
        omega
      exact Nat.find_spec h
  · refine ⟨⊤, le_top, fun i _ => ?_, fun i hi => ?_⟩
    · simpa using mt (Exists.intro i) h
    · exact absurd hi (ENat.natCast_ne_top (i + 1))

namespace EndsAt

variable {cursor : C} {k : ℕ∞}

/-- What is no row ends a result set at once. -/
theorem eq_one (h : EndsAt cursor k) (hrow : isRow (nextRow cursor).1 = false) : k = 1 := by
  refine le_antisymm (le_of_not_gt fun hlt => ?_) h.pos
  have hfirst := h.rows 0 (by simpa using hlt)
  rw [answer, afterAsked, hrow] at hfirst
  cases hfirst

/-- Behind a row, the end is nearer by one answer. -/
theorem exists_of_isRow (h : EndsAt cursor k) (hrow : isRow (nextRow cursor).1 = true) :
    ∃ l, k = l + 1 ∧ EndsAt (nextRow cursor).2 l := by
  obtain ⟨l, rfl⟩ : ∃ l, k = l + 1 := ⟨k - 1, (tsub_add_cancel_of_le h.pos).symm⟩
  refine ⟨l, rfl, ?_, fun i hi => ?_, fun i hi => ?_⟩
  · refine Order.one_le_iff_ne_zero.mpr ?_
    rintro rfl
    have hfirst := h.last 0 (by simp)
    rw [answer, afterAsked, hrow] at hfirst
    cases hfirst
  · refine h.rows (i + 1) ?_
    push_cast
    exact (ENat.add_lt_add_iff_right ENat.one_ne_top).mpr hi
  · refine h.last (i + 1) ?_
    push_cast
    rw [hi]

end EndsAt

end ResultSet

namespace Rows

open ResultSet

/-! ## A result set that was let go -/

theorem takeBy_of_isExhausted {m : Type → Type} [Monad m] [LawfulMonad m]
    (ask : C → m (Except Error (Option Row) × C)) (n : ℕ) :
    (⟨none⟩ : Rows C).takeBy ask n = pure (List.replicate n none, ⟨none⟩) := by
  induction n with
  | zero => rfl
  | succ n ih => simp [takeBy, nextBy, ih, List.replicate_succ]

variable [ResultSet C]

/-! ## Rows under observation -/

/-- The result set answers as it does, and that it was asked is counted. -/
def counted (cursor : C) : StateM ℕ (Except Error (Option Row) × C) := do
  modify (· + 1)
  return nextRow cursor

theorem nextBy_counted (cursor : C) (calls : ℕ) :
    ((ofCursor cursor).nextBy counted).run calls =
      ((yielded (nextRow cursor).1,
        if isRow (nextRow cursor).1 then ofCursor (nextRow cursor).2 else ⟨none⟩), calls + 1) := by
  rcases h : nextRow cursor with ⟨_ | _ | row, rest⟩ <;>
    simp [nextBy, counted, ofCursor, h, isRow, yielded] <;> rfl

theorem takeBy_counted_succ (rows : Rows C) (n calls : ℕ) :
    (rows.takeBy counted (n + 1)).run calls =
      let step := (rows.nextBy counted).run calls
      let run := (step.1.2.takeBy counted n).run step.2
      ((step.1.1 :: run.1.1, run.1.2), run.2) :=
  rfl

/-- Observing the result set does not change what the rows yield. -/
theorem takeBy_counted_fst (rows : Rows C) (n calls : ℕ) :
    ((rows.takeBy counted n).run calls).1 = rows.take n := by
  induction n generalizing rows calls with
  | zero => rfl
  | succ n ih =>
    have hnext : ((rows.nextBy counted).run calls).1 = rows.next := by
      rcases rows with ⟨_ | cursor⟩
      · rfl
      · rcases h : nextRow cursor with ⟨_ | _ | row, rest⟩ <;>
          simp [next, nextBy, counted, h] <;> rfl
    rw [takeBy_counted_succ]
    simp only [ih, hnext]
    rfl

/-- What `n` steps on a result set come to that ends with its `k`-th answer. -/
structure Pulled (cursor : C) (k : ℕ∞) (n : ℕ) (items : List (Option (Except Error Row)))
    (rest : Rows C) (calls : ℕ) : Prop where
  items : items =
    (List.range n).map fun i : ℕ => if (i : ℕ∞) < k then yielded (answer cursor i) else none
  calls : (calls : ℕ∞) = min (n : ℕ∞) k
  isExhausted : rest.isExhausted = true ↔ k ≤ n
  cursor : (n : ℕ∞) < k → rest = ofCursor (afterAsked cursor n)

namespace Pulled

variable {cursor : C} {k : ℕ∞}

theorem zero (hk : 1 ≤ k) : Pulled cursor k 0 [] (ofCursor cursor) 0 where
  items := rfl
  calls := by simp
  isExhausted := by
    simpa [Rows.isExhausted, ofCursor] using Order.one_le_iff_ne_zero.mp hk
  cursor _ := rfl

/-- The step on a row goes before the steps on the rest. -/
theorem cons {n calls : ℕ} {items : List (Option (Except Error Row))} {rest : Rows C}
    (h : Pulled (nextRow cursor).2 k n items rest calls) :
    Pulled cursor (k + 1) (n + 1) (yielded (nextRow cursor).1 :: items) rest (calls + 1) where
  items := by
    rw [List.range_succ_eq_map, List.map_cons, List.map_map, h.items]
    congr 1
    · simp [answer, afterAsked]
    · refine List.map_congr_left fun i _ => ?_
      simp [answer, afterAsked]
  calls := by
    push_cast
    rw [h.calls, min_add_add_right]
  isExhausted := by
    rw [h.isExhausted]
    push_cast
    exact (ENat.add_le_add_iff_right ENat.one_ne_top).symm
  cursor hlt := by
    push_cast at hlt
    exact h.cursor ((ENat.add_lt_add_iff_right ENat.one_ne_top).mp hlt)

/-- The step on the first answer that is no row is the last that asks. -/
theorem last (n : ℕ) :
    Pulled cursor 1 (n + 1) (yielded (nextRow cursor).1 :: List.replicate n none) ⟨none⟩ 1 where
  items := by
    rw [List.range_succ_eq_map, List.map_cons, List.map_map]
    congr 1
    exact (List.eq_replicate_iff.mpr ⟨by simp, by simp⟩).symm
  calls := by simp
  isExhausted := by simp [Rows.isExhausted]
  cursor hlt := by simp at hlt

end Pulled

theorem takeBy_counted {cursor : C} {k : ℕ∞} (h : EndsAt cursor k) (n start : ℕ) :
    ∃ items rest calls,
      ((ofCursor cursor).takeBy counted n).run start = ((items, rest), start + calls) ∧
        Pulled cursor k n items rest calls := by
  induction n generalizing cursor k start with
  | zero => exact ⟨[], ofCursor cursor, 0, rfl, .zero h.pos⟩
  | succ n ih =>
    rw [takeBy_counted_succ, nextBy_counted]
    cases hrow : isRow (nextRow cursor).1 with
    | false =>
      obtain rfl := h.eq_one hrow
      refine ⟨_, _, 1, ?_, .last n⟩
      simp only [takeBy_of_isExhausted, Bool.false_eq_true, if_false]
      rfl
    | true =>
      obtain ⟨l, rfl, hl⟩ := h.exists_of_isRow hrow
      obtain ⟨items, rest, calls, hrun, hpulled⟩ := ih hl (start + 1)
      refine ⟨_, _, calls + 1, ?_, hpulled.cons⟩
      simp [hrun, add_assoc, add_comm 1 calls]

/-- **Rows are a faithful and fused front of the result set.** Let the `k`-th answer be its first
that is no row. However many steps are taken, they yield the answers up to that one and then
nothing, the result set is asked for these answers only, and it is let go with the `k`-th of them;
from then on a step leaves alone whatever may be asked. -/
theorem take_faithful (cursor : C) : ∃ k, EndsAt cursor k ∧ ∀ n, ∃ items rest calls,
    ((ofCursor cursor).takeBy counted n).run 0 = ((items, rest), calls) ∧
      (ofCursor cursor).take n = (items, rest) ∧
      Pulled cursor k n items rest calls ∧
      (rest.isExhausted = true → ∀ {m : Type → Type} [Monad m]
        (ask : C → m (Except Error (Option Row) × C)), rest.nextBy ask = pure (none, rest)) := by
  obtain ⟨k, hk⟩ := exists_endsAt cursor
  refine ⟨k, hk, fun n => ?_⟩
  obtain ⟨items, rest, calls, hrun, hpulled⟩ := takeBy_counted hk n 0
  rw [zero_add] at hrun
  refine ⟨items, rest, calls, hrun, ?_, hpulled, ?_⟩
  · rw [← takeBy_counted_fst _ n 0, hrun]
  · rcases rest with ⟨_ | cursor⟩
    · exact fun _ _ _ _ => rfl
    · exact fun hexhausted => nomatch hexhausted

end Rows

end StoredRoutine
