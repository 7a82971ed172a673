import StoredRoutine.Toml.Reader

/-!
# What readers take

One equation for each way of putting readers together. Where a reader is used in a sequence, what
it takes is given as an equation `r s = some (a, rest)`; a repetition goes on while its reader
takes something, and ends where it fails.
-/

namespace StoredRoutine.Toml.Reader

/-! ## Sequences and alternatives -/

section Steps

variable {σ α β : Type} {r q : StateT σ Option α} {s t : σ} {a : α}

@[simp]
theorem run_pure : (pure a : StateT σ Option α) s = some (a, s) := rfl

theorem run_bind (f : α → StateT σ Option β) (h : r s = some (a, t)) : (r >>= f) s = f a t := by
  simp [bind, StateT.bind, h]

theorem run_bind_of_none (f : α → StateT σ Option β) (h : r s = none) : (r >>= f) s = none := by
  simp [bind, StateT.bind, h]

theorem run_seqRight {q : StateT σ Option β} (h : r s = some (a, t)) : (r *> q) s = q t := by
  simp [SeqRight.seqRight, bind, StateT.bind, h]

theorem run_seqLeft {q : StateT σ Option β} {b : β} {u : σ} (hr : r s = some (a, t))
    (hq : q t = some (b, u)) : (r <* q) s = some (a, u) :=
  (run_bind (fun a => q >>= fun _ => pure a) hr).trans (run_bind _ hq)

theorem run_map (f : α → β) (h : r s = some (a, t)) : (f <$> r) s = some (f a, t) := by
  simp [Functor.map, StateT.map, h]

theorem run_map_of_none (f : α → β) (h : r s = none) : (f <$> r) s = none := by
  simp [Functor.map, StateT.map, h]

theorem run_orElse (h : r s = some (a, t)) : (r <|> q) s = some (a, t) := by
  change (r s <|> q s) = _
  rw [h]
  rfl

theorem run_orElse_of_none (h : r s = none) : (r <|> q) s = q s := by
  change (r s <|> q s) = _
  rw [h]
  rfl

theorem run_optional (h : r s = some (a, t)) : optional r s = some (some a, t) :=
  run_orElse (run_map some h)

theorem run_optional_of_none (h : r s = none) : optional r s = some (none, s) :=
  run_orElse_of_none (run_map_of_none some h)

end Steps

/-! ## Characters -/

section Characters

variable {c d : Char} {rest : List Char} {test : Char → Bool}

theorem one_cons (h : test c = true) : one test (c :: rest) = some (c, rest) := by
  simp [one, h]

theorem one_cons_of_not (h : test c = false) : one test (c :: rest) = none := by
  simp [one, h]

theorem char_cons (c : Char) (rest : List Char) : char c (c :: rest) = some ((), rest) := by
  have taken : one (· == c) (c :: rest) = some (c, rest) := one_cons (beq_self_eq_true c)
  rw [char, run_bind _ taken, run_pure]

theorem char_cons_of_ne (h : d ≠ c) : char c (d :: rest) = none :=
  run_bind_of_none _ (one_cons_of_not (by simpa using h))

theorem literal_append (text : String) (rest : List Char) :
    literal text (text.toList ++ rest) = some ((), rest) := by
  have length : text.length = text.toList.length := String.length_toList.symm
  simp [literal, length]

/-- A text is not taken off one that begins differently. -/
theorem literal_of_head_ne {text : String} {first : Char} {others s : List Char}
    (split : text.toList = first :: others) (h : s.head? ≠ some first) :
    literal text s = none := by
  cases s with
  | nil => simp [literal, split]
  | cons d s =>
    have differs : first ≠ d := by
      rintro rfl
      exact h rfl
    simp [literal, split, List.isPrefixOf, differs]

theorem span_append {front : List Char} (passes : ∀ c ∈ front, test c = true)
    (stops : ∀ c, rest.head? = some c → test c = false) :
    span test (front ++ rest) = some (front, rest) := by
  have taken : rest.takeWhile test = [] := by
    cases rest with
    | nil => rfl
    | cons c rest => simp [stops c rfl]
  have left : rest.dropWhile test = rest := by
    cases rest with
    | nil => rfl
    | cons c rest => simp [stops c rfl]
  simp [span, List.takeWhile_append_of_pos passes, List.dropWhile_append_of_pos passes, taken,
    left]

end Characters

/-! ## Repetitions -/

section Repetitions

variable {α : Type} {r : Reader α} {s t u : List Char} {a : α} {others : List α}

theorem many_of_none (h : r s = none) : many r s = some ([], s) := by
  rw [many, manyFrom, h]

theorem many_cons (h : r s = some (a, t)) (shorter : t.length < s.length)
    (more : many r t = some (others, u)) : many r s = some (a :: others, u) := by
  rw [many, manyFrom, h]
  simp only [many, Option.some.injEq] at more
  simp [shorter, more]

end Repetitions

end StoredRoutine.Toml.Reader
