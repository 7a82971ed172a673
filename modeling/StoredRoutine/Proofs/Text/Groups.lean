import StoredRoutine.Proofs.Text.Parts

/-!
# Groups

What a parenthesis is closed by. Behind an opening parenthesis in the open, wherever it stands, the
partner is the first closing one that a closed text comes before (`closingFrom_group_iff`), and it
has none if nothing behind it is closed without having been opened there
(`closingFrom_group_eq_none_iff`).

What comes before the group does not matter, though the depth is counted from the beginning of the
text, and may be negative: reading the group is reading a text of its own at another depth
(`above_group`).
-/

namespace StoredRoutine.Text

open Nesting

variable {outer : Int} {n m : Nesting} {s t : List Char} {i : Nat}

/-! ## The search for a closing parenthesis -/

theorem closingFrom_append
    (h : everyOpen (fun d c _ => c != ')' || d != outer) n s = true) :
    closingFrom outer n (s ++ t) = (closingFrom outer (n.after s) t).map (· + s.length) := by
  induction s generalizing n with
  | nil => simp
  | cons c s ih =>
    obtain ⟨hc, hs⟩ := of_everyOpen_cons h
    rw [List.cons_append, closingFrom, if_neg (all_depthAt?_iff.mp hc), ih hs, Option.map_map]
    rfl

theorem exists_of_closingFrom (h : closingFrom outer n s = some i) :
    ∃ a b, s = a ++ ')' :: b ∧ a.length = i ∧ (n.after a).depthAt? ')' = some outer ∧
      everyOpen (fun d c _ => c != ')' || d != outer) n a = true := by
  induction s generalizing n i with
  | nil => cases h
  | cons c s ih =>
    rw [closingFrom] at h
    split_ifs at h with hfound
    · obtain ⟨rfl, hdepth⟩ := hfound
      obtain rfl := Option.some.inj h
      exact ⟨[], s, rfl, rfl, hdepth, rfl⟩
    · obtain ⟨j, hj, rfl⟩ := Option.map_eq_some_iff.mp h
      obtain ⟨a, b, rfl, rfl, hdepth, ha⟩ := ih hj
      exact ⟨c :: a, b, rfl, rfl, hdepth, everyOpen_cons (all_depthAt?_iff.mpr hfound) ha⟩

theorem closingFrom_eq_none_iff :
    closingFrom outer n s = none ↔
      everyOpen (fun d c _ => c != ')' || d != outer) n s = true := by
  constructor
  · intro h
    induction s generalizing n with
    | nil => rfl
    | cons c s ih =>
      rw [closingFrom] at h
      split_ifs at h with hfound
      exact everyOpen_cons (all_depthAt?_iff.mpr hfound) (ih (Option.map_eq_none_iff.mp h))
  · intro h
    have happend := closingFrom_append (t := []) h
    rw [List.append_nil] at happend
    rw [happend]
    rfl

/-! ## What is in a group -/

/-- Behind an opening parenthesis, a text is read as it is at the beginning, but deeper. -/
theorem above_group (hn : n.quote = none) : Above (n.depth + 1) .start (n.step '(') := by
  rw [step_open hn]
  exact ⟨hn, (Int.zero_add _).symm⟩

/-- As long as a group is not closed, no parenthesis in it is closed without having been opened
there, and the other way round. -/
theorem everyOpen_group_iff (h : Above (outer + 1) n m) (hn : 0 ≤ n.depth)
    (hunderflow : n.underflow = false) :
    everyOpen (fun d c _ => c != ')' || d != outer) m s = true ↔
      (n.after s).underflow = false := by
  constructor
  · intro hs
    induction s generalizing n m with
    | nil => exact hunderflow
    | cons c s ih =>
      obtain ⟨hc, hs⟩ := of_everyOpen_cons hs
      have hstep : (n.step c).underflow = false := by
        unfold Nesting.step
        split
        · split_ifs <;> exact hunderflow
        · next hnone =>
          split_ifs with hquote hopen hclose
          · exact hunderflow
          · exact hunderflow
          · subst hclose
            have hdepth : m.depthAt? ')' = some (m.depth - 1) := by
              simp [depthAt?, h.quote, hnone, isQuote]
            have hne : m.depth - 1 ≠ outer := by simpa [hdepth] using hc
            have hpos : ¬ n.depth ≤ 0 := by
              have := h.depth
              omega
            simp [hunderflow, hpos]
          · exact hunderflow
      exact ih (h.step c) (depth_step_nonneg hn hstep) hstep hs
  · intro hs
    refine everyOpen_above h (everyOpen_mono ?_ (everyOpen_nonneg hn hs))
    intro d c _ hd
    have hne : d + (outer + 1) ≠ outer := by
      have hnonneg := of_decide_eq_true hd
      omega
    simp [hne]

/-- **The partner** of an opening parenthesis is the closing one behind a closed text. -/
theorem closingFrom_group_iff (hn : n.quote = none) :
    closingFrom n.depth (n.step '(') s = some i ↔
      ∃ inner t, s = inner ++ ')' :: t ∧ inner.length = i ∧ IsClosed inner := by
  have habove := above_group hn
  constructor
  · intro h
    obtain ⟨inner, t, rfl, rfl, hdepth, hinner⟩ := exists_of_closingFrom h
    have hunderflow := (everyOpen_group_iff habove (Int.le_refl 0) rfl).mp hinner
    obtain ⟨hquote, hdepth'⟩ := habove.after inner
    obtain ⟨hnone, -, houter⟩ := of_depthAt?_eq_some hdepth
    rw [if_pos rfl] at houter
    exact ⟨inner, t, rfl, rfl, isClosed_iff.mpr ⟨hquote.symm.trans hnone, by omega, hunderflow⟩⟩
  · rintro ⟨inner, t, rfl, rfl, hinner⟩
    have hpassed := (everyOpen_group_iff habove (Int.le_refl 0) rfl).mpr
      (underflow_of_isBalanced hinner.isBalanced)
    -- behind the text in it the group is where it was when it was opened
    obtain ⟨hquote, hdepth⟩ := habove.after inner
    rw [hinner] at hquote hdepth
    have hcloses : ((n.step '(').after inner).depthAt? ')' = some n.depth := by
      rw [depthAt?, hquote, hdepth]
      simp [Nesting.start, isQuote]
    rw [closingFrom_append hpassed, closingFrom, if_pos ⟨rfl, hcloses⟩]
    simp

/-- **No partner** is found if nothing behind the parenthesis is closed without having been opened
there. -/
theorem closingFrom_group_eq_none_iff (hn : n.quote = none) :
    closingFrom n.depth (n.step '(') s = none ↔ (Nesting.start.after s).underflow = false :=
  closingFrom_eq_none_iff.trans (everyOpen_group_iff (above_group hn) (Int.le_refl 0) rfl)

/-! ## Matching parentheses -/

theorem matchingParen?_of_drop {c : Char} {rest : List Char} (h : s.drop i = c :: rest) :
    matchingParen? s i =
      if c = '(' ∧ (Nesting.start.after (s.take i)).quote = none then
        (closingFrom (Nesting.start.after (s.take i)).depth
          ((Nesting.start.after (s.take i)).step c) rest).map (· + (i + 1))
      else none := by
  rw [matchingParen?, h]

/-- Where a parenthesis is opened, its partner is looked for behind it. -/
theorem matchingParen?_append (hs : (Nesting.start.after s).quote = none) (t : List Char) :
    matchingParen? (s ++ '(' :: t) s.length =
      (closingFrom (Nesting.start.after s).depth ((Nesting.start.after s).step '(') t).map
        (· + (s.length + 1)) := by
  rw [matchingParen?_of_drop List.drop_left, List.take_left, if_pos ⟨rfl, hs⟩]

/-- A parenthesis that has a partner stands in the open. -/
theorem exists_of_matchingParen?_eq_some {close : Nat} (h : matchingParen? s i = some close) :
    ∃ a b, s = a ++ '(' :: b ∧ a.length = i ∧ (Nesting.start.after a).quote = none := by
  cases hdrop : s.drop i with
  | nil =>
    rw [matchingParen?, hdrop] at h
    cases h
  | cons c rest =>
    rw [matchingParen?_of_drop hdrop] at h
    split_ifs at h with hc
    obtain ⟨rfl, hquote⟩ := hc
    have hlength := congrArg List.length hdrop
    rw [List.length_drop, List.length_cons] at hlength
    refine ⟨s.take i, rest, ?_, List.length_take_of_le (by omega), hquote⟩
    rw [← hdrop, List.take_append_drop]

/-- **Matching parentheses.** The one that is found is the partner of the other. -/
theorem matchingParen?_eq_some_iff {close : Nat} :
    matchingParen? s i = some close ↔
      ∃ a inner t, s = a ++ '(' :: inner ++ ')' :: t ∧ a.length = i ∧
        (a ++ '(' :: inner).length = close ∧ (Nesting.start.after a).quote = none ∧
        IsClosed inner := by
  have hlength (a inner : List Char) :
      (a ++ '(' :: inner).length = inner.length + (a.length + 1) := by
    rw [List.length_append, List.length_cons]
    omega
  constructor
  · intro h
    obtain ⟨a, b, rfl, rfl, hquote⟩ := exists_of_matchingParen?_eq_some h
    rw [matchingParen?_append hquote, Option.map_eq_some_iff] at h
    obtain ⟨j, hj, rfl⟩ := h
    obtain ⟨inner, t, rfl, rfl, hinner⟩ := (closingFrom_group_iff hquote).mp hj
    refine ⟨a, inner, t, ?_, rfl, hlength a inner, hquote, hinner⟩
    rw [List.append_assoc, List.cons_append]
  · rintro ⟨a, inner, t, rfl, rfl, rfl, hquote, hinner⟩
    rw [List.append_assoc, List.cons_append, matchingParen?_append hquote,
      (closingFrom_group_iff hquote).mpr ⟨inner, t, rfl, rfl, hinner⟩, hlength]
    rfl

/-! ## A group at the front -/

/-- **A group is closed behind the closed text in it.** -/
theorem matchingParen?_group (hs : IsClosed s) (t : List Char) :
    matchingParen? ('(' :: s ++ ')' :: t) 0 = some (s.length + 1) :=
  matchingParen?_eq_some_iff.mpr ⟨[], s, t, rfl, rfl, rfl, rfl, hs⟩

/-- **What is in a group** is closed by itself. -/
theorem exists_of_matchingParen? {close : Nat} (h : matchingParen? s 0 = some close) :
    ∃ inner t, s = '(' :: inner ++ ')' :: t ∧ close = inner.length + 1 ∧ IsClosed inner := by
  obtain ⟨a, inner, t, rfl, hlength, rfl, -, hinner⟩ := matchingParen?_eq_some_iff.mp h
  obtain rfl := List.eq_nil_of_length_eq_zero hlength
  exact ⟨inner, t, rfl, rfl, hinner⟩

/-- **A group at the front of a balanced text** is closed in it. -/
theorem exists_matchingParen? (h : isBalanced s = true) (hs : s.head? = some '(') :
    ∃ close, matchingParen? s 0 = some close := by
  obtain ⟨rest, rfl⟩ := List.head?_eq_some_iff.mp hs
  have hmatching := matchingParen?_append (s := []) rfl rest
  rw [List.nil_append, List.length_nil] at hmatching
  cases hclosing : closingFrom 0 (Nesting.start.step '(') rest with
  | some j => exact ⟨_, hmatching.trans (congrArg (Option.map (· + 1)) hclosing)⟩
  | none =>
    -- then the group is still open at the end
    have hunderflow := (closingFrom_group_eq_none_iff (n := .start) rfl).mp hclosing
    have hdeep := depth_after_nonneg (Int.le_refl 0) hunderflow
    have hdepth := ((above_group (n := .start) rfl).after rest).depth
    rw [isBalanced, after_cons, isLevel, Bool.and_eq_true, beq_iff_eq] at h
    have hone : Nesting.start.depth + 1 = 1 := rfl
    omega

/-- What is in a group of a loose text is loose. -/
theorem IsLoose.of_group {inner t : List Char} (h : IsLoose ('(' :: inner ++ ')' :: t))
    (hinner : IsClosed inner) : IsLoose inner where
  closed := hinner
  loose := by
    have hbelow : Above (-1) (Nesting.start.step '(') .start := ⟨rfl, rfl⟩
    have hrest := (of_everyOpen_cons h.loose).2
    exact everyOpen_above hbelow (everyOpen_left (fun _ _ _ => isLooseAt_of_append) hrest)

end StoredRoutine.Text
