import StoredRoutine.Proofs.Text.Blank
import StoredRoutine.Proofs.Text.Nesting
import StoredRoutine.Text.Word

/-!
# The quoted sections of a text

A text without comments is cut into quoted sections and what stands between them. `closeQuote?`
finds the end of one section, whose doubled quotes do not close it, and `textSections` are all the
sections that are closed, each with its two quotes.

What a section holds closes it whatever follows, but the quote itself (`ClosesQuote`). So the
sections of two texts put together are those of the one and then those of the other, if the first
ends in the open and its last section is not opened again by the second (`textSections_append`).
-/

namespace StoredRoutine.Text

/-! ## One section -/

/-- Behind the quote that opens a section: what the section holds, up to the quote that closes it,
and what follows. A doubled quote does not close the section. Nothing, if it is never closed. -/
def closeQuote? (quote : Char) : List Char → Option (List Char × List Char)
  | [] => none
  | [c] => if c = quote then some ([c], []) else none
  | c :: d :: rest =>
    if c = quote then
      if d = quote then
        (closeQuote? quote rest).map fun (inside, behind) => (c :: d :: inside, behind)
      else some ([c], d :: rest)
    else (closeQuote? quote (d :: rest)).map fun (inside, behind) => (c :: inside, behind)

theorem closeQuote?_cons {quote c : Char} (hc : c ≠ quote) (s : List Char) :
    closeQuote? quote (c :: s) =
      (closeQuote? quote s).map fun (inside, behind) => (c :: inside, behind) := by
  cases s with
  | nil => simp [closeQuote?, hc]
  | cons d rest => rw [closeQuote?, if_neg hc]

/-- **What a section holds**, with the quote that closes it. -/
structure ClosesQuote (quote : Char) (inside : List Char) : Prop where
  /-- The section ends there, unless the quote is doubled. -/
  ends : ∀ t : List Char, t.head? ≠ some quote → closeQuote? quote (inside ++ t) = some (inside, t)
  last : inside.getLast? = some quote
  /-- Nothing is quoted behind it. -/
  quote : ∀ n : Nesting, n.quote = some quote → (n.after inside).quote = none

namespace ClosesQuote

variable {quote : Char} {inside : List Char}

theorem single (quote : Char) : ClosesQuote quote [quote] where
  ends t ht := by
    cases t with
    | nil => rw [List.append_nil, closeQuote?, if_pos rfl]
    | cons d rest =>
      have hd : ¬ d = quote := fun hd => ht (congrArg some hd)
      rw [List.singleton_append, closeQuote?, if_pos rfl, if_neg hd]
  last := rfl
  quote n hn := by
    rw [Nesting.after_cons, Nesting.after_nil, Nesting.quote_step_of_some hn, if_pos rfl]

theorem cons (h : ClosesQuote quote inside) {c : Char} (hc : c ≠ quote) :
    ClosesQuote quote (c :: inside) where
  ends t ht := by
    rw [List.cons_append, closeQuote?_cons hc, h.ends t ht]
    rfl
  last := by
    rw [List.getLast?_cons, h.last]
    rfl
  quote n hn := by
    refine h.quote _ ?_
    rw [Nesting.quote_step_of_some hn, if_neg hc]

/-- A doubled quote closes the section and opens it again. -/
theorem doubled (h : ClosesQuote quote inside) (hquote : isQuote quote = true) :
    ClosesQuote quote (quote :: quote :: inside) where
  ends t ht := by
    rw [List.cons_append, List.cons_append, closeQuote?, if_pos rfl, if_pos rfl, h.ends t ht]
    rfl
  last := by
    rw [List.getLast?_cons, List.getLast?_cons, h.last]
    rfl
  quote n hn := by
    have hclosed : (n.step quote).quote = none := by
      rw [Nesting.quote_step_of_some hn, if_pos rfl]
    refine h.quote _ ?_
    rw [Nesting.quote_step_of_none hclosed, if_pos hquote]

end ClosesQuote

section Close

variable {quote : Char} (hquote : isQuote quote = true)

include hquote

/-- **What is found behind a quote** is what its section holds, and what follows that. -/
theorem of_closeQuote?_eq_some {s inside behind : List Char}
    (h : closeQuote? quote s = some (inside, behind)) :
    s = inside ++ behind ∧ behind.head? ≠ some quote ∧ ClosesQuote quote inside := by
  fun_induction closeQuote? quote s generalizing inside with
  | case1 => cases h
  | case2 =>
    cases h
    exact ⟨rfl, nofun, .single quote⟩
  | case3 => cases h
  | case4 rest ih =>
    obtain ⟨⟨inside', behind'⟩, hrest, heq⟩ := Option.map_eq_some_iff.mp h
    cases heq
    obtain ⟨rfl, hbehind, hcloses⟩ := ih hrest
    exact ⟨rfl, hbehind, hcloses.doubled hquote⟩
  | case5 d rest hd =>
    cases h
    exact ⟨rfl, fun hhead => hd (Option.some.inj hhead), .single quote⟩
  | case6 c d rest hc ih =>
    obtain ⟨⟨inside', behind'⟩, hrest, heq⟩ := Option.map_eq_some_iff.mp h
    cases heq
    obtain ⟨hparts, hbehind, hcloses⟩ := ih hrest
    exact ⟨congrArg (c :: ·) hparts, hbehind, hcloses.cons hc⟩

/-- A section that is never closed goes on to the end. -/
theorem quote_after_of_closeQuote?_eq_none {s : List Char} (h : closeQuote? quote s = none)
    {n : Nesting} (hn : n.quote = some quote) : (n.after s).quote = some quote := by
  fun_induction closeQuote? quote s generalizing n with
  | case1 => exact hn
  | case2 => cases h
  | case3 c hc =>
    rw [Nesting.after_cons, Nesting.after_nil, Nesting.quote_step_of_some hn, if_neg hc]
  | case4 rest ih =>
    have hclosed : (n.step quote).quote = none := by
      rw [Nesting.quote_step_of_some hn, if_pos rfl]
    refine ih (Option.map_eq_none_iff.mp h) ?_
    rw [Nesting.quote_step_of_none hclosed, if_pos hquote]
  | case5 => cases h
  | case6 c d rest hc ih =>
    refine ih (Option.map_eq_none_iff.mp h) ?_
    rw [Nesting.quote_step_of_some hn, if_neg hc]

end Close

/-- What holds no quote closes none. -/
theorem closeQuote?_eq_none {quote : Char} {s : List Char} (h : quote ∉ s) :
    closeQuote? quote s = none := by
  induction s with
  | nil => rfl
  | cons c s ih =>
    obtain ⟨hc, hs⟩ := List.ne_and_not_mem_of_not_mem_cons h
    rw [closeQuote?_cons hc.symm, ih hs, Option.map_none]

theorem closeQuote?_append_eq_none {quote : Char} {s t : List Char}
    (h : closeQuote? quote s = none) (ht : quote ∉ t) : closeQuote? quote (s ++ t) = none := by
  fun_induction closeQuote? quote s with
  | case1 => exact closeQuote?_eq_none ht
  | case2 => cases h
  | case3 c hc =>
    rw [List.singleton_append, closeQuote?_cons hc, closeQuote?_eq_none ht, Option.map_none]
  | case4 rest ih =>
    rw [List.cons_append, List.cons_append, closeQuote?, if_pos rfl, if_pos rfl,
      ih (Option.map_eq_none_iff.mp h), Option.map_none]
  | case5 => cases h
  | case6 c d rest hc ih =>
    rw [List.cons_append, closeQuote?_cons hc, ih (Option.map_eq_none_iff.mp h), Option.map_none]

/-- A section that is closed is as long as what closes it, and any other goes on to the end. -/
theorem quotedLength_eq (quote : Char) (s : List Char) :
    quotedLength quote s = ((closeQuote? quote s).map (·.1.length)).getD s.length := by
  fun_induction closeQuote? quote s with
  | case1 => rfl
  | case2 => rfl
  | case3 c hc => rfl
  | case4 rest ih =>
    rw [quotedLength, if_neg (not_not_intro rfl), if_pos rfl, ih]
    cases closeQuote? quote rest with
    | none => exact Nat.add_comm 2 _
    | some found => exact Nat.add_comm 2 _
  | case5 d rest hd => rw [quotedLength, if_neg (not_not_intro rfl), if_neg hd]; rfl
  | case6 c d rest hc ih =>
    rw [quotedLength, if_pos hc, ih]
    cases closeQuote? quote (d :: rest) with
    | none => exact Nat.add_comm 1 _
    | some found => exact Nat.add_comm 1 _

/-- **A section that something follows** is closed there, and is not opened again. -/
theorem closesQuote_of_drop_ne_nil {quote : Char} (hquote : isQuote quote = true) {s : List Char}
    (h : s.drop (quotedLength quote s) ≠ []) :
    ClosesQuote quote (s.take (quotedLength quote s)) ∧
      (s.drop (quotedLength quote s)).head? ≠ some quote := by
  rw [quotedLength_eq] at h ⊢
  cases hclose : closeQuote? quote s with
  | none =>
    rw [hclose] at h
    exact absurd List.drop_length h
  | some found =>
    obtain ⟨inside, behind⟩ := found
    obtain ⟨rfl, hbehind, hcloses⟩ := of_closeQuote?_eq_some hquote hclose
    rw [Option.map_some, Option.getD_some, List.take_left, List.drop_left]
    exact ⟨hcloses, hbehind⟩

/-! ## All sections -/

/-- A section takes at least the quote that closes it. -/
theorem length_of_closeQuote? {quote : Char} (hquote : isQuote quote = true)
    {s inside behind : List Char} (h : closeQuote? quote s = some (inside, behind)) :
    behind.length < s.length := by
  obtain ⟨rfl, -, hcloses⟩ := of_closeQuote?_eq_some hquote h
  have hpos : 0 < inside.length := by
    refine List.length_pos_iff.mpr ?_
    rintro rfl
    cases hcloses.last
  rw [List.length_append]
  exact Nat.lt_add_of_pos_left hpos

/-- **The closed quoted sections** of a text without comments, in order, each with its quotes. -/
def textSections (s : List Char) : List (List Char) :=
  match s with
  | [] => []
  | c :: rest =>
    if isQuote c then
      match _h : closeQuote? c rest with
      | none => []
      | some (inside, behind) => (c :: inside) :: textSections behind
    else textSections rest
termination_by s.length
decreasing_by
  · exact Nat.lt_succ_of_lt (length_of_closeQuote? ‹_› _h)
  · exact Nat.lt_succ_self _

@[simp] theorem textSections_nil : textSections [] = [] := by rw [textSections]

/-- What stands between the sections does not matter. -/
theorem textSections_cons {c : Char} (hc : isQuote c = false) (s : List Char) :
    textSections (c :: s) = textSections s := by
  rw [textSections, hc]
  rfl

theorem textSections_quoted {quote : Char} (hquote : isQuote quote = true) {inside t : List Char}
    (h : ClosesQuote quote inside) (ht : t.head? ≠ some quote) :
    textSections (quote :: (inside ++ t)) = (quote :: inside) :: textSections t := by
  rw [textSections, if_pos hquote]
  split
  · next hnone =>
    rw [h.ends t ht] at hnone
    cases hnone
  · next hsome =>
    rw [h.ends t ht] at hsome
    cases hsome
    rfl

theorem textSections_unclosed {quote : Char} (hquote : isQuote quote = true) {s : List Char}
    (h : closeQuote? quote s = none) : textSections (quote :: s) = [] := by
  rw [textSections, if_pos hquote]
  split
  · rfl
  · next hsome =>
    rw [h] at hsome
    cases hsome

/-- **The sections of two texts**, the first of which ends in the open, if no section ends where
another one begins with the same quote. -/
theorem textSections_append {n : Nesting} (hn : n.quote = none) {a b : List Char}
    (ha : (n.after a).quote = none)
    (hab : ∀ quote, a.getLast? = some quote → b.head? = some quote → isQuote quote = false) :
    textSections (a ++ b) = textSections a ++ textSections b := by
  fun_induction textSections a generalizing n with
  | case1 => rfl
  | case2 c rest hquote hnone =>
    have hopened : (n.step c).quote = some c := by
      rw [Nesting.quote_step_of_none hn, if_pos hquote]
    rw [Nesting.after_cons, quote_after_of_closeQuote?_eq_none hquote hnone hopened] at ha
    cases ha
  | case3 c rest hquote inside behind hsome ih =>
    obtain ⟨rfl, hbehind, hcloses⟩ := of_closeQuote?_eq_some hquote hsome
    have hopened : (n.step c).quote = some c := by
      rw [Nesting.quote_step_of_none hn, if_pos hquote]
    have hrest : (((n.step c).after inside).after behind).quote = none := by
      rw [← Nesting.after_append]
      exact ha
    -- the quote that closes the section is not doubled by the second text
    have hnext : (behind ++ b).head? ≠ some c := by
      cases behind with
      | cons d others => exact hbehind
      | nil =>
        intro hhead
        have hlast : (c :: (inside ++ [])).getLast? = some c := by
          rw [List.append_nil, List.getLast?_cons, hcloses.last]
          rfl
        rw [hab c hlast hhead] at hquote
        cases hquote
    have hagain : ∀ quote, behind.getLast? = some quote → b.head? = some quote →
        isQuote quote = false := by
      intro quote hlast
      refine hab quote ?_
      rw [← List.cons_append, List.getLast?_append, hlast]
      rfl
    rw [List.cons_append, List.append_assoc, textSections_quoted hquote hcloses hnext,
      ih (hcloses.quote _ hopened) hrest hagain, List.cons_append]
  | case4 c rest hquote ih =>
    have hopen := eq_false_of_ne_true hquote
    have hnext : (n.step c).quote = none := by
      rw [Nesting.quote_step_of_none hn, if_neg hquote]
    rw [List.cons_append, textSections_cons hopen]
    refine ih hnext ha fun quote hlast => hab quote ?_
    rw [List.getLast?_cons, hlast]
    rfl

/-- Behind the last quote there are no more sections. -/
theorem textSections_append_of_no_quote (a : List Char) {b : List Char}
    (hb : ∀ c ∈ b, isQuote c = false) : textSections (a ++ b) = textSections a := by
  fun_induction textSections a with
  | case1 =>
    rw [List.nil_append]
    induction b with
    | nil => exact textSections_nil
    | cons c b ih =>
      obtain ⟨hc, hb⟩ := List.forall_mem_cons.mp hb
      rw [textSections_cons hc, ih hb]
  | case2 c rest hquote hnone =>
    refine textSections_unclosed hquote (closeQuote?_append_eq_none hnone fun hmem => ?_)
    rw [hb c hmem] at hquote
    cases hquote
  | case3 c rest hquote inside behind hsome ih =>
    obtain ⟨rfl, hbehind, hcloses⟩ := of_closeQuote?_eq_some hquote hsome
    have hnext : (behind ++ b).head? ≠ some c := by
      cases behind with
      | cons d others => exact hbehind
      | nil =>
        intro hhead
        rw [hb c (List.mem_of_mem_head? hhead)] at hquote
        cases hquote
    rw [List.cons_append, List.append_assoc, textSections_quoted hquote hcloses hnext, ih]
  | case4 c rest hquote ih =>
    rw [List.cons_append, textSections_cons (eq_false_of_ne_true hquote), ih]

end StoredRoutine.Text
