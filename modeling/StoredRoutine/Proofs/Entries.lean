/-!
# Entries under keys

The files of a tree and the slots of a session are lists of entries, each under its key, of which
the first one counts. When entries are left out by their keys, or one of them gets something else
to hold, that is seen under these keys and under no other.
-/

namespace StoredRoutine.Entries

variable {K A : Type} [BEq K] [LawfulBEq K]

/-- **Entries are left out** by their keys. -/
theorem lookup_filter (keep : K → Bool) (key : K) (entries : List (K × A)) :
    (entries.filter fun entry => keep entry.1).lookup key =
      if keep key then entries.lookup key else none := by
  induction entries with
  | nil => rw [List.filter_nil, List.lookup_nil, ite_self]
  | cons entry entries ih =>
    obtain ⟨k, a⟩ := entry
    rw [List.filter_cons]
    by_cases hk : key = k
    · subst hk
      cases hkeep : keep key with
      | true => rw [if_pos rfl, if_pos rfl, List.lookup_cons_self, List.lookup_cons_self]
      | false =>
        rw [hkeep] at ih
        exact ih
    · have hskip : ∀ entries : List (K × A), List.lookup key ((k, a) :: entries) =
          entries.lookup key := by
        intro entries
        rw [List.lookup_cons, beq_false_of_ne hk]
      rw [hskip, ← ih]
      cases keep k with
      | true => exact hskip _
      | false => rfl

/-- **One of the entries is given something else to hold.** -/
theorem lookup_exchange [DecidableEq K] (entries : List (K × A)) (place key : K) (now : A) :
    (entries.map fun (k, a) => if k = place then (k, now) else (k, a)).lookup key =
      (entries.lookup key).map fun a => if key = place then now else a := by
  induction entries with
  | nil => rfl
  | cons entry entries ih =>
    obtain ⟨k, a⟩ := entry
    have hkey : (if k = place then (k, now) else (k, a)).1 = k := by split <;> rfl
    rw [List.map_cons, List.lookup_cons, List.lookup_cons, ih, hkey]
    by_cases hk : key = k
    · subst hk
      rw [beq_self_eq_true, Option.map_some]
      dsimp only
      split <;> rfl
    · rw [beq_false_of_ne hk]

end StoredRoutine.Entries
