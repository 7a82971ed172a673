import StoredRoutine.Package

/-!
# Outcomes that are changed

The outcome of a step may be changed on either side, the value or the error (`mapBoth`). Where each
of two steps in sequence, or each step of many, is changed in this way, so is what comes of all of
them.

Two sources whose outcomes are the same up to such a change have the same members and the same
errors, up to the change (`Report.map_eq_of_outcomes`).
-/

namespace StoredRoutine

/-- The outcome with the value changed, or the error. -/
def mapBoth {ε δ α β : Type} (onError : ε → δ) (onValue : α → β) (x : Except ε α) : Except δ β :=
  (x.map onValue).mapError onError

variable {ε δ α β γ κ : Type} {onError : ε → δ} {onValue : α → β}

/-- Two steps in sequence, both of which are changed. -/
theorem mapBoth_bind {x : Except ε α} {next : α → Except ε γ} {next' : β → Except δ κ}
    {onNext : γ → κ} (h : ∀ a, next' (onValue a) = mapBoth onError onNext (next a)) :
    mapBoth onError onValue x >>= next' = mapBoth onError onNext (x >>= next) := by
  cases x with
  | error e => rfl
  | ok a => exact h a

/-- Many steps, each of which is changed. -/
theorem mapM_map {step : γ → Except ε α} {step' : κ → Except δ β} {change : γ → κ}
    (h : ∀ c, step' (change c) = mapBoth onError onValue (step c)) (items : List γ) :
    (items.map change).mapM step' = mapBoth onError (List.map onValue) (items.mapM step) := by
  induction items with
  | nil => rfl
  | cons c items ih =>
    rw [List.map_cons, List.mapM_cons, List.mapM_cons, h]
    refine mapBoth_bind fun a => ?_
    rw [ih]
    exact mapBoth_bind fun _ => rfl

namespace Report

/-- **Members and errors** are the same, up to a change, if the outcomes are. -/
theorem map_eq_of_outcomes {onError : Error → δ} {onMember : Member → β} {types : TypeTable}
    {name s s' : String} (h : (outcomes types name s).map (mapBoth onError onMember) =
      (outcomes types name s').map (mapBoth onError onMember)) :
    (ofSource types name s).package.members.map onMember =
        (ofSource types name s').package.members.map onMember ∧
      (ofSource types name s).errors.map onError =
        (ofSource types name s').errors.map onError := by
  have hmembers (s : String) : (ofSource types name s).package.members.map onMember =
      ((outcomes types name s).map (mapBoth onError onMember)).filterMap Except.toOption := by
    simp only [ofSource, List.map_filterMap, List.filterMap_map]
    congr 1
    funext outcome
    cases outcome <;> rfl
  have herrors (s : String) : (ofSource types name s).errors.map onError =
      ((outcomes types name s).map (mapBoth onError onMember)).filterMap fun
        | .ok _ => none
        | .error e => some e := by
    simp only [ofSource, List.map_filterMap, List.filterMap_map]
    congr 1
    funext outcome
    cases outcome <;> rfl
  exact ⟨by rw [hmembers, hmembers, h], by rw [herrors, herrors, h]⟩

end Report

end StoredRoutine
