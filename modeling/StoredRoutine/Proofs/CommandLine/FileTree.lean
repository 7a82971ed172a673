import StoredRoutine.CommandLine.FileTree
import StoredRoutine.Error
import StoredRoutine.Proofs.Entries

/-!
# Files that are created

What changes in a tree when a file is created: at its place lies the file, and at every other place
lies what lay there before. That holds because the directory of the file has to be there already,
and with it all that lead to it.

Where a path leads is not changed either, so that what was written under a path is what is read
under it.
-/

namespace StoredRoutine.CommandLine.FileTree

/-! ## What lies at a place -/

section Put

variable (t : FileTree) (place : Place) (bytes : List UInt8)

@[simp] theorem put_put (bytes' : List UInt8) :
    (t.put place bytes).put place bytes' = t.put place bytes' := by
  simp [put, List.filter_append, List.filter_filter]

/-- At the place lies the file. -/
@[simp] theorem entry?_put_self : entry? (t.put place bytes) place = some (.file bytes) := by
  rw [ entry?, put, List.lookup_append, Entries.lookup_filter (· ≠ place), List.lookup_cons_self]
  simp

end Put

variable {t : FileTree} {here place : Place} {last : String}

/-- On the way to something there are directories, unless something else is listed there. -/
theorem entry?_of_isPrefix {p q : Place} {e : Entry} (hq : t.entry? q = some e) (hpq : p <+: q)
    (hne : p ≠ q) (hp : t.entries.lookup p = none) : t.entry? p = some .directory := by
  have hany : t.entries.any (fun e => p.isPrefixOf e.1) = true := by
    rw [List.any_eq_true]
    rw [ entry?] at hq
    split at hq
    · next e' hlookup =>
      -- `q` is listed itself
      obtain ⟨_, _, hentries, -⟩ := List.lookup_eq_some_iff.mp hlookup
      refine ⟨(q, e'), ?_, List.isPrefixOf_iff_prefix.mpr hpq⟩
      rw [hentries]
      exact List.mem_append_right _ List.mem_cons_self
    · split at hq
      · next hany =>
        rcases Bool.or_eq_true _ _ ▸ hany with hnil | hany
        · rw [List.isEmpty_iff] at hnil
          subst hnil
          exact absurd (List.prefix_nil.mp hpq) hne
        · obtain ⟨entry, hentry, hprefix⟩ := List.any_eq_true.mp hany
          exact ⟨entry, hentry,
            List.isPrefixOf_iff_prefix.mpr (hpq.trans (List.isPrefixOf_iff_prefix.mp hprefix))⟩
      · cases hq
  rw [ entry?, hp, hany, Bool.or_true, if_pos rfl]

/-- At every other place lies what lay there before. -/
theorem entry?_put_of_ne {other : Place} (hother : other ≠ here ++ [last])
    (hhere : t.entry? here = some .directory) (bytes : List UInt8) :
    entry? (t.put (here ++ [last]) bytes) other = t.entry? other := by
  have hlookup : (t.put (here ++ [last]) bytes).entries.lookup other = t.entries.lookup other := by
    rw [put, List.lookup_append, Entries.lookup_filter (· ≠ here ++ [last]),
      if_pos (decide_eq_true hother), List.lookup_cons, beq_false_of_ne hother]
    simp
  cases hlisted : t.entries.lookup other with
  | some e => simp only [ entry?, hlookup, hlisted]
  | none =>
    by_cases hprefix : other <+: here
    · -- a directory on the way to the file
      have hbefore : t.entry? other = some .directory := by
        by_cases heq : other = here
        · rw [heq, hhere]
        · exact entry?_of_isPrefix hhere hprefix heq hlisted
      rw [hbefore]
      refine entry?_of_isPrefix (entry?_put_self t _ bytes) ?_ hother (hlookup.trans hlisted)
      exact hprefix.trans (List.prefix_append here [last])
    · -- not on the way to the file
      have hnot : ¬ other <+: here ++ [last] := by
        rw [List.prefix_concat_iff]
        rintro (h | h)
        · exact hother h
        · exact hprefix h
      have hany : (t.put (here ++ [last]) bytes).entries.any (fun e => other.isPrefixOf e.1) =
          t.entries.any (fun e => other.isPrefixOf e.1) := by
        rw [Bool.eq_iff_iff, List.any_eq_true, List.any_eq_true]
        constructor
        · rintro ⟨entry, hentry, h⟩
          rcases List.mem_append.mp hentry with hentry | hentry
          · exact ⟨entry, (List.mem_filter.mp hentry).1, h⟩
          · rw [List.mem_singleton] at hentry
            subst hentry
            exact absurd (List.isPrefixOf_iff_prefix.mp h) hnot
        · rintro ⟨entry, hentry, h⟩
          refine ⟨entry, List.mem_append_left _ (List.mem_filter.mpr ⟨hentry, ?_⟩), h⟩
          simp only [ne_eq, decide_not, Bool.not_eq_true', decide_eq_false_iff_not]
          intro heq
          exact hnot (heq ▸ List.isPrefixOf_iff_prefix.mp h)
      simp only [ entry?, hlookup, hlisted, hany]

/-! ## Where a path leads -/

theorem enter_eq_ok {here next : Place} {segment : String} (h : t.enter here segment = .ok next) :
    t.entry? here = some .directory ∧ next = here.next segment := by
  rw [enter] at h
  split at h
  · cases h
  · next hdirectory =>
    split at h
    · cases h
    · cases h
      exact ⟨hdirectory, rfl⟩
  · cases h

/-- The characters between the slashes of a path. -/
def parts : List Char → List (List Char)
  | [] => [[]]
  | c :: cs => if c = '/' then [] :: parts cs else (parts cs).modifyHead (c :: ·)

theorem segments_eq (path : String) : segments path = (parts path.toList).map String.ofList := by
  rw [segments]
  congr 1
  induction path.toList with
  | nil => rfl
  | cons c cs ih => rw [List.foldr_cons, ih, parts]

theorem parts_ne_nil (cs : List Char) : parts cs ≠ [] := by
  cases cs with
  | nil => exact List.cons_ne_nil _ _
  | cons c cs =>
    rw [parts]
    split
    · exact List.cons_ne_nil _ _
    · simpa using parts_ne_nil cs

theorem getLast?_parts_ne {cs : List Char} (hne : cs ≠ []) (hslash : cs.getLast? ≠ some '/') :
    (parts cs).getLast? ≠ some [] := by
  induction cs with
  | nil => exact absurd rfl hne
  | cons c cs ih =>
    obtain ⟨part, others, hparts⟩ := List.exists_cons_of_ne_nil (parts_ne_nil cs)
    rw [parts, hparts]
    cases cs with
    | nil =>
      have hc : c ≠ '/' := fun h => hslash (by rw [h]; rfl)
      cases hparts
      simp [hc]
    | cons d cs =>
      rw [List.getLast?_cons_cons] at hslash
      have ih := ih (List.cons_ne_nil _ _) hslash
      rw [hparts] at ih
      split
      · rwa [List.getLast?_cons_cons]
      · cases others with
        | nil => simp
        | cons other others => rwa [List.modifyHead_cons, List.getLast?_cons_cons]

/-- A path that does not end in a slash ends in a name. -/
theorem getLast?_segments_ne {path : String} (hne : path ≠ "")
    (hslash : path.toList.getLast? ≠ some '/') : (segments path).getLast? ≠ some "" := by
  rw [segments_eq, List.getLast?_map]
  intro h
  obtain ⟨part, hpart, heq⟩ := Option.map_eq_some_iff.mp h
  have hnil : part = [] := by simpa using heq
  exact getLast?_parts_ne (by simpa using hne) hslash (hnil ▸ hpart)

/-- Nothing is taken off behind the name that a path ends in. -/
theorem segments_eq_concat {path name : String} {front : List String}
    (hdrop : (segments path).reverse.dropWhile (· = "") = name :: front) (hne : path ≠ "")
    (hslash : path.toList.getLast? ≠ some '/') :
    segments path = front.reverse ++ [name] ∧ name ≠ "" := by
  have hlast := getLast?_segments_ne hne hslash
  rw [← List.head?_reverse] at hlast
  cases hreverse : (segments path).reverse with
  | nil =>
    rw [hreverse] at hdrop
    cases hdrop
  | cons segment others =>
    rw [hreverse] at hdrop hlast
    have hsegment : segment ≠ "" := fun h => hlast (congrArg some h)
    rw [List.dropWhile_cons_of_neg (by simpa using hsegment)] at hdrop
    cases hdrop
    refine ⟨?_, hsegment⟩
    rw [← List.reverse_reverse (segments path), hreverse, List.reverse_cons]

/-- A file can be created in a directory that is there already, where no directory lies. That is
where the path leads as well. -/
theorem of_creatable_eq_ok {path : String} (h : t.creatable path = .ok place) :
    ∃ here last, place = here ++ [last] ∧ t.entry? here = some .directory ∧
      t.entry? place ≠ some .directory ∧ checkPath path = .ok () ∧
      (segments path).foldlM t.enter (t.start path) = .ok place := by
  rw [creatable] at h
  obtain ⟨_, hcheck, h⟩ := bind_eq_ok.mp h
  split at h
  · cases h
  · next last front hdrop =>
    obtain ⟨here, hhere, h⟩ := bind_eq_ok.mp h
    by_cases hname : last = "." ∨ last = ".." ∨ path.toList.getLast? = some '/'
    · rw [if_pos hname] at h
      cases h
    · rw [if_neg hname] at h
      obtain ⟨place', hplace, h⟩ := bind_eq_ok.mp h
      by_cases hdirectory : t.entry? place' = some .directory
      · rw [if_pos hdirectory] at h
        cases h
      · rw [if_neg hdirectory] at h
        cases h
        simp only [not_or] at hname
        obtain ⟨hdot, hdots, hslash⟩ := hname
        have hpath : path ≠ "" := by
          rintro rfl
          cases hcheck
        obtain ⟨hsegments, hlast⟩ := segments_eq_concat hdrop hpath hslash
        rw [List.foldlM_append] at hhere
        obtain ⟨here', hfront, hhere⟩ := bind_eq_ok.mp hhere
        obtain ⟨_, hempty, hhere⟩ := bind_eq_ok.mp hhere
        cases hhere
        obtain ⟨hfound, hnext⟩ := enter_eq_ok hempty
        have hsame : here = here' := by rw [hnext, Place.next, if_pos (.inl rfl)]
        subst hsame
        obtain ⟨-, hnext⟩ := enter_eq_ok hplace
        refine ⟨here, last, ?_, hfound, hdirectory, hcheck, ?_⟩
        · rw [hnext, Place.next, if_neg (by simp [hlast, hdot]), if_neg hdots]
        · rw [hsegments, List.foldlM_append]
          exact bind_eq_ok.mpr ⟨here, hfront, bind_eq_ok.mpr ⟨place, hplace, rfl⟩⟩

/-- A path that leads somewhere leads there still when a file has been created. -/
theorem foldlM_enter_put (hhere : t.entry? here = some .directory)
    (hplace : t.entry? (here ++ [last]) ≠ some .directory) (bytes : List UInt8)
    {names : List String} {p q : Place} (h : names.foldlM t.enter p = .ok q) :
    names.foldlM (t.put (here ++ [last]) bytes).enter p = .ok q := by
  induction names generalizing p with
  | nil => exact h
  | cons name names ih =>
    obtain ⟨next, hnext, h⟩ := bind_eq_ok.mp h
    refine bind_eq_ok.mpr ⟨next, ?_, ih h⟩
    have hp : p ≠ here ++ [last] := fun h => hplace (h ▸ (enter_eq_ok hnext).1)
    rw [enter, entry?_put_of_ne hp hhere]
    exact hnext

/-- What was written under a path is what is read under it. -/
theorem read_put {path : String} (h : t.creatable path = .ok place) (bytes : List UInt8) :
    (t.put place bytes).read path = .ok bytes := by
  obtain ⟨here, last, rfl, hhere, hplace, hcheck, hleads⟩ := of_creatable_eq_ok h
  have hleads := foldlM_enter_put hhere hplace bytes hleads
  refine bind_eq_ok.mpr ⟨(), hcheck, bind_eq_ok.mpr ⟨here ++ [last], hleads, ?_⟩⟩
  rw [entry?_put_self]

end StoredRoutine.CommandLine.FileTree
