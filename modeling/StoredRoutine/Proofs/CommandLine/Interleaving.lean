import StoredRoutine.Proofs.CommandLine.Parts

/-!
# The order of the parts

What a command line says is said by its parts, whatever their order, but for the files and for
settings that are given more than once. So the parts can be written in any order that keeps the
files in theirs (`parse_interleaving`).
-/

namespace StoredRoutine.CommandLine

/-! ## Orders -/

theorem asked_eq_of_perm {parts others : List Part} (h : others.Perm parts) :
    asked others = asked parts := by
  induction h with
  | nil => rfl
  | cons part _ ih => rw [asked, asked, ih]
  | swap part other rest =>
    simp only [asked]
    omega
  | trans _ _ ih ih' => exact ih.trans ih'

theorem Faultless.of_perm {parts others : List Part} (h : Faultless parts)
    (hperm : others.Perm parts) : Faultless others where
  readable part hpart := h.readable part (hperm.mem_iff.mp hpart)
  fits := Nat.lt_of_le_of_lt (Nat.le_of_eq (asked_eq_of_perm hperm)) h.fits

/-- **The order of the parts does not matter** but for the files, if no setting is repeated. -/
theorem ofParts_eq_of_perm {parts others : List Part} (hperm : others.Perm parts)
    (hfiles : files others = files parts) (honce : ∀ s, (values s parts).length ≤ 1) :
    Options.ofParts others = .ofParts parts := by
  have hvalues : ∀ s, values s others = values s parts := by
    intro s
    have hvaluesPerm : (values s others).Perm (values s parts) := hperm.filterMap _
    have hlength := honce s
    cases hs : values s parts with
    | nil =>
      rw [hs] at hvaluesPerm
      exact hvaluesPerm.eq_nil
    | cons value rest =>
      rw [hs, List.length_cons] at hlength
      obtain rfl : rest = [] := List.eq_nil_of_length_eq_zero (by omega)
      rw [hs] at hvaluesPerm
      exact List.perm_singleton.mp hvaluesPerm
  have hany : ∀ f, others.any (Part.isFlag f) = parts.any (Part.isFlag f) :=
    fun f => hperm.any_eq
  simp only [Options.ofParts, hfiles, hvalues, hany, asked_eq_of_perm hperm]

/-! ## Main statement -/

/-- **Options commute.** Parts whose formats are valid are accepted if what their flags ask for can be
counted, with the files in order and the last value of each setting, and if no setting is repeated,
so is every other order of the parts that keeps the files in theirs, with the same result. If it
cannot be counted, the reading ends at the first flag for which there is no room, whatever follows.
Behind any parts, a setting without a value is refused, and so is a name that means nothing, whatever
follows it. There are no other command lines. -/
theorem parse_interleaving (parts : List Part) :
    (AreReadable parts → asked parts < UInt8.size →
      Options.parse (written parts) = .ok (.ofParts parts) ∧
        ∀ others : List Part, others.Perm parts → files others = files parts →
          (∀ s, (values s parts).length ≤ 1) →
            Options.parse (written others) = .ok (.ofParts parts)) ∧
    (AreReadable parts → UInt8.size ≤ asked parts → ∃ front part back flag,
      parts = front ++ part :: back ∧ part.arguments = [flag] ∧ asked front < UInt8.size ∧
        UInt8.size ≤ asked front + part.weight ∧
        ∀ rest, Options.parse (written parts ++ rest) = .error (.overflow flag)) ∧
    (∀ setting : Setting, ∀ name ∈ setting.names,
      ∃ failure, Options.parse (written parts ++ [name]) = .error failure ∧
        (AreReadable parts → asked parts < UInt8.size → failure = .missingValue name)) ∧
    (∀ argument, IsUnknown argument → ∀ rest,
      ∃ failure, Options.parse (written parts ++ argument :: rest) = .error failure ∧
        (AreReadable parts → asked parts < UInt8.size → failure = .unknownOption argument)) ∧
    ∀ arguments, ∃ parts tail, arguments = written parts ++ tail ∧ IsTail tail := by
  refine ⟨fun hreadable hfits => ?_, exists_overflow, fun setting name hname => ?_,
    fun argument hunknown rest => ?_, exists_parts⟩
  · have hparts : Faultless parts := ⟨hreadable, hfits⟩
    refine ⟨parse_of_faultless hparts, fun others hperm hfiles honce => ?_⟩
    rw [parse_of_faultless (hparts.of_perm hperm), ofParts_eq_of_perm hperm hfiles honce]
  · obtain ⟨failure, hfails, hsame⟩ :=
      exists_failure_of_parseFrom (parseFrom_missingValue hname) parts
    exact ⟨failure, hfails, fun hreadable hfits => hsame ⟨hreadable, hfits⟩⟩
  · obtain ⟨failure, hfails, hsame⟩ :=
      exists_failure_of_parseFrom (parseFrom_unknownOption hunknown rest) parts
    exact ⟨failure, hfails, fun hreadable hfits => hsame ⟨hreadable, hfits⟩⟩

/-- Values that look like options and like files, in two orders; what is refused behind them; and
256 flags in front of a file, of which the last one is too much. -/
theorem parse_interleaving_of_misleading_values :
    let o : Options := ⟨["b.pks", "a.pks"], some "--strict", some .messagePack, some "-o", false, 2,
      true, false⟩
    let line := ["-c", "--strict", "b.pks", "-vv", "--output", "-o", "a.pks", "-h", "-f", "MsgPack"]
    Options.parse line = .ok o ∧
      Options.parse ["b.pks", "-f", "MsgPack", "--output", "-o", "-h", "a.pks", "-vv", "-c",
        "--strict"] = .ok o ∧
      Options.parse (line ++ ["-o"]) = .error (.missingValue "-o") ∧
      Options.parse (line ++ ["--o", "-x"]) = .error (.unknownOption "--o") ∧
      Options.parse (List.replicate 256 "-v" ++ ["good.pks"]) = .error (.overflow "-v") := by
  intro o line
  let config : Part := .setting .config "-c" (by decide) "--strict"
  let b : Part := .file "b.pks" (by decide)
  let verbose : Part := .flag .veryVerbose "-vv" (by decide)
  let output : Part := .setting .output "--output" (by decide) "-o"
  let a : Part := .file "a.pks" (by decide)
  let help : Part := .flag .help "-h" (by decide)
  let format : Part := .setting .format "-f" (by decide) "MsgPack"
  let parts := [config, b, verbose, output, a, help, format]
  have hreadable : AreReadable parts := by
    intro part hpart value hvalue
    simp only [parts, List.mem_cons, List.not_mem_nil, or_false] at hpart
    obtain rfl | rfl | rfl | rfl | rfl | rfl | rfl := hpart
    all_goals cases hvalue
    exact ⟨.messagePack, by decide⟩
  have hfits : asked parts < UInt8.size := by decide
  have ho : Options.ofParts parts = o := by decide
  have honce : ∀ s, (values s parts).length ≤ 1 := by
    intro s
    cases s <;> decide
  have hperm : [b, format, output, help, a, verbose, config].Perm parts := by decide
  have hdash : IsUnknown "--o" :=
    ⟨by decide, fun f => by cases f <;> decide, fun s => by cases s <;> decide⟩
  obtain ⟨haccepted, -, hmissing, hunknown, -⟩ := parse_interleaving parts
  obtain ⟨hline, hothers⟩ := haccepted hreadable hfits
  obtain ⟨_, hlast, hfailure⟩ := hmissing .output "-o" (by decide)
  obtain ⟨_, hdashed, hfailure'⟩ := hunknown "--o" hdash ["-x"]
  obtain rfl := hfailure hreadable hfits
  obtain rfl := hfailure' hreadable hfits
  rw [ho] at hline hothers
  refine ⟨hline, hothers _ hperm rfl honce, hlast, hdashed, ?_⟩
  let once : Part := .flag .verbose "-v" (by decide)
  let loud : List Part := List.replicate 256 once
  have hloud : AreReadable loud := areReadable_replicate (isReadable_of_arguments rfl) 256
  have hfull : UInt8.size ≤ asked loud := by decide +kernel
  have hwritten : written loud = List.replicate 256 "-v" := by decide +kernel
  obtain ⟨-, hoverflow, -⟩ := parse_interleaving loud
  obtain ⟨front, part, back, flag, hparts, hflag, -, -, hfails⟩ := hoverflow hloud hfull
  have hpart : part ∈ loud := by
    rw [hparts]
    simp
  obtain rfl := List.eq_of_mem_replicate hpart
  cases hflag
  rw [← hwritten]
  exact hfails ["good.pks"]

end StoredRoutine.CommandLine
