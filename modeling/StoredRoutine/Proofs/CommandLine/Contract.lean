import StoredRoutine.Proofs.CommandLine.Parts
import StoredRoutine.Proofs.CommandLine.Steps

/-!
# What a command line does

A command line reads first and writes last. If anything it asks for cannot be read, nothing is
written at all. Otherwise the catalog goes, as a whole, to the one destination there is: the file
that was asked for, or the standard output. A command line that asks for more logging than can be
counted ends the program before anything else is done.

`run_contract` says so of every command line on every machine, whatever is taken for a valid
configuration.
-/

namespace StoredRoutine.CommandLine

/-! ## What is asked for -/

namespace Options

/-- Is the catalog of some files asked for, and not a text of the program's own? -/
def asksForCatalog (o : Options) : Prop := o.help = false ∧ o.version = false

end Options

/-- **Command lines that cannot be carried out**, because of what they say or of what there is to
read. -/
inductive Refused (reader : ConfigReader) (t : FileTree) (arguments : List String) : Prop where
  | arguments {f : Failure} (h : Options.parse arguments = .error f) (hf : f.aborts = false)
  | noFiles {o : Options} (h : Options.parse arguments = .ok o) (ho : o.asksForCatalog)
    (hfiles : o.files = [])
  | config {o : Options} (h : Options.parse arguments = .ok o) (ho : o.asksForCatalog)
    (hconfig : o.config? reader t = none)
  | specification {o : Options} (h : Options.parse arguments = .ok o) (ho : o.asksForCatalog)
    {path : String} (hpath : path ∈ o.files) (htext : t.text? path = none)

/-- Reading a command line fails for good reason unless it asks for too much. -/
theorem aborts_eq_false {arguments : List String} {f : Failure}
    (h : Options.parse arguments = .error f) (hnot : ¬ Overflows arguments) : f.aborts = false := by
  cases f with
  | overflow flag => exact absurd ((parse_overflow_iff arguments).mp ⟨flag, h⟩) hnot
  | unknownOption | missingValue | noFiles | error => rfl

theorem not_overflows_of_parse {arguments : List String} {o : Options}
    (h : Options.parse arguments = .ok o) : ¬ Overflows arguments := by
  intro hover
  obtain ⟨flag, hfails⟩ := (parse_overflow_iff arguments).mpr hover
  cases h.symm.trans hfails

theorem refused_iff {reader : ConfigReader} {t : FileTree} {arguments : List String} {o : Options}
    (hparse : Options.parse arguments = .ok o) (ho : o.asksForCatalog) :
    Refused reader t arguments ↔
      o.files = [] ∨ o.config? reader t = none ∨ ∃ path ∈ o.files, t.text? path = none := by
  constructor
  · intro h
    cases h with
    | arguments h _ =>
      rw [hparse] at h
      cases h
    | noFiles h _ hfiles =>
      cases hparse.symm.trans h
      exact .inl hfiles
    | config h _ hconfig =>
      cases hparse.symm.trans h
      exact .inr (.inl hconfig)
    | specification h _ hpath htext =>
      cases hparse.symm.trans h
      exact .inr (.inr ⟨_, hpath, htext⟩)
  · rintro (hfiles | hconfig | ⟨path, hpath, htext⟩)
    · exact .noFiles hparse ho hfiles
    · exact .config hparse ho hconfig
    · exact .specification hparse ho hpath htext

namespace Machine

variable {s : Machine} {reader : ConfigReader} {o : Options} {c : Config}
  {specifications : List Specification} {arguments : List String}

/-! ## Running -/

/-- What is left to do when everything has been read. -/
theorem run_generate (hfiles : o.files ≠ []) (hconfig : o.config? reader s.files = some c)
    (hspecifications : o.specifications? s.files = some specifications) :
    let catalog := Catalog.generate s.workers c specifications
    ∃ text, (generate reader host o).run.run s =
      (do
        writeCatalog host (o.format.getD c.format) o.output catalog
        if o.strict && !catalog.isClean then
          ExceptT.lift (host.stderr
            (red (Nat.repr catalog.diagnostics.length ++ " declaration(s) failed") ++ "\n"))
          return 1
        return 0 : Job UInt32).run.run { s with stderr := text } := by
  intro catalog
  obtain ⟨text, htext⟩ := shows_forM (s := s)
    (fun s d => shows_stderr (s := s) (showDiagnostic d)) catalog.diagnostics
  refine ⟨text, ?_⟩
  rw [generate, if_neg (by simpa using hfiles), run_bind_of_ok (gives_readConfig hconfig),
    run_bind_of_ok (gives_mapM (fun _ _ => gives_readSpecification) hspecifications)]
  refine (run_bind_of_ok gives_workers).trans ?_
  exact run_bind_of_ok htext

/-- Bytes that can be delivered are, and the exit code tells whether all is well. -/
theorem run_generate_of_some {after : Machine} (hfiles : o.files ≠ [])
    (hconfig : o.config? reader s.files = some c)
    (hspecifications : o.specifications? s.files = some specifications)
    (h : s.deliver ((Catalog.generate s.workers c specifications).encode (o.format.getD c.format)) o.output =
      some after) :
    ∃ text, (generate reader host o).run.run s =
      (.ok (if o.strict && !(Catalog.generate s.workers c specifications).isClean then 1 else 0),
        { after with stderr := text }) := by
  obtain ⟨text, hrun⟩ := run_generate hfiles hconfig hspecifications
  have hdeliver := (deliver_stderr text _ _).trans (congrArg _ h)
  rw [hrun, run_bind_of_ok (run_writeCatalog hdeliver)]
  split
  · exact ⟨_, rfl⟩
  · exact ⟨text, rfl⟩

/-- Bytes that cannot be delivered change nothing. -/
theorem run_generate_of_none (hfiles : o.files ≠ []) (hconfig : o.config? reader s.files = some c)
    (hspecifications : o.specifications? s.files = some specifications)
    (h : s.deliver ((Catalog.generate s.workers c specifications).encode (o.format.getD c.format)) o.output =
      none) :
    ∃ e text, e.aborts = false ∧
      (generate reader host o).run.run s = (.error e, { s with stderr := text }) := by
  obtain ⟨text, hrun⟩ := run_generate hfiles hconfig hspecifications
  obtain ⟨e, hshown, he⟩ := fails_writeCatalog ((deliver_stderr text _ _).trans (congrArg _ h))
  exact ⟨e, text, hshown, hrun.trans (run_bind_of_error he)⟩

/-- Without files, a configuration and all specifications nothing happens. -/
theorem fails_generate (h : o.files = [] ∨ o.config? reader s.files = none ∨
    ∃ path ∈ o.files, s.files.text? path = none) : s.Fails (generate reader host o) := by
  rw [generate]
  by_cases hfiles : o.files = []
  · rw [if_pos (by simpa using hfiles)]
    exact ⟨_, rfl, rfl⟩
  · rw [if_neg (by simpa using hfiles)]
    cases hconfig : o.config? reader s.files with
    | none => exact (fails_readConfig hconfig).bind
    | some c =>
      obtain hfiles' | hconfig' | ⟨path, hpath, htext⟩ := h
      · exact absurd hfiles' hfiles
      · rw [hconfig] at hconfig'
        cases hconfig'
      · refine (gives_readConfig hconfig).fails_bind (Fails.bind ?_)
        refine fails_mapM (fun _ _ => gives_readSpecification) (fun _ => fails_readSpecification)
          hpath ?_
        rw [htext]
        rfl

/-- What a command line does, but for showing why it failed. -/
def job (reader : ConfigReader) (arguments : List String) : Job UInt32 := do
  let o ← ExceptT.mk (pure (Options.parse arguments))
  if o.help then ExceptT.lift (say host helpText)
  else if o.version then ExceptT.lift (say host versionText)
  else generate reader host o

theorem run_eq (s : Machine) (reader : ConfigReader) (arguments : List String) :
    s.run reader arguments = ((job reader arguments).run >>= fun
      | .ok code => pure code
      | .error failure => report host failure : StateM Machine UInt32).run s := rfl

theorem run_of_ok {code : UInt32} {after : Machine}
    (h : (job reader arguments).run.run s = (.ok code, after)) :
    s.run reader arguments = (code, after) := by
  rw [run_eq, StateT.run_bind, h]
  rfl

/-- A failure is shown by the program. -/
theorem run_of_error {e : Failure} {after : Machine} (hshown : e.aborts = false)
    (h : (job reader arguments).run.run s = (.error e, after)) :
    ∃ text, s.run reader arguments = (1, { after with stderr := text }) := by
  rw [run_eq, StateT.run_bind, h]
  change ∃ text, (report host e).run after = _
  rw [report, hshown]
  exact ⟨_, rfl⟩

/-- **A program that is ended on the spot** leaves nothing behind at all. -/
theorem run_of_aborts {e : Failure} (haborts : e.aborts = true)
    (hparse : Options.parse arguments = .error e) :
    s.run reader arguments = (abortCode, { s with aborted := some e }) := by
  have hjob : (job reader arguments).run.run s = (.error e, s) := by
    rw [job, hparse]
    exact run_bind_of_error rfl
  rw [run_eq, StateT.run_bind, hjob]
  change (report host e).run s = _
  rw [report, haborts]
  rfl

theorem job_run_of_parse (hparse : Options.parse arguments = .ok o) :
    (job reader arguments).run.run s =
      (if o.help then ExceptT.lift (say host helpText)
        else if o.version then ExceptT.lift (say host versionText)
        else generate reader host o : Job UInt32).run.run s := by
  rw [job, hparse]
  exact run_bind_of_ok rfl

theorem job_run_of_asksForCatalog (hparse : Options.parse arguments = .ok o)
    (ho : o.asksForCatalog) : (job reader arguments).run.run s = (generate reader host o).run.run s := by
  rw [job_run_of_parse hparse, ho.1, ho.2]
  rfl

/-- A command line that cannot be carried out leaves nothing behind but a message. -/
theorem run_of_refused (h : Refused reader s.files arguments) :
    (s.run reader arguments).1 = 1 ∧ (s.run reader arguments).2.visible = s.visible := by
  have hfails : s.Fails (job reader arguments) := by
    have hgenerate : ∀ {o : Options}, Options.parse arguments = .ok o → o.asksForCatalog →
        s.Fails (job reader arguments) := by
      intro o hparse ho
      obtain ⟨e, hshown, he⟩ := fails_generate ((refused_iff hparse ho).mp h)
      exact ⟨e, hshown, (job_run_of_asksForCatalog hparse ho).trans he⟩
    cases h with
    | @arguments f hparse hshown =>
      rw [job, hparse]
      exact Fails.bind ⟨f, hshown, rfl⟩
    | noFiles hparse ho | config hparse ho | specification hparse ho => exact hgenerate hparse ho
  obtain ⟨e, hshown, he⟩ := hfails
  obtain ⟨text, htext⟩ := run_of_error hshown he
  rw [htext]
  exact ⟨rfl, rfl⟩

/-- The texts of the program's own go to the standard output. -/
theorem run_of_statement {text : String} (hparse : Options.parse arguments = .ok o)
    (htext : o.help = true ∧ text = helpText ∨
      o.help = false ∧ o.version = true ∧ text = versionText) :
    s.run reader arguments = (0, { s with stdout := s.stdout ++ Document.utf8 text }) := by
  refine run_of_ok ((job_run_of_parse hparse).trans ?_)
  obtain ⟨hhelp, rfl⟩ | ⟨hhelp, hversion, rfl⟩ := htext
  · rw [hhelp]
    rfl
  · rw [hhelp, hversion]
    rfl

/-- Whatever cannot be read makes the command line a refused one. -/
theorem exists_read_of_not_refused (h : ¬ Refused reader s.files arguments)
    (hparse : Options.parse arguments = .ok o) (ho : o.asksForCatalog) :
    o.files ≠ [] ∧ ∃ c specifications, o.config? reader s.files = some c ∧
      o.specifications? s.files = some specifications := by
  rw [refused_iff hparse ho] at h
  simp only [not_or, not_exists, not_and] at h
  obtain ⟨hfiles, hconfig, htexts⟩ := h
  obtain ⟨c, hc⟩ := Option.ne_none_iff_exists'.mp hconfig
  obtain ⟨specifications, hspecifications⟩ := exists_mapM_eq_some
    (fun path => (s.files.text? path).map (Specification.ofText (stem path))) o.files
    fun path hpath => by
      obtain ⟨text, htext⟩ := Option.ne_none_iff_exists'.mp (htexts path hpath)
      exact ⟨_, by rw [htext]; rfl⟩
  exact ⟨hfiles, c, specifications, hc, hspecifications⟩

end Machine

/-! ## Main statement -/

/-- **One destination.** What there is afterwards, given the bytes that have to be written and where
they have to go: they have gone there and nowhere else, and the exit code is the given one; or they
cannot go there, nothing has changed, and the exit code is 1. -/
inductive Delivered (s : Machine) (bytes : List UInt8) (verdict : UInt32) :
    Option String → UInt32 → Machine → Prop where
  | stdout {after : Machine} (hfiles : after.files = s.files)
    (hstdout : after.stdout = s.stdout ++ bytes) : Delivered s bytes verdict none verdict after
  | file {path : String} {place : Place} {after : Machine}
    (hcreatable : s.files.creatable path = .ok place)
    (hplain : ∀ d, s.files.entry? place ≠ some (.device d))
    (hfile : after.files.entry? place = some (.file bytes))
    (hread : after.files.read path = .ok bytes)
    (hothers : ∀ other ≠ place, after.files.entry? other = s.files.entry? other)
    (hstdout : after.stdout = s.stdout) : Delivered s bytes verdict (some path) verdict after
  | uncreatable {path : String} {e : FileError} {after : Machine}
    (hcreatable : s.files.creatable path = .error e) (hvisible : after.visible = s.visible) :
    Delivered s bytes verdict (some path) 1 after
  | device {path : String} {place : Place} {d : Device} {after : Machine}
    (hcreatable : s.files.creatable path = .ok place)
    (hdevice : s.files.entry? place = some (.device d)) (hfull : d ≠ .full)
    (hfiles : after.files = s.files)
    (hstdout : after.stdout = s.stdout ++ if d = .stdout then bytes else []) :
    Delivered s bytes verdict (some path) verdict after
  | fullDevice {path : String} {place : Place} {after : Machine}
    (hcreatable : s.files.creatable path = .ok place)
    (hdevice : s.files.entry? place = some (.device .full)) (hvisible : after.visible = s.visible) :
    Delivered s bytes verdict (some path) 1 after

namespace Machine

variable {s after after' : Machine} {bytes : List UInt8} {output : Option String}

theorem delivered_of_deliver (h : s.deliver bytes output = some after)
    (hafter : after'.visible = after.visible) (verdict : UInt32) :
    Delivered s bytes verdict output verdict after' := by
  obtain ⟨hfiles, hstdout⟩ := Prod.mk.inj hafter
  cases output with
  | none =>
    cases h
    exact .stdout hfiles hstdout
  | some path =>
    rw [deliver] at h
    cases hcreatable : s.files.creatable path with
    | error e =>
      rw [hcreatable] at h
      cases h
    | ok place =>
      simp only [hcreatable] at h
      split at h
      · next hentry =>
        cases h
        exact .device hcreatable hentry (by decide) hfiles (hstdout.trans (List.append_nil _).symm)
      · cases h
      · next hentry =>
        cases h
        exact .device hcreatable hentry (by decide) hfiles hstdout
      · next hnull hfull hout =>
        cases h
        obtain ⟨here, last, rfl, hhere, -⟩ := FileTree.of_creatable_eq_ok hcreatable
        refine .file hcreatable ?_ ?_ ?_ ?_ hstdout
        · rintro (_ | _ | _)
          · exact hnull
          · exact hfull
          · exact hout
        · rw [hfiles]
          exact FileTree.entry?_put_self _ _ _
        · rw [hfiles]
          exact FileTree.read_put hcreatable bytes
        · intro other hother
          rw [hfiles]
          exact FileTree.entry?_put_of_ne hother hhere bytes

theorem delivered_of_none (h : s.deliver bytes output = none) (hafter : after.visible = s.visible)
    (verdict : UInt32) : Delivered s bytes verdict output 1 after := by
  cases output with
  | none => cases h
  | some path =>
    rw [deliver] at h
    cases hcreatable : s.files.creatable path with
    | error e => exact .uncreatable hcreatable hafter
    | ok place =>
      simp only [hcreatable] at h
      split at h
      · cases h
      · next hentry => exact .fullDevice hcreatable hentry hafter
      · cases h
      · cases h

/-- What a command line comes to that is not refused. -/
theorem delivered_run {arguments : List String} {o : Options} {c : Config}
    {specifications : List Specification} (hparse : Options.parse arguments = .ok o)
    (ho : o.asksForCatalog) (hfiles : o.files ≠ []) (hconfig : o.config? reader s.files = some c)
    (hspecifications : o.specifications? s.files = some specifications) :
    let catalog := Catalog.generate s.workers c specifications
    let bytes := catalog.encode (o.format.getD c.format)
    let verdict := if o.strict = true ∧ catalog.diagnostics ≠ [] then 1 else 0
    Delivered s bytes verdict o.output (s.run reader arguments).1 (s.run reader arguments).2 ∧
      (s.run reader arguments).2.visible = ((s.deliver bytes o.output).getD s).visible := by
  intro catalog bytes verdict
  cases h : s.deliver bytes o.output with
  | some after =>
    obtain ⟨text, hrun⟩ := run_generate_of_some hfiles hconfig hspecifications h
    have hverdict : (if o.strict && !catalog.isClean then 1 else 0) = verdict := by
      simp [verdict, Catalog.isClean]
    rw [run_of_ok ((job_run_of_asksForCatalog hparse ho).trans hrun), hverdict]
    refine ⟨delivered_of_deliver h ?_ verdict, rfl⟩
    rfl
  | none =>
    obtain ⟨e, text, hshown, hrun⟩ := run_generate_of_none hfiles hconfig hspecifications h
    obtain ⟨text', htext⟩ := run_of_error hshown
      ((job_run_of_asksForCatalog hparse ho).trans hrun)
    rw [htext]
    refine ⟨delivered_of_none h ?_ verdict, rfl⟩
    rfl

/-- Strict mode makes no difference to what there is to see. -/
theorem visible_run_congr {arguments arguments' : List String} {o o' : Options}
    (hparse : Options.parse arguments = .ok o) (hparse' : Options.parse arguments' = .ok o')
    (hsame : { o' with strict := o.strict } = o) :
    (s.run reader arguments').2.visible = (s.run reader arguments).2.visible := by
  obtain ⟨strict, rfl⟩ : ∃ strict, o = { o' with strict := strict } := ⟨o.strict, hsame.symm⟩
  cases hhelp : o'.help with
  | true =>
    rw [run_of_statement hparse (.inl ⟨hhelp, rfl⟩), run_of_statement hparse' (.inl ⟨hhelp, rfl⟩)]
  | false =>
    cases hversion : o'.version with
    | true =>
      rw [run_of_statement hparse (.inr ⟨hhelp, hversion, rfl⟩),
        run_of_statement hparse' (.inr ⟨hhelp, hversion, rfl⟩)]
    | false =>
      have ho : o'.asksForCatalog := ⟨hhelp, hversion⟩
      by_cases h : Refused reader s.files arguments'
      · -- what makes a command line a refused one does not depend on strict mode
        have h' : Refused reader s.files arguments :=
          (refused_iff hparse ho).mpr ((refused_iff hparse' ho).mp h)
        rw [(run_of_refused h).2, (run_of_refused h').2]
      · obtain ⟨hfiles, c, specifications, hconfig, hspecifications⟩ :=
          exists_read_of_not_refused h hparse' ho
        rw [(delivered_run hparse' ho hfiles hconfig hspecifications).2,
          (delivered_run hparse ho hfiles hconfig hspecifications).2]

/-- **What a command line does**, whatever is taken for a configuration. If it asks for more logging
than can be counted, the program is ended on the spot, and nothing is written anywhere. If it is
refused, the exit code is 1, and neither the files nor the standard output change. Otherwise, if it
asks for a catalog, everything it names can be read, the specifications in the order of the
arguments, and the bytes of the catalog go to one destination. The exit code then tells of rejected
declarations in strict mode, which makes no other difference. -/
theorem run_contract (s : Machine) (reader : ConfigReader) (arguments : List String) :
    (Overflows arguments →
      ∃ flag, s.run reader arguments = (abortCode, { s with aborted := some (.overflow flag) })) ∧
    (Refused reader s.files arguments →
      (s.run reader arguments).1 = 1 ∧ (s.run reader arguments).2.visible = s.visible) ∧
    (¬ Overflows arguments → ¬ Refused reader s.files arguments →
      ∃ o, Options.parse arguments = .ok o ∧ o.files.Sublist arguments ∧ (o.asksForCatalog →
      ∃ c specifications, o.config? reader s.files = some c ∧
        o.specifications? s.files = some specifications ∧
        let catalog := Catalog.generate s.workers c specifications
        let bytes := catalog.encode (o.format.getD c.format)
        let verdict := if o.strict = true ∧ catalog.diagnostics ≠ [] then 1 else 0
        Delivered s bytes verdict o.output (s.run reader arguments).1 (s.run reader arguments).2)) ∧
    ∀ arguments' o o', Options.parse arguments = .ok o → Options.parse arguments' = .ok o' →
      { o' with strict := o.strict } = o →
      (s.run reader arguments').2.visible = (s.run reader arguments).2.visible := by
  refine ⟨fun h => ?_, run_of_refused, fun hfits h => ?_, fun _ _ _ => visible_run_congr⟩
  · obtain ⟨flag, hparse⟩ := (parse_overflow_iff arguments).mpr h
    exact ⟨flag, run_of_aborts rfl hparse⟩
  · cases hparse : Options.parse arguments with
    | error f => exact absurd (.arguments hparse (aborts_eq_false hparse hfits)) h
    | ok o =>
      have hsublist : o.files.Sublist arguments := by
        obtain ⟨parts, rfl, rfl⟩ := exists_written_of_parse hparse
        exact files_sublist parts
      refine ⟨o, rfl, hsublist, fun ho => ?_⟩
      obtain ⟨hfiles, c, specifications, hconfig, hspecifications⟩ :=
        exists_read_of_not_refused h hparse ho
      exact ⟨c, specifications, hconfig, hspecifications,
        (delivered_run hparse ho hfiles hconfig hspecifications).1⟩

/-- A procedure and another one of an unknown type, in strict mode; a file that is not there; and
256 flags in front of the file that is. -/
theorem run_contract_of_strict :
    let text := "procedure P; procedure Q(x xmltype);"
    let s := Machine.ofFiles [("a.pks", some (Document.utf8 text))]
    let catalog := Catalog.generate s.workers .default [⟨"a", text⟩]
    let arguments := ["a.pks", "-o", "out", "--strict"]
    let loud := List.replicate 256 "-v" ++ ["a.pks"]
    (Refused Config.parse s.files ["b.pks"] ∧ (s.run Config.parse ["b.pks"]).1 = 1 ∧
      (s.run Config.parse ["b.pks"]).2.visible = s.visible) ∧
    (¬ Overflows arguments ∧ ¬ Refused Config.parse s.files arguments ∧
      (s.run Config.parse arguments).1 = 1 ∧
      (s.run Config.parse arguments).2.files.read "out" = .ok (catalog.encode .json) ∧
      (s.run Config.parse arguments).2.stdout = []) ∧
    (s.run Config.parse ["a.pks", "-o", "out"]).2.visible =
      (s.run Config.parse arguments).2.visible ∧
    Overflows loud ∧ (s.run Config.parse loud).1 = 101 ∧
      (s.run Config.parse loud).2.visible = s.visible := by
  intro text s catalog arguments loud
  let o : Options := ⟨["a.pks"], none, none, some "out", true, 0, false, false⟩
  let o' : Options := { o with files := ["b.pks"], output := none, strict := false }
  have hparse : Options.parse arguments = .ok o := rfl
  have hparse' : Options.parse ["b.pks"] = .ok o' := rfl
  have ho : o.asksForCatalog := ⟨rfl, rfl⟩
  have hcreatable : s.files.creatable "out" = .ok ["tmp", "work", "out"] := rfl
  have hentry : s.files.entry? ["tmp", "work", "out"] = none := by decide +kernel
  have hspecifications : o.specifications? s.files = some [⟨"a", text⟩] := by decide +kernel
  have hdiagnostics : catalog.diagnostics ≠ [] := by decide +kernel
  have hrefused : Refused Config.parse s.files ["b.pks"] :=
    (refused_iff hparse' ⟨rfl, rfl⟩).mpr (.inr (.inr ⟨"b.pks", by decide, by decide +kernel⟩))
  have hnot : ¬ Refused Config.parse s.files arguments := by
    rw [refused_iff hparse ho]
    decide +kernel
  have hfits : ¬ Overflows arguments := not_overflows_of_parse hparse
  have hloud : Overflows loud := by
    let once : Part := .flag .verbose "-v" (by decide)
    have hreadable : once.IsReadable := isReadable_of_arguments rfl
    exact ⟨List.replicate 256 once, ["a.pks"], by decide +kernel,
      areReadable_replicate hreadable 256, by decide +kernel⟩
  have hcatalog : Catalog.generate s.workers .default [⟨"a", text⟩] = catalog := rfl
  have hstdout : s.stdout = [] := rfl
  have hmissing := (run_contract s Config.parse ["b.pks"]).2.1 hrefused
  obtain ⟨flag, haborted⟩ := (run_contract s Config.parse loud).1 hloud
  clear_value s catalog
  obtain ⟨-, -, hdelivered, hstrict⟩ := run_contract s Config.parse arguments
  refine ⟨⟨hrefused, hmissing⟩, ⟨hfits, hnot, ?_⟩,
    hstrict ["a.pks", "-o", "out"] o { o with strict := false } hparse rfl rfl, hloud, ?_⟩
  · obtain ⟨o₁, hparse₁, -, h⟩ := hdelivered hfits hnot
    cases hparse.symm.trans hparse₁
    obtain ⟨c, specifications, hc, hs, h⟩ := h ho
    cases hc
    cases hspecifications.symm.trans hs
    rw [hcatalog] at h
    dsimp only at h
    rw [if_pos ⟨rfl, hdiagnostics⟩] at h
    revert h
    rcases s.run Config.parse arguments with ⟨code, after⟩
    intro h
    cases h with
    | file _ _ _ hread _ hsame => exact ⟨rfl, hread, hsame.trans hstdout⟩
    | uncreatable h => cases hcreatable.symm.trans h
    | device h hdevice | fullDevice h hdevice =>
      cases hcreatable.symm.trans h
      cases hentry.symm.trans hdevice
  · rw [haborted]
    exact ⟨rfl, rfl⟩

end Machine

end StoredRoutine.CommandLine
