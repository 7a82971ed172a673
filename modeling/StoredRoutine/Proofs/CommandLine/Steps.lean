import StoredRoutine.CommandLine.Machine
import StoredRoutine.Proofs.CommandLine.FileTree

/-!
# The steps of a command line

What a command line reads is said without a machine: by `Options.config?` and
`Options.specifications?`, from the files alone and from what a reader of configurations finds in
them. Where bytes go is said by `Machine.deliver`.

A step that reads gives what can be read, or fails, and leaves the machine as it is. A step that
writes leaves it as `Machine.deliver` says, or fails and leaves it as it is.
-/

namespace StoredRoutine.CommandLine

/-! ## What is read -/

/-- The text of the file that a path leads to, if there is one and it is in UTF-8. -/
def FileTree.text? (t : FileTree) (path : String) : Option String :=
  match t.read path with
  | .ok bytes => String.fromUTF8? bytes.toByteArray
  | .error _ => none

namespace Options

/-- The configuration that the options name, if its file can be read and is valid. -/
def config? (o : Options) (reader : ConfigReader) (t : FileTree) : Option Config :=
  match o.config with
  | .none => some .default
  | some path => (t.text? path).bind fun text => (reader text).toOption

/-- The specifications that the options name, if they can all be read. -/
def specifications? (o : Options) (t : FileTree) : Option (List Specification) :=
  o.files.mapM fun path => (t.text? path).map (.ofText (stem path))

end Options

namespace Machine

/-! ## What is written -/

/-- What there is to see of a machine afterwards, apart from the messages on the error stream. -/
def visible (s : Machine) : FileTree × List UInt8 := (s.files, s.stdout)

/-- The machine after bytes have gone to their destination, if they can go there at all. -/
def deliver (s : Machine) (bytes : List UInt8) : Option String → Option Machine
  | none => some { s with stdout := s.stdout ++ bytes }
  | some path =>
    match s.files.creatable path with
    | .error _ => none
    | .ok place =>
      match s.files.entry? place with
      | some (.device .null) => some s
      | some (.device .full) => none
      | some (.device .stdout) => some { s with stdout := s.stdout ++ bytes }
      | _ => some { s with files := s.files.put place bytes }

/-! ## Steps -/

/-- A step of a command line on a machine. -/
abbrev Job (α : Type) := ExceptT Failure (StateM Machine) α

section Steps

variable {α β : Type} {x : Job α} {f : α → Job β} {s after : Machine}

theorem run_bind_of_ok {a : α} (h : x.run.run s = (.ok a, after)) :
    (x >>= f).run.run s = (f a).run.run after := by
  rw [ExceptT.run_bind, StateT.run_bind, h]
  rfl

theorem run_bind_of_error {e : Failure} (h : x.run.run s = (.error e, after)) :
    (x >>= f).run.run s = (.error e, after) := by
  rw [ExceptT.run_bind, StateT.run_bind, h]
  rfl

/-- The step gives a result, and the machine stays as it is. -/
def Gives (s : Machine) (x : Job α) (a : α) : Prop := x.run.run s = (.ok a, s)

/-- The step fails without ending the program, and the machine stays as it is. -/
def Fails (s : Machine) (x : Job α) : Prop :=
  ∃ e : Failure, e.aborts = false ∧ x.run.run s = (.error e, s)

theorem Gives.bind {a : α} {b : β} (h : s.Gives x a) (hf : s.Gives (f a) b) :
    s.Gives (x >>= f) b :=
  (run_bind_of_ok h).trans hf

theorem Gives.fails_bind {a : α} (h : s.Gives x a) (hf : s.Fails (f a)) : s.Fails (x >>= f) := by
  obtain ⟨e, hshown, he⟩ := hf
  exact ⟨e, hshown, (run_bind_of_ok h).trans he⟩

theorem Fails.bind (h : s.Fails x) : s.Fails (x >>= f) := by
  obtain ⟨e, hshown, he⟩ := h
  exact ⟨e, hshown, run_bind_of_error he⟩

theorem gives_mapM {g : α → Job β} {g? : α → Option β}
    (h : ∀ a b, g? a = some b → s.Gives (g a) b) {as : List α} {bs : List β}
    (hs : as.mapM g? = some bs) : s.Gives (as.mapM g) bs := by
  induction as generalizing bs with
  | nil =>
    cases hs
    rfl
  | cons a as ih =>
    rw [List.mapM_cons] at hs ⊢
    obtain ⟨b, hb, hs⟩ := Option.bind_eq_some_iff.mp hs
    obtain ⟨bs, hbs, hs⟩ := Option.bind_eq_some_iff.mp hs
    cases hs
    exact (h a b hb).bind ((ih hbs).bind rfl)

theorem fails_mapM {g : α → Job β} {g? : α → Option β}
    (hsome : ∀ a b, g? a = some b → s.Gives (g a) b) (hnone : ∀ a, g? a = none → s.Fails (g a))
    {as : List α} {a : α} (ha : a ∈ as) (hfails : g? a = none) : s.Fails (as.mapM g) := by
  induction as with
  | nil => exact absurd ha List.not_mem_nil
  | cons first as ih =>
    rw [List.mapM_cons]
    cases hfirst : g? first with
    | none => exact (hnone first hfirst).bind
    | some b =>
      have has : a ∈ as := by
        rcases List.mem_cons.mp ha with rfl | has
        · rw [hfirst] at hfails
          cases hfails
        · exact has
      exact (hsome first b hfirst).fails_bind (ih has).bind

theorem exists_mapM_eq_some (g? : α → Option β) (as : List α) (h : ∀ a ∈ as, ∃ b, g? a = some b) :
    ∃ bs, as.mapM g? = some bs := by
  induction as with
  | nil => exact ⟨[], rfl⟩
  | cons a as ih =>
    obtain ⟨b, hb⟩ := h a List.mem_cons_self
    obtain ⟨bs, hbs⟩ := ih fun a ha => h a (List.mem_cons_of_mem _ ha)
    exact ⟨b :: bs, by rw [List.mapM_cons, hb, hbs]; rfl⟩

end Steps

variable {s : Machine} {reader : ConfigReader} {o : Options}

/-! ## Reading -/

theorem gives_read {path : String} {bytes : List UInt8} (h : s.files.read path = .ok bytes) :
    s.Gives (ExceptT.lift (host.read path)) (.ok bytes) := by
  change (Except.ok ((s.files.read path).mapError FileError.message), s) = _
  rw [h]
  rfl

theorem gives_read_of_error {path : String} {e : FileError} (h : s.files.read path = .error e) :
    s.Gives (ExceptT.lift (host.read path)) (.error e.message) := by
  change (Except.ok ((s.files.read path).mapError FileError.message), s) = _
  rw [h]
  rfl

theorem gives_readText {path text : String} (h : s.files.text? path = some text)
    (what : String) : s.Gives (readText host what path) text := by
  rw [FileTree.text?] at h
  split at h
  · next bytes hread =>
    refine (gives_read hread).bind ?_
    simp only [h]
    rfl
  · cases h

theorem fails_readText {path : String} (h : s.files.text? path = none) (what : String) :
    s.Fails (readText host what path) := by
  rw [FileTree.text?] at h
  split at h
  · next bytes hread =>
    refine (gives_read hread).fails_bind ?_
    simp only [h]
    exact ⟨_, rfl, rfl⟩
  · next e hread => exact (gives_read_of_error hread).fails_bind ⟨_, rfl, rfl⟩

theorem gives_reader {text : String} {c : Config} (h : (reader text).toOption = some c) :
    s.Gives (ExceptT.mk (pure ((reader text).mapError .error))) c := by
  cases hread : reader text with
  | error e =>
    rw [hread] at h
    cases h
  | ok c' =>
    rw [hread] at h
    cases h
    rfl

theorem fails_reader {text : String} (h : (reader text).toOption = none) :
    s.Fails (ExceptT.mk (pure ((reader text).mapError .error)) : Job Config) := by
  cases hread : reader text with
  | error e => exact ⟨_, rfl, rfl⟩
  | ok c =>
    rw [hread] at h
    cases h

theorem gives_readConfig {c : Config} (h : o.config? reader s.files = some c) :
    s.Gives (readConfig reader host o) { c with format := o.format.getD c.format } := by
  rw [Options.config?] at h
  rw [readConfig]
  cases hconfig : o.config with
  | none =>
    rw [hconfig] at h
    cases h
    rfl
  | some path =>
    rw [hconfig] at h
    obtain ⟨text, htext, hread⟩ := Option.bind_eq_some_iff.mp h
    exact (gives_readText htext _).bind ((gives_reader hread).bind rfl)

theorem fails_readConfig (h : o.config? reader s.files = none) :
    s.Fails (readConfig reader host o) := by
  rw [Options.config?] at h
  rw [readConfig]
  cases hconfig : o.config with
  | none =>
    rw [hconfig] at h
    cases h
  | some path =>
    rw [hconfig] at h
    cases htext : s.files.text? path with
    | none => exact (fails_readText htext _).bind
    | some text =>
      have hread : (reader text).toOption = none := by
        simpa [htext] using h
      exact (gives_readText htext _).fails_bind (fails_reader hread).bind

theorem gives_workers : s.Gives (ExceptT.lift host.workers) s.workers := rfl

theorem gives_readSpecification {path : String} {specification : Specification}
    (h : (s.files.text? path).map (.ofText (stem path)) = some specification) :
    s.Gives (readSpecification host path) specification := by
  obtain ⟨text, htext, rfl⟩ := Option.map_eq_some_iff.mp h
  exact (gives_readText htext _).bind rfl

theorem fails_readSpecification {path : String}
    (h : (s.files.text? path).map (Specification.ofText (stem path)) = none) :
    s.Fails (readSpecification host path) :=
  (fails_readText (Option.map_eq_none_iff.mp h) _).bind

/-! ## Writing -/

/-- The step shows something on the error stream, and that is all. -/
def Shows (s : Machine) (x : Job Unit) : Prop :=
  ∃ text, x.run.run s = (.ok (), { s with stderr := text })

theorem shows_stderr (text : String) : s.Shows (ExceptT.lift (host.stderr text)) := ⟨_, rfl⟩

theorem shows_forM {α : Type} {f : α → Job Unit} (h : ∀ (s : Machine) (a : α), s.Shows (f a))
    (as : List α) : s.Shows (as.forM f) := by
  induction as generalizing s with
  | nil => exact ⟨s.stderr, rfl⟩
  | cons a as ih =>
    obtain ⟨first, hfirst⟩ := h s a
    obtain ⟨text, htext⟩ := ih (s := { s with stderr := first })
    exact ⟨text, (run_bind_of_ok hfirst).trans htext⟩

theorem deliver_stderr (text : String) (bytes : List UInt8) (output : Option String) :
    { s with stderr := text }.deliver bytes output =
      (s.deliver bytes output).map fun after => { after with stderr := text } := by
  cases output with
  | none => rfl
  | some path =>
    simp only [deliver]
    cases s.files.creatable path with
    | error e => rfl
    | ok place =>
      dsimp only
      split <;> rfl

theorem run_create (s : Machine) (path : String) : (host.create path).run s =
    match s.files.creatable path with
    | .error e => (.error e.message, s)
    | .ok place =>
      match s.files.entry? place with
      | some (.device d) => (.ok (deviceSink d), s)
      | _ => (.ok (fileSink place), { s with files := s.files.put place [] }) := by
  simp only [host, StateT.run_bind, StateT.run_get]
  cases hcreatable : s.files.creatable path with
  | error e =>
    simp only [pure_bind, hcreatable]
    rfl
  | ok place =>
    cases hentry : s.files.entry? place with
    | none =>
      simp only [pure_bind, hcreatable, hentry]
      rfl
    | some entry =>
      simp only [pure_bind, hcreatable, hentry]
      cases entry <;> rfl

theorem run_writeTo_stdoutSink (s : Machine) (format : OutputFormat) (c : Catalog) :
    (c.writeTo stdoutSink format).run.run s =
      (.ok (), { s with stdout := s.stdout ++ c.encode format }) := rfl

/-- What is written to a file that has just been created is all there is in it. -/
theorem run_writeTo_fileSink (s : Machine) (place : Place) (format : OutputFormat) (c : Catalog) :
    (c.writeTo (fileSink place) format).run.run { s with files := s.files.put place [] } =
      (.ok (), { s with files := s.files.put place (c.encode format) }) := by
  have hfront : FileTree.entry? (s.files.put place []) place = some (.file []) :=
    FileTree.entry?_put_self _ _ _
  show (Except.ok (), { s with files := (s.files.put place []).put place _ }) = _
  rw [hfront, FileTree.put_put]
  rfl

theorem run_lift_create {path : String} {r : Except String (Sink (StateM Machine))}
    {after : Machine} (h : (host.create path).run s = (r, after)) :
    (ExceptT.lift (host.create path) : Job _).run.run s = (.ok r, after) := by
  rw [ExceptT.run_lift, StateT.run_map, h]
  rfl

theorem run_mapError {x : ExceptT Error (StateM Machine) Unit} {r : Except Error Unit}
    {after : Machine} (h : x.run.run s = (r, after)) :
    (ExceptT.mk ((·.mapError .error) <$> x.run) : Job Unit).run.run s =
      (r.mapError .error, after) := by
  rw [ExceptT.run_mk, StateT.run_map, h]
  rfl

/-- Bytes that can go to their destination do. -/
theorem run_writeCatalog {after : Machine} {format : OutputFormat} {output : Option String}
    {c : Catalog} (h : s.deliver (c.encode format) output = some after) :
    (writeCatalog host format output c).run.run s = (.ok (), after) := by
  cases output with
  | none =>
    cases h
    exact run_mapError (run_writeTo_stdoutSink s format c)
  | some path =>
    have hcreate := run_create s path
    rw [deliver] at h
    rw [writeCatalog]
    cases hcreatable : s.files.creatable path with
    | error e =>
      rw [hcreatable] at h
      cases h
    | ok place =>
      simp only [hcreatable] at h hcreate
      split at h
      · next hentry =>
        cases h
        rw [hentry] at hcreate
        exact (run_bind_of_ok (run_lift_create hcreate)).trans (run_mapError rfl)
      · cases h
      · next hentry =>
        cases h
        rw [hentry] at hcreate
        exact (run_bind_of_ok (run_lift_create hcreate)).trans
          (run_mapError (run_writeTo_stdoutSink s format c))
      · next hnull hfull hstdout =>
        cases h
        have hdevice : ∀ d, s.files.entry? place ≠ some (.device d) := by
          rintro (_ | _ | _)
          · exact hnull
          · exact hfull
          · exact hstdout
        split at hcreate
        · next d hentry => exact absurd hentry (hdevice d)
        · exact (run_bind_of_ok (run_lift_create hcreate)).trans
            (run_mapError (run_writeTo_fileSink s place format c))

/-- Bytes that cannot go to their destination go nowhere. -/
theorem fails_writeCatalog {format : OutputFormat} {output : Option String} {c : Catalog}
    (h : s.deliver (c.encode format) output = none) :
    s.Fails (writeCatalog host format output c) := by
  cases output with
  | none => cases h
  | some path =>
    have hcreate := run_create s path
    rw [deliver] at h
    rw [writeCatalog]
    cases hcreatable : s.files.creatable path with
    | error e =>
      simp only [hcreatable] at hcreate
      exact ⟨_, rfl, (run_bind_of_ok (run_lift_create hcreate)).trans rfl⟩
    | ok place =>
      simp only [hcreatable] at h hcreate
      split at h
      · cases h
      · next hentry =>
        rw [hentry] at hcreate
        exact ⟨_, rfl, (run_bind_of_ok (run_lift_create hcreate)).trans (run_mapError rfl)⟩
      · cases h
      · cases h

end Machine

end StoredRoutine.CommandLine
