import StoredRoutine.Proofs.Package.Accounting
import StoredRoutine.Proofs.Package.KnownTypes

/-!
# Batches

Specifications are worked on in batches, and side by side within a batch. Neither shows in what
comes of them: it is what comes of each specification by itself, one after the other.

So a catalog is put together from its specifications like a list: `generate_append` says that the
catalog of two lists of specifications is that of the first followed by that of the second, and
which specification every package and every diagnostic is from.
-/

namespace StoredRoutine

namespace Report

/-! ## Cutting into batches -/

/-- **The items in batches of a size**: nothing is lost, doubled or moved; no batch is empty or too
large; and none but the last has room left. -/
structure InBatches {α : Type} (size : Nat) (items : List α) (batches : List (List α)) : Prop where
  flatten_eq : batches.flatten = items
  length_pos : ∀ batch ∈ batches, 0 < batch.length
  length_le : ∀ batch ∈ batches, batch.length ≤ size
  length_eq : ∀ batch ∈ batches.dropLast, batch.length = size

theorem inBatches_batches {α : Type} {size : Nat} (hsize : 0 < size) (items : List α) :
    InBatches size items (batches size items) := by
  fun_induction batches size items with
  | case1 => exact ⟨rfl, by simp, by simp, by simp⟩
  | case2 first rest ih =>
    have hlength : (first :: rest.take (size - 1)).length ≤ size := by
      rw [List.length_cons, List.length_take]
      omega
    refine ⟨?_, ?_, ?_, ?_⟩
    · rw [List.flatten_cons, ih.flatten_eq, List.cons_append, List.take_append_drop]
    · rintro batch (_ | ⟨_, hbatch⟩)
      · exact Nat.succ_pos _
      · exact ih.length_pos batch hbatch
    · rintro batch (_ | ⟨_, hbatch⟩)
      · exact hlength
      · exact ih.length_le batch hbatch
    · -- The first batch is full if another one follows, for then something was left over.
      cases hnext : batches size (rest.drop (size - 1)) with
      | nil => simp
      | cons next others =>
        have hleft : size - 1 < rest.length := by
          have hne : rest.drop (size - 1) ≠ [] := by
            intro hnil
            rw [hnil, batches] at hnext
            exact List.cons_ne_nil _ _ hnext.symm
          have hpos := List.length_pos_iff.mpr hne
          rw [List.length_drop] at hpos
          omega
        rw [List.dropLast_cons_cons]
        rintro batch (_ | ⟨_, hbatch⟩)
        · rw [List.length_cons, List.length_take]
          omega
        · exact ih.length_eq batch (hnext ▸ hbatch)

/-! ## The package of a diagnostic -/

theorem package_of_mem_diagnostics {types : TypeTable} {name source : String} {d : Diagnostic}
    (hd : d ∈ (ofSource types name source).diagnostics) : d.package = some name := by
  obtain ⟨e, he, rfl⟩ := List.mem_map.mp hd
  obtain ⟨f, -, hcontext, -⟩ :=
    (accounted_map types name (Source.scan source)).exists_of_mem_errors e he
  rw [Diagnostic.ofError, hcontext]
  rfl

end Report

/-- An empty list of packages takes them all. Otherwise a name has to be among them, whatever the
case of its letters. -/
theorem Config.includes_iff (c : Config) (name : String) :
    c.includes name = true ↔ c.packages = [] ∨
      ∃ p ∈ c.packages, Text.asciiLower p.toList = Text.asciiLower name.toList := by
  rw [Config.includes, Bool.or_eq_true, List.isEmpty_iff, List.any_eq_true]
  simp only [sameName, Text.sameLetters_iff]

namespace Catalog

/-! ## Catalogs -/

@[simp] theorem ofReports_append_packages (schema : Option String) (first second : List Report) :
    (ofReports schema (first ++ second)).packages =
      (ofReports schema first).packages ++ (ofReports schema second).packages :=
  List.map_append

@[simp] theorem ofReports_append_diagnostics (schema : Option String) (first second : List Report) :
    (ofReports schema (first ++ second)).diagnostics =
      (ofReports schema first).diagnostics ++ (ofReports schema second).diagnostics :=
  List.flatMap_append

/-! ## Main statement -/

/-- **Batches do not show.** However many specifications are worked on side by side, they are
processed one by one and in order, in batches that are as large as that allows. A catalog does
not depend on that number, and the catalog of two lists of specifications is the catalog of the
first followed by that of the second. Each specification that the configuration includes has one
package there, and every diagnostic names the package of the specification it is from. -/
theorem generate_append {workers : Nat} (hworkers : 0 < workers) :
    (∀ (types : TypeTable) (inputs : List (String × String)),
      Report.InBatches workers inputs (Report.batches workers inputs) ∧
        Report.ofSources workers types inputs =
          inputs.map fun (name, source) => Report.ofSource types name source) ∧
    (∀ (c : Config) (name : String), c.includes name = true ↔ c.packages = [] ∨
      ∃ p ∈ c.packages, Text.asciiLower p.toList = Text.asciiLower name.toList) ∧
    ∀ (c : Config) (first second : List Specification),
      let report (s : Specification) : Report := .ofSource c.typeTable s.name s.text
      let selected := (first ++ second).filter fun s => c.includes s.name
      let catalog := generate workers c (first ++ second)
      (∀ others : Nat, catalog = ofReports c.schema
        (Report.ofSources others c.typeTable (selected.map fun s => (s.name, s.text)))) ∧
      catalog.packages =
        (generate workers c first).packages ++ (generate workers c second).packages ∧
      catalog.diagnostics =
        (generate workers c first).diagnostics ++ (generate workers c second).diagnostics ∧
      catalog.packages = selected.map (fun s => (report s).package) ∧
      catalog.packages.map (·.name) = selected.map (·.name) ∧
      catalog.diagnostics = selected.flatMap (fun s => (report s).diagnostics) ∧
      ∀ s ∈ selected, ∀ d ∈ (report s).diagnostics, d.package = some s.name := by
  refine ⟨fun types inputs => ⟨Report.inBatches_batches hworkers inputs,
    Report.ofSources_eq_map workers types inputs⟩, Config.includes_iff, ?_⟩
  intro c first second report selected catalog
  have hcatalog : catalog = ofReports c.schema (selected.map report) := generate_eq workers c _
  have hpackages : catalog.packages = selected.map fun s => (report s).package := by
    rw [hcatalog]
    exact List.map_map
  have hsplit : selected.map report =
      ((first.filter fun s => c.includes s.name).map report) ++
        ((second.filter fun s => c.includes s.name).map report) := by
    rw [← List.map_append, ← List.filter_append]
  refine ⟨fun others => ?_, ?_, ?_, hpackages, ?_, ?_, ?_⟩
  · rw [Report.ofSources_eq_map, List.map_map]
    exact hcatalog
  · rw [hcatalog, hsplit, ofReports_append_packages, generate_eq workers c first,
      generate_eq workers c second]
  · rw [hcatalog, hsplit, ofReports_append_diagnostics, generate_eq workers c first,
      generate_eq workers c second]
  · rw [hpackages, List.map_map]
    rfl
  · rw [hcatalog, ofReports, List.flatMap_map]
  · intro s _ d hd
    exact Report.package_of_mem_diagnostics hd

/-- Three packages of which two are taken, in batches of two. Both have a declaration that is
rejected. -/
theorem generate_append_of_three :
    let c : Config := { Config.default with packages := ["c", "A"] }
    let a : Specification := ⟨"a", "procedure P; procedure Q(x xmltype);"⟩
    let b : Specification := ⟨"b", "function F;"⟩
    let C : Specification := ⟨"C", "function G return number; function F;"⟩
    let catalog := generate 2 c ([a, b] ++ [C])
    0 < 2 ∧ Report.batches 2 [a, b, C] = [[a, b], [C]] ∧
      catalog.packages.map (·.name) = ["a", "C"] ∧
      catalog.packages = (generate 2 c [a, b]).packages ++ (generate 2 c [C]).packages ∧
      catalog.diagnostics.map (·.package) = [some "a", some "C"] := by
  intro c a b C catalog
  have hbatches : Report.batches 2 [a, b, C] = [[a, b], [C]] := by
    simp [Report.batches]
  have hselected : ([a, b] ++ [C]).filter (fun s => c.includes s.name) = [a, C] := by decide +kernel
  obtain ⟨-, -, hcatalog⟩ := generate_append (show 0 < 2 by decide)
  obtain ⟨-, happend, -, -, hnames, hdiagnostics, -⟩ := hcatalog c [a, b] [C]
  refine ⟨by decide, hbatches, ?_, happend, ?_⟩
  · rw [hnames, hselected]
    rfl
  · rw [hdiagnostics, hselected]
    decide +kernel

end Catalog

end StoredRoutine
