import Mathlib.Data.List.Basic
import Mathlib.Data.List.Induction
import StoredRoutine.CommandLine.Options

/-!
# Parts of a command line

A command line consists of `Part`s: files, flags, and settings with their values. What it says is
said by its parts (`Options.ofParts`): the files in order, the last value of each setting, and
which flags there are. A value is whatever follows the name of its setting. That cuts every command
line into parts, up to its end, to a setting that lacks its value, or to a name that means nothing
(`exists_parts`).

Parts can be at fault in two ways: a format may be none, and the flags may ask for more logging than
can be counted. The first part at fault is what the reading ends with (`exists_fault`). So a command
line that asks for too much is known by what its parts ask for (`parse_overflow_iff`).
-/

namespace StoredRoutine.CommandLine

/-! ## Names -/

/-- The flags. -/
inductive Flag where
  | help
  | version
  | strict
  | verbose
  | veryVerbose
  deriving DecidableEq

/-- How a flag is written. -/
def Flag.names : Flag → List String
  | help => ["-h", "--help"]
  | version => ["-V", "--version"]
  | strict => ["--strict"]
  | verbose => ["-v"]
  | veryVerbose => ["-vv"]

/-- The options that take a value. -/
inductive Setting where
  | config
  | format
  | output
  deriving DecidableEq

/-- How an option is written in front of its value. -/
def Setting.names : Setting → List String
  | config => ["-c", "--config"]
  | format => ["-f", "--format"]
  | output => ["-o", "--output"]

/-- Does the argument look like an option? -/
def BeginsWithDash (argument : String) : Prop := argument.toList.head? = some '-'

instance (argument : String) : Decidable (BeginsWithDash argument) :=
  inferInstanceAs (Decidable (argument.toList.head? = some '-'))

/-- The argument looks like an option and is none. -/
structure IsUnknown (argument : String) : Prop where
  dash : BeginsWithDash argument
  notFlag : ∀ flag : Flag, argument ∉ flag.names
  notSetting : ∀ setting : Setting, argument ∉ setting.names

/-! ## Parts -/

/-- What belongs together on a command line. -/
inductive Part where
  | file (path : String) (h : ¬ BeginsWithDash path)
  | flag (flag : Flag) (name : String) (h : name ∈ flag.names)
  | setting (setting : Setting) (name : String) (h : name ∈ setting.names) (value : String)
  deriving DecidableEq

namespace Part

/-- The arguments of a part. -/
def arguments : Part → List String
  | file path _ => [path]
  | flag _ name _ => [name]
  | setting _ name _ value => [name, value]

/-- The file that is named. -/
@[simp] def file? : Part → Option String
  | file path _ => some path
  | _ => none

/-- Is this the flag? -/
@[simp] def isFlag (f : Flag) : Part → Bool
  | flag f' _ _ => f' = f
  | _ => false

/-- The value that is given for the setting. -/
@[simp] def value? (s : Setting) : Part → Option String
  | setting s' _ _ value => if s' = s then some value else none
  | _ => none

end Part

/-- The command line that the parts make. -/
def written (parts : List Part) : List String := parts.flatMap Part.arguments

theorem written_cons (part : Part) (parts : List Part) :
    written (part :: parts) = part.arguments ++ written parts := List.flatMap_cons

theorem written_append (parts others : List Part) :
    written (parts ++ others) = written parts ++ written others := List.flatMap_append

theorem written_singleton (part : Part) : written [part] = part.arguments :=
  List.flatMap_singleton _ _

/-- The files, in order. -/
def files (parts : List Part) : List String := parts.filterMap Part.file?

/-- The values that are given for the setting, in order. -/
def values (s : Setting) (parts : List Part) : List String := parts.filterMap (Part.value? s)

/-- The format that is given, if there is one, is one. -/
def Part.IsReadable (part : Part) : Prop :=
  ∀ value, part.value? .format = some value → ∃ format, OutputFormat.parse value = .ok format

/-- Every format that is given is one. -/
def AreReadable (parts : List Part) : Prop := ∀ part ∈ parts, part.IsReadable

/-- How much more logging a flag asks for. -/
def Flag.weight : Flag → Nat
  | verbose => 1
  | veryVerbose => 2
  | _ => 0

/-- How much more logging a part asks for. -/
def Part.weight : Part → Nat
  | flag f _ _ => f.weight
  | _ => 0

/-- How much more logging the parts ask for. -/
def asked : List Part → Nat
  | [] => 0
  | part :: rest => part.weight + asked rest

/-- **What the parts say.** The last value of a setting counts. -/
def Options.ofParts (parts : List Part) : Options where
  files := CommandLine.files parts
  config := (values .config parts).getLast?
  format := (values .format parts).getLast?.bind fun value => (OutputFormat.parse value).toOption
  output := (values .output parts).getLast?
  strict := parts.any (Part.isFlag .strict)
  verbosity := UInt8.ofNat (asked parts)
  help := parts.any (Part.isFlag .help)
  version := parts.any (Part.isFlag .version)

/-- Nothing is wrong with the parts: the formats are formats, and what is asked for can be
counted. -/
structure Faultless (parts : List Part) : Prop where
  readable : AreReadable parts
  fits : asked parts < UInt8.size

/-! ## How much is asked for -/

theorem asked_append (parts others : List Part) :
    asked (parts ++ others) = asked parts + asked others := by
  induction parts with
  | nil => exact (Nat.zero_add _).symm
  | cons part parts ih => rw [List.cons_append, asked, asked, ih, Nat.add_assoc]

theorem asked_singleton (part : Part) : asked [part] = part.weight := rfl

theorem toNat_verbosity_ofParts {parts : List Part} (h : asked parts < UInt8.size) :
    (Options.ofParts parts).verbosity.toNat = asked parts :=
  UInt8.toNat_ofNat_of_lt' h

/-! ## Parts without fault -/

theorem faultless_append_singleton_iff {parts : List Part} {part : Part} :
    Faultless (parts ++ [part]) ↔
      AreReadable parts ∧ part.IsReadable ∧ asked parts + part.weight < UInt8.size := by
  have hreadable : AreReadable (parts ++ [part]) ↔ AreReadable parts ∧ part.IsReadable := by
    rw [AreReadable, List.forall_mem_append, List.forall_mem_singleton]
    rfl
  constructor
  · intro h
    obtain ⟨hparts, hpart⟩ := hreadable.mp h.readable
    have hfits := h.fits
    rw [asked_append, asked_singleton] at hfits
    exact ⟨hparts, hpart, hfits⟩
  · rintro ⟨hparts, hpart, hfits⟩
    refine ⟨hreadable.mpr ⟨hparts, hpart⟩, ?_⟩
    rwa [asked_append, asked_singleton]

theorem Faultless.left {parts : List Part} {part : Part} (h : Faultless (parts ++ [part])) :
    Faultless parts := by
  obtain ⟨hparts, -, hfits⟩ := faultless_append_singleton_iff.mp h
  exact ⟨hparts, Nat.lt_of_le_of_lt (Nat.le_add_right _ _) hfits⟩

theorem faultless_nil : Faultless [] := ⟨List.forall_mem_nil _, by decide⟩

/-- What is not faultless has a first part at fault. -/
theorem exists_first_of_not_faultless {parts : List Part} (h : ¬ Faultless parts) :
    ∃ front part back, parts = front ++ part :: back ∧ Faultless front ∧
      ¬ Faultless (front ++ [part]) := by
  induction parts using List.reverseRecOn with
  | nil => exact absurd faultless_nil h
  | append_singleton parts part ih =>
    by_cases hparts : Faultless parts
    · exact ⟨parts, part, [], rfl, hparts, h⟩
    · obtain ⟨front, first, back, rfl, hfront, hfirst⟩ := ih hparts
      exact ⟨front, first, back ++ [part], by simp, hfront, hfirst⟩

/-! ## Names that are known -/

/-- What a flag changes, given how it is written. -/
def Flag.change (name : String) : Flag → Options → Except Failure Options
  | help, o => .ok { o with help := true }
  | version, o => .ok { o with version := true }
  | strict, o => .ok { o with strict := true }
  | verbose, o => o.louder name 1
  | veryVerbose, o => o.louder name 2

/-- What a setting changes, given its value. -/
def Setting.change : Setting → String → Options → Except Failure Options
  | config, value, o => .ok { o with config := some value }
  | format, value, o =>
    match OutputFormat.parse value with
    | .ok chosen => .ok { o with format := some chosen }
    | .error e => .error (.error e)
  | output, value, o => .ok { o with output := some value }

theorem flag?_of_mem {flag : Flag} {name : String} (h : name ∈ flag.names) :
    Options.flag? name = some (flag.change name) := by
  cases flag <;> simp only [Flag.names, List.mem_cons, List.not_mem_nil, or_false] at h
  all_goals first | subst h | rcases h with rfl | rfl
  all_goals rfl

theorem option?_of_mem {setting : Setting} {name : String} (h : name ∈ setting.names) :
    Options.flag? name = none ∧ Options.option? name = some setting.change := by
  cases setting <;> simp only [Setting.names, List.mem_cons, List.not_mem_nil, or_false] at h
  all_goals rcases h with rfl | rfl
  all_goals exact ⟨rfl, rfl⟩

theorem exists_of_flag? {name : String} {change : Options → Except Failure Options}
    (h : Options.flag? name = some change) : ∃ flag : Flag, name ∈ flag.names := by
  unfold Options.flag? at h
  split at h
  · exact ⟨.help, by simp [Flag.names]⟩
  · exact ⟨.help, by simp [Flag.names]⟩
  · exact ⟨.version, by simp [Flag.names]⟩
  · exact ⟨.version, by simp [Flag.names]⟩
  · exact ⟨.strict, by simp [Flag.names]⟩
  · exact ⟨.verbose, by simp [Flag.names]⟩
  · exact ⟨.veryVerbose, by simp [Flag.names]⟩
  · cases h

theorem exists_of_option? {name : String} {change : String → Options → Except Failure Options}
    (h : Options.option? name = some change) : ∃ setting : Setting, name ∈ setting.names := by
  unfold Options.option? at h
  split at h
  · exact ⟨.config, by simp [Setting.names]⟩
  · exact ⟨.config, by simp [Setting.names]⟩
  · exact ⟨.format, by simp [Setting.names]⟩
  · exact ⟨.format, by simp [Setting.names]⟩
  · exact ⟨.output, by simp [Setting.names]⟩
  · exact ⟨.output, by simp [Setting.names]⟩
  · cases h

/-- Every name begins with a dash, so a file is none. -/
theorem beginsWithDash_of_mem {name : String}
    (h : (∃ flag : Flag, name ∈ flag.names) ∨ ∃ setting : Setting, name ∈ setting.names) :
    BeginsWithDash name := by
  rcases h with ⟨flag, h⟩ | ⟨setting, h⟩
  · have hall : ∀ name ∈ flag.names, BeginsWithDash name := by cases flag <;> decide
    exact hall name h
  · have hall : ∀ name ∈ setting.names, BeginsWithDash name := by cases setting <;> decide
    exact hall name h

/-- What is no name is read as neither. -/
theorem read_eq_none {argument : String} (hflag : ∀ flag : Flag, argument ∉ flag.names)
    (hsetting : ∀ setting : Setting, argument ∉ setting.names) :
    Options.flag? argument = none ∧ Options.option? argument = none := by
  constructor
  · refine Option.eq_none_iff_forall_ne_some.mpr fun change h => ?_
    obtain ⟨flag, hmem⟩ := exists_of_flag? h
    exact hflag flag hmem
  · refine Option.eq_none_iff_forall_ne_some.mpr fun change h => ?_
    obtain ⟨setting, hmem⟩ := exists_of_option? h
    exact hsetting setting hmem

/-! ## Reading parts -/

/-- What a part changes. -/
def Part.change : Part → Options → Except Failure Options
  | file path _, o => .ok { o with files := o.files ++ [path] }
  | flag f name _, o => f.change name o
  | setting s _ _ value, o => s.change value o

/-- **A part is read as a whole**, and what follows it is read as if it stood alone. -/
theorem parseFrom_part (o : Options) (part : Part) (rest : List String) :
    Options.parseFrom o (part.arguments ++ rest) =
      part.change o >>= fun o' => Options.parseFrom o' rest := by
  cases part with
  | file path h =>
    have hnone := read_eq_none (fun flag hmem => h (beginsWithDash_of_mem (.inl ⟨flag, hmem⟩)))
      fun setting hmem => h (beginsWithDash_of_mem (.inr ⟨setting, hmem⟩))
    rw [Part.arguments, List.singleton_append, Options.parseFrom, hnone.1, hnone.2]
    exact if_neg h
  | flag f name h =>
    rw [Part.arguments, List.singleton_append, Options.parseFrom, flag?_of_mem h]
    rfl
  | setting s name h value =>
    obtain ⟨hflag, hoption⟩ := option?_of_mem h
    rw [Part.arguments, List.cons_append, List.singleton_append, Options.parseFrom, hflag, hoption]
    rfl

/-- What follows parts is read with what they say. -/
theorem parseFrom_written_append (o : Options) (parts : List Part) (rest : List String) :
    Options.parseFrom o (written parts ++ rest) =
      Options.parseFrom o (written parts) >>= fun o' => Options.parseFrom o' rest := by
  induction parts generalizing o with
  | nil => rfl
  | cons part parts ih =>
    rw [written_cons, List.append_assoc, parseFrom_part, parseFrom_part]
    cases part.change o with
    | error failure => rfl
    | ok o' => exact ih o'

/-! ## What parts say -/

theorem Options.louder_of_lt {flag : String} {n : UInt8} {o : Options}
    (h : o.verbosity.toNat + n.toNat < UInt8.size) :
    o.louder flag n = .ok { o with verbosity := o.verbosity + n } := if_pos h

theorem Options.louder_of_le {flag : String} {n : UInt8} {o : Options}
    (h : UInt8.size ≤ o.verbosity.toNat + n.toNat) :
    o.louder flag n = .error (.overflow flag) := if_neg (Nat.not_lt.mpr h)

/-- **One more part** changes what was said before it. -/
theorem change_ofParts {parts : List Part} {part : Part} (h : Faultless (parts ++ [part])) :
    part.change (.ofParts parts) = .ok (.ofParts (parts ++ [part])) := by
  obtain ⟨-, hreadable, hfits⟩ := faultless_append_singleton_iff.mp h
  have hsum : asked (parts ++ [part]) = asked parts + part.weight := asked_append parts [part]
  cases part with
  | file path hpath =>
    simp [Part.change, Options.ofParts, files, values, hsum, Part.weight]
  | flag f name hname =>
    cases f with
    | help | version | strict =>
      simp [Part.change, Flag.change, Options.ofParts, files, values, hsum, Part.weight,
        Flag.weight]
    | verbose | veryVerbose =>
      have hcount := toNat_verbosity_ofParts h.left.fits
      rw [Part.change, Flag.change, Options.louder_of_lt (by rw [hcount]; exact hfits)]
      simp [Options.ofParts, files, values, hsum, Part.weight, Flag.weight]
  | setting s name hname value =>
    cases s with
    | config | output =>
      simp [Part.change, Setting.change, Options.ofParts, files, values, hsum, Part.weight]
    | format =>
      obtain ⟨format, hformat⟩ := hreadable value rfl
      simp [Part.change, Setting.change, Options.ofParts, files, values, hsum, Part.weight, hformat,
        Except.toOption]

/-- **Parts are read as what they say.** -/
theorem parse_of_faultless {parts : List Part} (h : Faultless parts) :
    Options.parse (written parts) = .ok (.ofParts parts) := by
  induction parts using List.reverseRecOn with
  | nil => rfl
  | append_singleton parts part ih =>
    have hwritten : written (parts ++ [part]) = written parts ++ (part.arguments ++ []) := by
      rw [written_append, written_singleton, List.append_nil]
    have hread : Options.parseFrom .none (written parts) = .ok (.ofParts parts) := ih h.left
    rw [Options.parse, hwritten, parseFrom_written_append, hread]
    refine (parseFrom_part _ part []).trans ?_
    rw [change_ofParts h]
    rfl

/-- **What is wrong with a part** behind others: a format that is none, or a flag for which the
count has no room. -/
inductive Fault (front : List Part) (part : Part) : Failure → Prop
  | format {value : String} {e : Error} (hvalue : part.value? .format = some value)
    (h : OutputFormat.parse value = .error e) : Fault front part (.error e)
  | overflow {flag : String} (hflag : part.arguments = [flag])
    (h : UInt8.size ≤ asked front + part.weight) : Fault front part (.overflow flag)

theorem exists_of_not_isReadable {part : Part} (h : ¬ part.IsReadable) :
    ∃ value e, part.value? .format = some value ∧ OutputFormat.parse value = .error e := by
  simp only [Part.IsReadable, not_forall] at h
  obtain ⟨value, hvalue, hnone⟩ := h
  cases hparse : OutputFormat.parse value with
  | ok format => exact absurd ⟨format, hparse⟩ hnone
  | error e => exact ⟨value, e, hvalue, hparse⟩

/-- A part at fault is what the reading ends with. -/
theorem exists_fault_of_not_faultless {front : List Part} {part : Part} (hfront : Faultless front)
    (h : ¬ Faultless (front ++ [part])) :
    ∃ failure, Fault front part failure ∧ part.change (.ofParts front) = .error failure := by
  by_cases hreadable : part.IsReadable
  · have hfull : UInt8.size ≤ asked front + part.weight := Nat.not_lt.mp fun hfits =>
      h (faultless_append_singleton_iff.mpr ⟨hfront.readable, hreadable, hfits⟩)
    -- a part that asks for nothing finds room
    have hsilent : part.weight ≠ 0 := by
      intro hweight
      rw [hweight] at hfull
      exact absurd hfront.fits (Nat.not_lt.mpr hfull)
    cases part with
    | file | setting => exact absurd rfl hsilent
    | flag f name hname =>
      cases f with
      | help | version | strict => exact absurd rfl hsilent
      | verbose | veryVerbose =>
        have hcount := toNat_verbosity_ofParts hfront.fits
        refine ⟨.overflow name, .overflow rfl hfull, ?_⟩
        exact Options.louder_of_le (by rw [hcount]; exact hfull)
  · obtain ⟨value, e, hvalue, hparse⟩ := exists_of_not_isReadable hreadable
    refine ⟨.error e, .format hvalue hparse, ?_⟩
    cases part with
    | file | flag => cases hvalue
    | setting s name hname value' =>
      cases s with
      | config | output => cases hvalue
      | format =>
        obtain rfl := Option.some.inj hvalue
        rw [Part.change, Setting.change, hparse]

/-- **The first part at fault** is what the reading ends with, whatever follows it. -/
theorem exists_fault {parts : List Part} (h : ¬ Faultless parts) :
    ∃ front part back failure, parts = front ++ part :: back ∧ Faultless front ∧
      Fault front part failure ∧
      ∀ rest, Options.parse (written parts ++ rest) = .error failure := by
  obtain ⟨front, part, back, rfl, hfront, hpart⟩ := exists_first_of_not_faultless h
  obtain ⟨failure, hfault, hchange⟩ := exists_fault_of_not_faultless hfront hpart
  refine ⟨front, part, back, failure, rfl, hfront, hfault, fun rest => ?_⟩
  have hread : Options.parseFrom .none (written front) = .ok (.ofParts front) :=
    parse_of_faultless hfront
  rw [Options.parse, written_append, written_cons, List.append_assoc, List.append_assoc,
    parseFrom_written_append, hread]
  refine (parseFrom_part _ part _).trans ?_
  rw [hchange]
  rfl

/-! ## Command lines that are refused -/

/-- What is refused behind some parts is refused, for the same reason if nothing is wrong with the
parts. -/
theorem exists_failure_of_parseFrom {tail : List String} {failure : Failure}
    (h : ∀ o, Options.parseFrom o tail = .error failure) (parts : List Part) :
    ∃ failure', Options.parse (written parts ++ tail) = .error failure' ∧
      (Faultless parts → failure' = failure) := by
  by_cases hparts : Faultless parts
  · have hread : Options.parseFrom .none (written parts) = .ok (.ofParts parts) :=
      parse_of_faultless hparts
    refine ⟨failure, ?_, fun _ => rfl⟩
    rw [Options.parse, parseFrom_written_append, hread]
    exact h _
  · obtain ⟨-, -, -, failure', -, -, -, hfails⟩ := exists_fault hparts
    exact ⟨failure', hfails tail, fun hfaultless => absurd hfaultless hparts⟩

theorem parseFrom_missingValue {setting : Setting} {name : String} (h : name ∈ setting.names)
    (o : Options) : Options.parseFrom o [name] = .error (.missingValue name) := by
  obtain ⟨hflag, hoption⟩ := option?_of_mem h
  rw [Options.parseFrom, hflag, hoption]

theorem parseFrom_unknownOption {argument : String} (h : IsUnknown argument) (rest : List String)
    (o : Options) : Options.parseFrom o (argument :: rest) = .error (.unknownOption argument) := by
  obtain ⟨hflag, hoption⟩ := read_eq_none h.notFlag h.notSetting
  rw [Options.parseFrom, hflag, hoption]
  exact if_pos h.dash

/-- What can be left of a command line behind its parts: nothing, a setting without a value, or a
name that means nothing with what follows it. -/
inductive IsTail : List String → Prop
  | done : IsTail []
  | missing {setting : Setting} {name : String} (h : name ∈ setting.names) : IsTail [name]
  | unknown {argument : String} (h : IsUnknown argument) (rest : List String) :
      IsTail (argument :: rest)

/-- A tail is refused, and not because of what is asked for. -/
theorem IsTail.eq_nil_or_fails {tail : List String} (h : IsTail tail) :
    tail = [] ∨ ∃ failure : Failure, failure.aborts = false ∧
      ∀ o, Options.parseFrom o tail = .error failure := by
  cases h with
  | done => exact .inl rfl
  | missing hname => exact .inr ⟨_, rfl, parseFrom_missingValue hname⟩
  | unknown hunknown rest => exact .inr ⟨_, rfl, parseFrom_unknownOption hunknown rest⟩

/-- **Every command line** consists of parts and of a tail. -/
theorem exists_parts (arguments : List String) :
    ∃ parts tail, arguments = written parts ++ tail ∧ IsTail tail := by
  fun_induction Options.parseFrom .none arguments with
  | case1 => exact ⟨[], [], rfl, .done⟩
  | case2 o argument rest change hflag ih =>
    obtain ⟨flag, hmem⟩ := exists_of_flag? hflag
    obtain ⟨parts, tail, rfl, htail⟩ := ih o
    exact ⟨.flag flag argument hmem :: parts, tail, rfl, htail⟩
  | case3 o argument change hoption hflag =>
    obtain ⟨setting, hmem⟩ := exists_of_option? hoption
    exact ⟨[], [argument], rfl, .missing hmem⟩
  | case4 o argument change hoption hflag value others ih =>
    obtain ⟨setting, hmem⟩ := exists_of_option? hoption
    obtain ⟨parts, tail, rfl, htail⟩ := ih o
    exact ⟨.setting setting argument hmem value :: parts, tail, rfl, htail⟩
  | case5 o argument rest hoption hflag hdash =>
    refine ⟨[], argument :: rest, rfl, .unknown ⟨hdash, fun flag hmem => ?_, fun s hmem => ?_⟩ rest⟩
    · rw [flag?_of_mem hmem] at hflag
      cases hflag
    · rw [(option?_of_mem hmem).2] at hoption
      cases hoption
  | case6 o argument rest hoption hflag hdash ih =>
    obtain ⟨parts, tail, rfl, htail⟩ := ih
    exact ⟨.file argument hdash :: parts, tail, rfl, htail⟩

/-- Parts that are accepted are not at fault, and say what has been read. -/
theorem of_parse_written {parts : List Part} {o : Options}
    (h : Options.parse (written parts) = .ok o) : Faultless parts ∧ o = .ofParts parts := by
  by_cases hparts : Faultless parts
  · exact ⟨hparts, Except.ok.inj (h.symm.trans (parse_of_faultless hparts))⟩
  · obtain ⟨-, -, -, failure, -, -, -, hfails⟩ := exists_fault hparts
    have hfailed := hfails []
    rw [List.append_nil, h] at hfailed
    cases hfailed

/-- **A command line that is accepted** is parts up to its end. -/
theorem exists_written_of_parse {arguments : List String} {o : Options}
    (h : Options.parse arguments = .ok o) :
    ∃ parts, arguments = written parts ∧ o = .ofParts parts := by
  obtain ⟨parts, tail, rfl, htail⟩ := exists_parts arguments
  obtain rfl | ⟨failure, -, hfails⟩ := htail.eq_nil_or_fails
  · rw [List.append_nil] at h ⊢
    exact ⟨parts, rfl, (of_parse_written h).2⟩
  · obtain ⟨failure', hfailed, -⟩ := exists_failure_of_parseFrom hfails parts
    cases h.symm.trans hfailed

/-- The files are arguments, in the order of the arguments. -/
theorem files_sublist (parts : List Part) : (files parts).Sublist (written parts) := by
  induction parts with
  | nil => exact .slnil
  | cons part parts ih =>
    cases part with
    | file path => exact ih.cons_cons path
    | flag _ name => exact ih.cons name
    | setting _ name _ value => exact (ih.cons value).cons name

/-! ## Command lines that ask for too much -/

/-- Parts that ask for more than can be counted have a first flag for which there is no room. -/
theorem exists_overflow {parts : List Part} (hreadable : AreReadable parts)
    (hfull : UInt8.size ≤ asked parts) :
    ∃ front part back flag, parts = front ++ part :: back ∧ part.arguments = [flag] ∧
      asked front < UInt8.size ∧ UInt8.size ≤ asked front + part.weight ∧
      ∀ rest, Options.parse (written parts ++ rest) = .error (.overflow flag) := by
  have hnot : ¬ Faultless parts := fun hparts => absurd hparts.fits (Nat.not_lt.mpr hfull)
  obtain ⟨front, part, back, failure, rfl, hfront, hfault, hfails⟩ := exists_fault hnot
  cases hfault with
  | format hvalue h =>
    obtain ⟨format, hformat⟩ := hreadable part (by simp) _ hvalue
    cases h.symm.trans hformat
  | @overflow flag hflag h => exact ⟨front, part, back, flag, rfl, hflag, hfront.fits, h, hfails⟩

/-- **The command line asks for too much**: it begins with parts that ask for more than can be
counted, and whose formats are valid. -/
def Overflows (arguments : List String) : Prop :=
  ∃ parts rest, arguments = written parts ++ rest ∧ AreReadable parts ∧ UInt8.size ≤ asked parts

/-- A part that is one argument has no value. -/
theorem isReadable_of_arguments {part : Part} {argument : String}
    (h : part.arguments = [argument]) : part.IsReadable := by
  intro value hvalue
  cases part with
  | file | flag => cases hvalue
  | setting => cases h

theorem areReadable_replicate {part : Part} (h : part.IsReadable) (n : Nat) :
    AreReadable (List.replicate n part) := by
  intro other hother
  obtain rfl := List.eq_of_mem_replicate hother
  exact h

theorem parse_overflow_iff (arguments : List String) :
    (∃ flag, Options.parse arguments = .error (.overflow flag)) ↔ Overflows arguments := by
  constructor
  · rintro ⟨flag, hparse⟩
    obtain ⟨parts, tail, rfl, htail⟩ := exists_parts arguments
    by_cases hparts : Faultless parts
    · obtain rfl | ⟨failure, haborts, hfails⟩ := htail.eq_nil_or_fails
      · rw [List.append_nil, parse_of_faultless hparts] at hparse
        cases hparse
      · -- the tail is refused for another reason
        obtain ⟨failure', hfailed, hsame⟩ := exists_failure_of_parseFrom hfails parts
        obtain rfl := Except.error.inj (hfailed.symm.trans hparse)
        rw [← hsame hparts] at haborts
        cases haborts
    · obtain ⟨front, part, back, failure, rfl, hfront, hfault, hfails⟩ := exists_fault hparts
      obtain rfl := Except.error.inj ((hfails tail).symm.trans hparse)
      cases hfault with
      | overflow hflag h =>
        refine ⟨front ++ [part], written back ++ tail, ?_, ?_, ?_⟩
        · rw [List.append_cons, written_append, List.append_assoc]
        · rw [AreReadable, List.forall_mem_append, List.forall_mem_singleton]
          exact ⟨hfront.readable, isReadable_of_arguments hflag⟩
        · rwa [asked_append, asked_singleton]
  · rintro ⟨parts, rest, rfl, hreadable, hfull⟩
    obtain ⟨-, -, -, flag, -, -, -, -, hfails⟩ := exists_overflow hreadable hfull
    exact ⟨flag, hfails rest⟩

end StoredRoutine.CommandLine
