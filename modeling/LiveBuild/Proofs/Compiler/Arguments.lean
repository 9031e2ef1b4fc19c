import LiveBuild.Proofs.Compiler.Steps

/-!
# What the arguments of a compiler mean

A compiler reads its arguments from left to right. Some options take the next argument as their
value, whatever it is. Any other argument stands alone: it is an option if it begins with a dash,
a file of further arguments if it begins with an at sign, and an input otherwise.

All that a caller chooses is the value of an option, and means what the caller says, except for the
source, which stands alone.

* `Argument.read`: the reading of an argument list;
* `Means`: what a reading should say, given the parameters of a compile;
* `read_arguments`: the reading of the arguments of a compile, for any source;
* `Point.Launched`: what a compile has started by each point, and with which source;
* `means_launched`: the one start of a compile says what it should if and only if its source begins
  with neither sign.
-/

namespace LiveBuild.Compiler

/-! ## Readings -/

/-- An argument as it is read: an option with its value, or an argument that stands alone. -/
inductive Argument
  | setting (name value : String)
  | flag (name : String)
  /-- A file in which further arguments stand. -/
  | argumentFile (name : String)
  | input (name : String)
  deriving DecidableEq, Repr

namespace Argument

/-- The options that take the next argument as their value. -/
def settingNames : List String :=
  ["--edition", "--crate-name", "--crate-type", "--extern", "--cap-lints", "-D", "-A", "-o"]

/-- What an argument is that stands alone. -/
def alone (s : String) : Argument :=
  match s.toList.head? with
  | some '-' => .flag s
  | some '@' => .argumentFile s
  | _ => .input s

/-- The reading of an argument list. An option whose value is missing cannot be read. -/
def read : List String → Option (List Argument)
  | [] => some []
  | [s] => if s ∈ settingNames then none else some [alone s]
  | s :: v :: rest =>
    if s ∈ settingNames then (read rest).map (setting s v :: ·)
    else (read (v :: rest)).map (alone s :: ·)

/-- The name of an input. -/
def input? : Argument → Option String
  | input s => some s
  | _ => none

/-- The name of a file of arguments. -/
def argumentFile? : Argument → Option String
  | argumentFile s => some s
  | _ => none

/-- The name of an option without a value. -/
def flag? : Argument → Option String
  | flag s => some s
  | _ => none

/-- The value of the option `name`. -/
def value? (name : String) : Argument → Option String
  | setting n v => if n = name then some v else none
  | _ => none

/-- The options that are about warnings. -/
def lintNames : List String := ["-D", "-A", "--cap-lints"]

/-- An option that is about warnings. -/
def lint? : Argument → Option Argument
  | setting n v => if n ∈ lintNames then some (setting n v) else none
  | _ => none

/-- An argument that is an input where it stands alone. -/
def IsUnmarked (s : String) : Prop := s.toList.head? ≠ some '-' ∧ s.toList.head? ≠ some '@'

variable {s v name : String} {rest : List String}

theorem read_setting (hs : s ∈ settingNames) :
    read (s :: v :: rest) = (read rest).map (setting s v :: ·) := by
  rw [read, if_pos hs]

theorem read_alone (hs : s ∉ settingNames) :
    read (s :: rest) = (read rest).map (alone s :: ·) := by
  cases rest with
  | nil => simp only [read, if_neg hs, Option.map_some]
  | cons v rest => rw [read, if_neg hs]

/-- The values of one option after another. -/
theorem read_settings (hname : name ∈ settingNames) (vs : List String) :
    read (vs.flatMap fun v => [name, v]) = some (vs.map (setting name)) := by
  induction vs with
  | nil => rfl
  | cons v vs ih =>
    rw [List.flatMap_cons, List.cons_append, List.singleton_append, read_setting hname, ih]
    rfl

/-- A flag that is given or not, and what follows. -/
theorem read_flag_append {b : Bool} (hname : name ∉ settingNames)
    (hflag : alone name = .flag name) :
    read ((if b then [name] else []) ++ rest) =
      (read rest).map ((if b then [.flag name] else []) ++ ·) := by
  cases b with
  | true =>
    rw [if_pos rfl, if_pos rfl, List.singleton_append, read_alone hname, hflag]
    rfl
  | false => simp

theorem alone_of_isUnmarked (hs : IsUnmarked s) : alone s = .input s := by
  unfold alone
  split
  next h => exact absurd h hs.1
  next h => exact absurd h hs.2
  next => rfl

theorem input?_alone (hs : ¬ IsUnmarked s) : (alone s).input? = none := by
  unfold alone
  split
  next => rfl
  next => rfl
  next hdash hat => exact absurd ⟨hdash, hat⟩ hs

/-- The options that take a value begin with a dash. -/
theorem notMem_settingNames (hs : IsUnmarked s) : s ∉ settingNames := by
  have hdash : ∀ n ∈ settingNames, n.toList.head? = some '-' := by decide
  exact fun hmem => hs.1 (hdash s hmem)

end Argument

/-! ## The arguments of a compile -/

open Argument

variable {ι σ : Type} {params : Parameters} {edition name : String} {source out : Path}

/-- The warning setting that the parameters choose. -/
def lint (params : Parameters) : Argument :=
  if params.warningsAsErrors then .setting "-D" "warnings"
  else if params.warningLevel = 0 then .setting "-A" "warnings"
  else .setting "--cap-lints" "warn"

/-- What a reading should say: one input, one output, and all that the parameters ask for; no
other option, and no file of arguments. -/
structure Means (params : Parameters) (edition name : String) (source out : Path)
    (as : List Argument) : Prop where
  inputs : as.filterMap input? = [source.spelling]
  outputs : as.filterMap (value? "-o") = [out.spelling]
  editions : as.filterMap (value? "--edition") = [edition]
  names : as.filterMap (value? "--crate-name") = [name]
  types : as.filterMap (value? "--crate-type") = [crateType params.target]
  lints : as.filterMap lint? = [lint params]
  dependencies : as.filterMap (value? "--extern") = params.dependencies
  flags : as.filterMap flag? = ["--error-format=json"] ++
    (if params.debugInformation then ["-g"] else []) ++ (if params.optimize then ["-O"] else [])
  argumentFiles : as.filterMap argumentFile? = []

/-- The reading of the source, and of the option behind it. -/
def sourceReading (s : String) : List Argument :=
  if s ∈ settingNames then [.setting s "--error-format=json"]
  else [alone s, .flag "--error-format=json"]

/-- The reading of what follows. -/
def parameterReading (params : Parameters) (edition name : String) (out : Path) : List Argument :=
  [.setting "--edition" edition, .setting "--crate-name" name,
    .setting "--crate-type" (crateType params.target), lint params, .setting "-o" out.spelling] ++
    (if params.debugInformation then [.flag "-g"] else []) ++
    (if params.optimize then [.flag "-O"] else []) ++
    params.dependencies.map (.setting "--extern")

theorem read_parameters (params : Parameters) (edition name : String) (out : Path) :
    read (["--edition", edition, "--crate-name", name, "--crate-type", crateType params.target] ++
      lintFlags params ++ ["-o", out.spelling] ++
      (if params.debugInformation then ["-g"] else []) ++
      (if params.optimize then ["-O"] else []) ++
      params.dependencies.flatMap fun d => ["--extern", d]) =
      some (parameterReading params edition name out) := by
  have hlint (rest : List String) :
      read (lintFlags params ++ rest) = (read rest).map (lint params :: ·) := by
    unfold lintFlags lint
    split
    · exact read_setting (by decide)
    · split <;> exact read_setting (by decide)
  simp only [List.append_assoc, List.cons_append, List.nil_append]
  rw [read_setting (by decide), read_setting (by decide), read_setting (by decide), hlint,
    read_setting (by decide), read_flag_append (by decide) (by decide),
    read_flag_append (by decide) (by decide), read_settings (by decide)]
  simp only [Option.map_some, parameterReading, List.append_assoc, List.cons_append,
    List.nil_append]

/-- **The arguments of a compile can be read**, whatever its source is. -/
theorem read_arguments (params : Parameters) (edition name : String) (source out : Path) :
    read (arguments params edition name source out) =
      some (sourceReading source.spelling ++ parameterReading params edition name out) := by
  have hparameters := read_parameters params edition name out
  simp only [List.append_assoc, List.cons_append, List.nil_append] at hparameters
  simp only [arguments, List.append_assoc, List.cons_append, List.nil_append]
  by_cases hs : source.spelling ∈ settingNames
  · rw [sourceReading, if_pos hs, read_setting hs, hparameters]
    rfl
  · rw [sourceReading, if_neg hs, read_alone hs, read_alone (by decide), hparameters]
    rfl

theorem lint_cases (params : Parameters) : lint params = .setting "-D" "warnings" ∨
    lint params = .setting "-A" "warnings" ∨ lint params = .setting "--cap-lints" "warn" := by
  unfold lint
  split
  · exact .inl rfl
  · split
    · exact .inr (.inl rfl)
    · exact .inr (.inr rfl)

theorem lint?_lint (params : Parameters) : (lint params).lint? = some (lint params) := by
  rcases lint_cases params with h | h | h <;> rw [h] <;> decide

/-- The warning setting is no input, no flag, and no other option. -/
theorem lint_eq_none (params : Parameters) : (lint params).input? = none ∧
    (lint params).argumentFile? = none ∧ (lint params).flag? = none ∧
      ∀ n, n ∉ lintNames → (lint params).value? n = none := by
  have hvalue {m v : String} (hm : m ∈ lintNames) (n : String) (hn : n ∉ lintNames) :
      (Argument.setting m v).value? n = none := by
    refine if_neg ?_
    rintro rfl
    exact hn hm
  rcases lint_cases params with h | h | h <;> rw [h] <;>
    exact ⟨rfl, rfl, rfl, hvalue (by decide)⟩

theorem filterMap_parameterReading {β : Type} (f : Argument → Option β) :
    (parameterReading params edition name out).filterMap f =
      (f (.setting "--edition" edition)).toList ++ (f (.setting "--crate-name" name)).toList ++
        (f (.setting "--crate-type" (crateType params.target))).toList ++
        (f (lint params)).toList ++ (f (.setting "-o" out.spelling)).toList ++
        (if params.debugInformation then (f (.flag "-g")).toList else []) ++
        (if params.optimize then (f (.flag "-O")).toList else []) ++
        params.dependencies.filterMap fun d => f (.setting "--extern" d) := by
  have hcons (a : Argument) (as : List Argument) :
      (a :: as).filterMap f = (f a).toList ++ as.filterMap f := by
    rw [List.filterMap_cons]
    cases f a <;> rfl
  have hflag (b : Bool) (a : Argument) :
      (if b then [a] else []).filterMap f = if b then (f a).toList else [] := by
    cases b
    · rfl
    · rw [if_pos rfl, if_pos rfl, hcons, List.filterMap_nil, List.append_nil]
  simp only [parameterReading, List.filterMap_append, hcons, hflag, List.filterMap_map,
    List.filterMap_nil, List.append_nil, List.append_assoc]
  rfl

/-- Behind the source stands no input. -/
theorem inputs_parameterReading :
    (parameterReading params edition name out).filterMap input? = [] := by
  obtain ⟨hinput, -⟩ := lint_eq_none params
  rw [filterMap_parameterReading, hinput]
  simp [input?]

/-- A source that is an input leaves everything as it should be. -/
theorem means_of_input (params : Parameters) (edition name : String) (source out : Path) :
    Means params edition name source out
      ([.input source.spelling, .flag "--error-format=json"] ++
        parameterReading params edition name out) := by
  obtain ⟨hinput, hfile, hflag, hvalue⟩ := lint_eq_none params
  constructor <;> rw [List.filterMap_append, filterMap_parameterReading]
  case inputs => rw [hinput]; simp [input?]
  case argumentFiles => rw [hfile]; simp [argumentFile?]
  case flags => rw [hflag, List.filterMap_cons, List.filterMap_cons]; simp [flag?]
  case lints => rw [lint?_lint]; simp [lint?, lintNames]
  all_goals rw [hvalue _ (by decide)]; simp [value?]

/-- **The arguments say what they should if and only if the source is an input.** Otherwise they
give no input at all. -/
theorem means_sourceReading_iff : (Means params edition name source out
      (sourceReading source.spelling ++ parameterReading params edition name out) ↔
        IsUnmarked source.spelling) ∧
    (¬ IsUnmarked source.spelling → (sourceReading source.spelling ++
      parameterReading params edition name out).filterMap input? = []) := by
  have hno (hs : ¬ IsUnmarked source.spelling) : (sourceReading source.spelling ++
      parameterReading params edition name out).filterMap input? = [] := by
    rw [List.filterMap_append, inputs_parameterReading, List.append_nil, sourceReading]
    split
    · rfl
    · rw [List.filterMap_cons, input?_alone hs]
      rfl
  refine ⟨⟨fun hmeans => ?_, fun hs => ?_⟩, hno⟩
  · by_contra hs
    have hinputs := hmeans.inputs
    rw [hno hs] at hinputs
    cases hinputs
  · rw [sourceReading, if_neg (notMem_settingNames hs), alone_of_isUnmarked hs]
    exact means_of_input params edition name source out

/-! ## The start of a compile -/

/-- The file that is handed to the compiler: a file without resources where it is, and the file
that the source is written to otherwise. -/
def handed (t : Toolchain ι σ) (id : BuildId) (params : Parameters) : Source → Path
  | .text _ => sourceFile t id
  | .file path => if params.resources.isEmpty then path else sourceFile t id

namespace Point

variable {t : Toolchain ι σ} {id : BuildId} {source : Source} {p : Point σ} {h : Host ι}
  {before : List (List String)}

/-- The starts after the one of a compile. -/
def startsAfter (t : Toolchain ι σ) (id : BuildId) (params : Parameters) (source : Source)
    (before : List (List String)) : List (List String) :=
  before ++ [runArguments t id params (handed t id params source)]

/-- What a compile has started by a point: nothing before its run, and one compiler after it, with
the arguments for the source of the compile. -/
def Launched (t : Toolchain ι σ) (id : BuildId) (params : Parameters) (source : Source)
    (before : List (List String)) (h : Host ι) : Point σ → Prop
  | begin | prepared => h.starts = before
  | writing _ => h.starts = before ∧ handed t id params source = sourceFile t id
  | sourced path | ready path => h.starts = before ∧ handed t id params source = path
  | loading _ | storing _ | opening _ | hung | answered (.ok _) =>
    h.starts = startsAfter t id params source before
  | answered (.error _) => h.starts = before ∨ h.starts = startsAfter t id params source before

theorem Launched.starts (hp : p.Launched t id params source before h) :
    h.starts = before ∨ h.starts = startsAfter t id params source before := by
  cases p with
  | begin | prepared => exact .inl hp
  | writing | sourced | ready => exact .inl hp.1
  | loading | storing | opening | hung => exact .inr hp
  | answered a =>
    cases a with
    | ok r => exact .inr hp
    | error f => exact hp

/-- The source is known after the second step. -/
theorem launched_step_prepared (hp : prepared.Launched (σ := σ) t id params source before h) :
    (prepared.step t id params source h).1.Launched t id params source before
      (prepared.step t id params source h).2 := by
  cases source with
  | text text => exact ⟨hp, rfl⟩
  | file path =>
    by_cases hempty : params.resources.isEmpty
    · have hstep : prepared.step t id params (.file path) h = (sourced path, h) := by
        simp only [step, advance, hempty, if_true]
        rfl
      rw [hstep]
      exact ⟨hp, if_pos hempty⟩
    · have hadvance : prepared.advance t id params (.file path) =
          look ("Failed to read " ++ path.spelling) (fun files => files.read? path >>= textOf?)
            >>= fun text => pure (writing text) := by
        simp only [advance, hempty]
        rfl
      rw [step_eq_of_bind hadvance]
      rcases run_look ("Failed to read " ++ path.spelling)
        (fun files => files.read? path >>= textOf?) h with ⟨text, -, hrun⟩ | ⟨f, hrun⟩
      · rw [hrun]
        exact ⟨hp, if_neg hempty⟩
      · rw [hrun]
        exact .inl hp

theorem launched_ofRun {f : Finished} (hstarts : h.starts = startsAfter t id params source before) :
    (ofRun (σ := σ) f).Launched t id params source before h := by
  unfold ofRun
  cases f.judge with
  | sourceErrors entries => exact hstarts
  | failure msg => exact .inr hstarts
  | success entries => exact hstarts

/-- **Each step starts what it should.** -/
theorem launched_step (hp : p.Launched t id params source before h) (hfinal : p.isFinal = false) :
    (p.step t id params source h).1.Launched t id params source before
      (p.step t id params source h).2 := by
  by_cases hprepared : p = prepared
  · subst hprepared
    exact launched_step_prepared hp
  have hmoves : Moves t id params h p (p.step t id params source h).1
      (p.step t id params source h).2 := moves_step hfinal
  generalize p.step t id params source h = next at hmoves
  obtain ⟨p', h'⟩ := next
  cases hmoves with
  | failed => exact hp.starts
  | quiet _ hq =>
    cases hq with
    | prepared => exact hp
    | writing | inPlace => exact absurd rfl hprepared
    | ready => exact hp
    | storing | unstored | unstored' | marked => exact hp
  | written => exact ⟨hp.1, hp.2⟩
  | ended =>
    refine launched_ofRun ?_
    rw [← hp.1, startsAfter, hp.2]
  | hung =>
    rw [Launched, startsAfter, hp.2, ← hp.1]
  | copied => exact hp
  | opened => exact hp
  | refused => exact .inr hp

/-- **A whole compile starts what it should.** -/
theorem launched_run (hp : p.Launched t id params source before h) :
    (ofAnswer ((p.rest t id params source).run h).1).Launched t id params source before
      ((p.rest t id params source).run h).2 := by
  -- a step lowers the rank of the point
  induction hrank : p.rank using Nat.strong_induction_on generalizing p h with
  | _ n ih =>
    cases hfinal : p.isFinal with
    | true =>
      obtain ⟨r, hr, rfl⟩ : ∃ r, (p.rest t id params source).run h = (r, h) ∧
          p = ofAnswer r := run_rest_of_isFinal hfinal h
      rw [hr]
      exact hp
    | false =>
      rw [run_rest_step hfinal]
      exact ih _ (hrank ▸ (moves_step hfinal).rank_lt hfinal) (launched_step hp hfinal) rfl

theorem Launched.of_compile (t : Toolchain ι σ) (id : BuildId) (params : Parameters)
    (source : Source) (h : Host ι) :
    (ofAnswer ((compile t id params source).run h).1).Launched t id params source h.starts
      ((compile t id params source).run h).2 :=
  launched_run (p := begin) rfl

end Point

/-- A path from the root is an input. -/
theorem isUnmarked_of_isAbsolute {p : Path} (hp : p.isAbsolute = true) :
    IsUnmarked p.spelling := by
  rw [Path.isAbsolute, beq_iff_eq] at hp
  unfold IsUnmarked
  rw [hp]
  decide

/-- **What the start of a compile means.** A compile starts the compiler once at most, and one with
a report has started it. The arguments of the start can be read. They say what they should, which
is one input, one output and all that the parameters ask for, if and only if the file that is handed
to the compiler begins with neither a dash nor an at sign; otherwise they name no input at all. -/
theorem means_launched (t : Toolchain ι σ) (id : BuildId) (params : Parameters) (source : Source)
    (h : Host ι) :
    (((compile t id params source).run h).2.starts = h.starts ∨
      ∃ args, ((compile t id params source).run h).2.starts = h.starts ++ [args]) ∧
    (∀ r, ((compile t id params source).run h).1 = .ok r →
      ∃ args, ((compile t id params source).run h).2.starts = h.starts ++ [args]) ∧
    ∀ args, ((compile t id params source).run h).2.starts = h.starts ++ [args] →
      ∃ as, Argument.read args = some as ∧
        (Means params t.edition (crateName id params.target) (handed t id params source)
          (output t id params.target) as ↔ IsUnmarked (handed t id params source).spelling) ∧
        (¬ IsUnmarked (handed t id params source).spelling → as.filterMap input? = []) := by
  have hlaunched := Point.Launched.of_compile t id params source h
  refine ⟨hlaunched.starts.imp_right fun hone => ⟨_, hone⟩, fun r hr => ?_,
    fun args hargs => ?_⟩
  · rw [hr] at hlaunched
    exact ⟨_, hlaunched⟩
  · have hrun : args = runArguments t id params (handed t id params source) := by
      rcases hlaunched.starts with hnone | hone
      · simp [hnone] at hargs
      · rw [hone, Point.startsAfter, List.append_cancel_left_eq, List.singleton_inj] at hargs
        exact hargs.symm
    rw [hrun, runArguments]
    exact ⟨_, read_arguments .., means_sourceReading_iff⟩

/-- The parameters of a library in memory. -/
def inMemoryParameters : Parameters := ⟨.inMemory, true, 2, false, true, [], []⟩

/-- The first build of a library that does nothing, from its text. -/
theorem means_launched_text : ∃ args as,
    ((compile Service.noLinkerToolchain Service.firstBuild inMemoryParameters
      (.text "fn main() \x7b\x7d")).run Service.bareHost).2.starts = [args] ∧
    Argument.read args = some as ∧
    Means inMemoryParameters "2021" "dyncode_01" ⟨"/work/0-1.rs"⟩
      ⟨"/work/0-1/libdyncode_01.so"⟩ as := by
  have hstarts : ((compile Service.noLinkerToolchain Service.firstBuild inMemoryParameters
      (.text "fn main() \x7b\x7d")).run Service.bareHost).2.starts =
      [runArguments Service.noLinkerToolchain Service.firstBuild inMemoryParameters
        ⟨"/work/0-1.rs"⟩] := by decide +kernel
  obtain ⟨-, -, hmeans⟩ := means_launched Service.noLinkerToolchain Service.firstBuild
    inMemoryParameters (.text "fn main() \x7b\x7d") Service.bareHost
  obtain ⟨as, hread, hiff, -⟩ := hmeans _ hstarts
  have hout : output Service.noLinkerToolchain Service.firstBuild inMemoryParameters.target =
      ⟨"/work/0-1/libdyncode_01.so"⟩ := by decide
  have hhanded : handed Service.noLinkerToolchain Service.firstBuild inMemoryParameters
      (.text "fn main() \x7b\x7d") = ⟨"/work/0-1.rs"⟩ := by decide
  rw [hout, hhanded] at hiff
  exact ⟨_, as, hstarts, hread, hiff.2 (isUnmarked_of_isAbsolute (by decide))⟩

/-- A host on which the compiler is installed, with a source whose name begins with a dash. -/
def dashedHost : Host Unit :=
  .ofFiles ⟨[([['r', 'u', 's', 't', 'c']], .file (.bytes []) true),
    ([['-', 'x', '.', 'r', 's']], .file (.bytes (Utf8.encode "fn main() \x7b\x7d")) false)], [],
    ⟨"/"⟩⟩

/-- A request for a source file whose name begins with a dash is accepted, and the compiler is
started for it. It takes the file for an option, and has no input. -/
theorem exists_start_without_input : ∃ params source args as,
    Request.prepare dashedHost.files.pathExists { sourceFile := some ⟨"-x.rs"⟩ } =
      .ok (params, source) ∧
    handed Service.noLinkerToolchain Service.firstBuild params source = ⟨"-x.rs"⟩ ∧
    ((compile Service.noLinkerToolchain Service.firstBuild params source).run
      dashedHost).2.starts = [args] ∧
    Argument.read args = some as ∧ "-x.rs" ∈ as.filterMap flag? ∧
    as.filterMap input? = [] := by
  have hexists : dashedHost.files.pathExists ⟨"-x.rs"⟩ = true := by decide
  have hsource : Request.source? dashedHost.files.pathExists { sourceFile := some ⟨"-x.rs"⟩ } =
      .ok (.file ⟨"-x.rs"⟩) := by
    simp only [Request.source?, hexists, if_true]
  have hprepare : Request.prepare dashedHost.files.pathExists { sourceFile := some ⟨"-x.rs"⟩ } =
      .ok (inMemoryParameters, .file ⟨"-x.rs"⟩) := by
    rw [Request.prepare, hsource]
    rfl
  refine ⟨_, _, runArguments Service.noLinkerToolchain Service.firstBuild inMemoryParameters
    ⟨"-x.rs"⟩, _, hprepare, rfl, by decide +kernel, read_arguments .., ?_, ?_⟩
  · decide +kernel
  · decide +kernel

end LiveBuild.Compiler
