import LiveBuild.Compiler.Compile
import LiveBuild.Proofs.Build.Outcome
import LiveBuild.Proofs.Locks.Entries

/-!
# What the compiler is asked to do

`served_ofSteps`: the steps by which a request is made, and the files that exist, decide whether the
compiler is asked, and for what. The compiler is asked at most once.

* `Step.last`, `Step.all`: the argument of the last step of a kind, and those of all of them;
* `ofSteps_eq`: the request that the steps make, field by field. A step replaces its field or adds
  to it, and leaves the others alone (`ofSteps_append`), so this is an induction over the steps from
  the last one backwards;
* `Step.EmptyPath`, `Step.NoSource`: the two reasons for which a request is rejected, told by its
  steps, and `Step.Asked`: what is handed over otherwise. `prepare_of_emptyPath`,
  `prepare_of_noSource` and `exists_prepare` are the three cases;
* `Service.recorded`: a compiler with a state that keeps a record, which makes it visible what it
  was asked (`handle_eq_recorded`).
-/

namespace LiveBuild

namespace Request

namespace Step

/-! ## Steps of one kind -/

/-- The argument of a step that sets the source text. -/
def sourceText? : Step → Option String
  | sourceText text => some text
  | _ => none

/-- The argument of a step that sets the source file. -/
def sourceFile? : Step → Option Path
  | sourceFile path => some path
  | _ => none

/-- The argument of a step that sets the executable path. -/
def executablePath? : Step → Option Path
  | executablePath path => some path
  | _ => none

/-- The argument of a step that sets the library path. -/
def libraryPath? : Step → Option Path
  | libraryPath path => some path
  | _ => none

/-- The argument of a step that adds a resource. -/
def resource? : Step → Option Path
  | resource path => some path
  | _ => none

/-- The argument of a step that adds a dependency. -/
def dependency? : Step → Option String
  | dependency name => some name
  | _ => none

variable {β : Type}

/-- The arguments of all steps of a kind, in their order. -/
def all (kind : Step → Option β) (steps : List Step) : List β := steps.filterMap kind

/-- The argument of the last step of a kind. -/
def last (kind : Step → Option β) (steps : List Step) : Option β := (all kind steps).getLast?

theorem all_append (kind : Step → Option β) (steps : List Step) (step : Step) :
    all kind (steps ++ [step]) = all kind steps ++ (kind step).toList := by
  cases h : kind step <;> simp [all, h]

theorem last_append (kind : Step → Option β) (steps : List Step) (step : Step) :
    last kind (steps ++ [step]) = (kind step).or (last kind steps) := by
  rw [last, all_append, last]
  cases kind step <;> simp

end Step

open Step (all last)

variable {steps : List Step} {fileExists : Path → Bool}

theorem ofSteps_append (steps : List Step) (step : Step) :
    ofSteps (steps ++ [step]) = (ofSteps steps).apply step := by
  rw [ofSteps, List.foldl_append]
  rfl

/-- **A field has the argument of the last step that sets it**, and a list has the arguments of all
steps that add to it. -/
theorem ofSteps_eq (steps : List Step) :
    ofSteps steps =
      { sourceText := last Step.sourceText? steps
        sourceFile := last Step.sourceFile? steps
        executablePath := last Step.executablePath? steps
        libraryPath := last Step.libraryPath? steps
        resources := all Step.resource? steps
        dependencies := all Step.dependency? steps } := by
  induction steps using List.reverseRecOn with
  | nil => rfl
  | append_singleton steps step ih =>
    rw [ofSteps_append, ih]
    cases step <;>
      simp [apply, Step.last_append, Step.all_append, Step.sourceText?, Step.sourceFile?,
        Step.executablePath?, Step.libraryPath?, Step.resource?, Step.dependency?]

/-! ## What is handed over -/

namespace Step

/-- The path on disk that the steps ask for is empty. An executable path decides before a library
path, even if it is empty. -/
def EmptyPath (steps : List Step) : Prop :=
  last executablePath? steps = some ⟨""⟩ ∨
    last executablePath? steps = none ∧ last libraryPath? steps = some ⟨""⟩

/-- There is no source file that exists, and no source text that is not empty. -/
def NoSource (fileExists : Path → Bool) (steps : List Step) : Prop :=
  (∀ file, last sourceFile? steps = some file → fileExists file = false) ∧
    ∀ text, last sourceText? steps = some text → text = ""

/-- Parameters and a source are those that the steps ask for. -/
structure Asked (fileExists : Path → Bool) (steps : List Step) (params : Parameters)
    (source : Source) : Prop where
  executable : ∀ path, last executablePath? steps = some path → params.target = .executable path
  library : last executablePath? steps = none → ∀ path, last libraryPath? steps = some path →
    params.target = .library path
  inMemory : last executablePath? steps = none → last libraryPath? steps = none →
    params.target = .inMemory
  /-- The lists are in the order of the steps, with duplicates. -/
  resources : params.resources = all resource? steps
  dependencies : params.dependencies = all dependency? steps
  /-- No step has a say in how to compile. -/
  options : params.debugInformation = true ∧ params.warningLevel = warningLevel ∧
    params.warningsAsErrors = false ∧ params.optimize = true
  file : ∀ file, last sourceFile? steps = some file → fileExists file = true → source = .file file
  text : (∀ file, last sourceFile? steps = some file → fileExists file = false) →
    ∃ text, last sourceText? steps = some text ∧ text ≠ "" ∧ source = .text text

end Step

open Step (Asked EmptyPath NoSource)

theorem target?_of_emptyPath (h : EmptyPath steps) :
    (ofSteps steps).target? = .error (.emptyOutputPath (ofSteps steps).mode) := by
  rw [ofSteps_eq]
  rcases h with h | ⟨h, h'⟩
  · simp [target?, outputPath?, mode, h, Path.isEmpty]
  · simp [target?, outputPath?, mode, h, h', Path.isEmpty]

/-- Without an empty path the request has a target, and the steps decide which. -/
theorem exists_target? (h : ¬ EmptyPath steps) : ∃ target, (ofSteps steps).target? = .ok target ∧
    (∀ path, last Step.executablePath? steps = some path → target = .executable path) ∧
    (last Step.executablePath? steps = none → ∀ path, last Step.libraryPath? steps = some path →
      target = .library path) ∧
    (last Step.executablePath? steps = none → last Step.libraryPath? steps = none →
      target = .inMemory) := by
  rw [EmptyPath, not_or, not_and] at h
  rw [ofSteps_eq]
  cases hexecutable : last Step.executablePath? steps with
  | some path =>
    have hpath : path.spelling ≠ "" := fun hempty => h.1 (by rw [hexecutable, ← hempty])
    exact ⟨.executable path, by simp [target?, outputPath?, mode, Path.isEmpty, hpath], by simp⟩
  | none =>
    cases hlibrary : last Step.libraryPath? steps with
    | some path =>
      have hpath : path.spelling ≠ "" := fun hempty =>
        h.2 hexecutable (by rw [hlibrary, ← hempty])
      exact ⟨.library path, by simp [target?, outputPath?, mode, Path.isEmpty, hpath], by simp⟩
    | none => exact ⟨.inMemory, by simp [target?, outputPath?, mode], by simp⟩

theorem source?_of_noSource (h : NoSource fileExists steps) :
    (ofSteps steps).source? fileExists = .error (.noSource (last Step.sourceFile? steps)) := by
  obtain ⟨hfile, htext⟩ := h
  rw [ofSteps_eq, source?]
  cases hf : last Step.sourceFile? steps with
  | none =>
    cases ht : last Step.sourceText? steps with
    | none => rfl
    | some text => simp [htext text ht]
  | some file =>
    cases ht : last Step.sourceText? steps with
    | none => simp [hfile file hf]
    | some text => simp [hfile file hf, htext text ht]

/-- With a source file that exists or a source text there is a source, and the file comes first. -/
theorem exists_source? (h : ¬ NoSource fileExists steps) :
    ∃ source, (ofSteps steps).source? fileExists = .ok source ∧
      (∀ file, last Step.sourceFile? steps = some file → fileExists file = true →
        source = .file file) ∧
      ((∀ file, last Step.sourceFile? steps = some file → fileExists file = false) →
        ∃ text, last Step.sourceText? steps = some text ∧ text ≠ "" ∧ source = .text text) := by
  rw [ofSteps_eq, source?]
  by_cases hfile : ∃ file, last Step.sourceFile? steps = some file ∧ fileExists file = true
  · obtain ⟨file, hf, hexists⟩ := hfile
    refine ⟨.file file, by simp [hf, hexists], ?_, fun hno => ?_⟩
    · rintro file' hf' -
      rw [Option.some_inj.1 (hf.symm.trans hf')]
    · rw [hno file hf] at hexists
      cases hexists
  · have hno : ∀ file, last Step.sourceFile? steps = some file → fileExists file = false :=
      fun file hf => Bool.eq_false_iff.2 fun hexists => hfile ⟨file, hf, hexists⟩
    obtain ⟨text, ht, hne⟩ : ∃ text, last Step.sourceText? steps = some text ∧ text ≠ "" := by
      by_contra hall
      refine h ⟨hno, fun text ht => ?_⟩
      by_contra hne
      exact hall ⟨text, ht, hne⟩
    refine ⟨.text text, ?_, fun file hf hexists => ?_, fun _ => ⟨text, ht, hne, rfl⟩⟩
    · cases hf : last Step.sourceFile? steps with
      | none => simp [ht, hne]
      | some file => simp [ht, hne, hno file hf]
    · rw [hno file hf] at hexists
      cases hexists

/-- An empty path is noticed first, whatever the source is. -/
theorem prepare_of_emptyPath (h : EmptyPath steps) :
    (ofSteps steps).prepare fileExists = .error (.emptyOutputPath (ofSteps steps).mode) := by
  rw [prepare, parameters?, target?_of_emptyPath h]
  rfl

theorem prepare_of_noSource (h : ¬ EmptyPath steps) (hsource : NoSource fileExists steps) :
    (ofSteps steps).prepare fileExists = .error (.noSource (last Step.sourceFile? steps)) := by
  obtain ⟨target, htarget, -⟩ := exists_target? h
  rw [prepare, parameters?, htarget, source?_of_noSource hsource]
  rfl

theorem exists_prepare (h : ¬ EmptyPath steps) (hsource : ¬ NoSource fileExists steps) :
    ∃ params source, (ofSteps steps).prepare fileExists = .ok (params, source) ∧
      Asked fileExists steps params source := by
  obtain ⟨target, htarget, hexecutable, hlibrary, hinMemory⟩ := exists_target? h
  obtain ⟨source, hok, hfile, htext⟩ := exists_source? hsource
  refine ⟨_, source, by rw [prepare, parameters?, htarget, hok]; rfl, ?_⟩
  exact {
    executable := hexecutable
    library := hlibrary
    inMemory := hinMemory
    resources := by rw [ofSteps_eq]
    dependencies := by rw [ofSteps_eq]
    options := ⟨rfl, rfl, rfl, rfl⟩
    file := hfile
    text := htext }

end Request

/-! ## Requests and a compiler with a state -/

namespace Service

open Request (Step ofSteps)
open Request.Step (Asked EmptyPath NoSource last)

variable {σ α ι τ : Type} {fileExists : Path → Bool} {steps : List Step}

/-- A compiler with a state, which answers or never ends. -/
abbrev StatefulBackend (σ α : Type) := Backend (OptionT (StateM σ)) α

/-- A compiler that keeps a record of what it was asked. -/
def recorded (ask : StatefulBackend σ α) : StatefulBackend (σ × List (Parameters × Source)) α :=
  fun params source => OptionT.mk fun (s, calls) =>
    let (answer, s) := (ask params source).run s
    (answer, s, calls ++ [(params, source)])

/-- A compiler without a state. -/
def answering (compile : Parameters → Source → Except Fault (Report α)) : StatefulBackend Unit α :=
  fun params source => pure (compile params source)

section

variable {r : Request} {ask : StatefulBackend σ α} {s : σ}

theorem run_handle_of_error {e : Rejection} (h : r.prepare fileExists = .error e) :
    (handle fileExists r ask).run s = (some (.aborted (.rejected e)), s) := by
  rw [handle_of_error h]
  rfl

theorem run_handle_of_ok {params : Parameters} {source : Source}
    (h : r.prepare fileExists = .ok (params, source)) :
    (handle fileExists r ask).run s =
      (((ask params source).run s).1.map (.ofAnswer r.mode params.target),
        ((ask params source).run s).2) := by
  rw [handle_of_ok h, OptionT.run_map]
  rfl

theorem some_settle_eq (r : Request) (compile : Parameters → Source → Except Fault (Report α)) :
    some (settle fileExists r compile) = ((handle fileExists r (answering compile)).run ()).1 := by
  cases h : r.prepare fileExists with
  | error e => rw [settle_of_error h, run_handle_of_error h]
  | ok input => rw [settle_of_ok h, run_handle_of_ok h]; rfl

/-- The record makes no difference. -/
theorem handle_eq_recorded (r : Request) (ask : StatefulBackend σ α) (s : σ) :
    (handle fileExists r ask).run s =
      (((handle fileExists r (recorded ask)).run (s, [])).1,
        ((handle fileExists r (recorded ask)).run (s, [])).2.1) := by
  cases h : r.prepare fileExists with
  | error e => rw [run_handle_of_error h, run_handle_of_error h]
  | ok input => rw [run_handle_of_ok h, run_handle_of_ok h]; rfl

end

/-- An outcome, the state after it and the record of the compiler are those that the steps ask
for. -/
structure Served (fileExists : Path → Bool) (steps : List Step) (ask : StatefulBackend σ α) (s : σ)
    (o : Option (Outcome α)) (t : σ) (calls : List (Parameters × Source)) : Prop where
  /-- The compiler is asked at most once. -/
  length_calls : calls.length ≤ 1
  asked : ∀ params source, (params, source) ∈ calls → Asked fileExists steps params source ∧
    o = ((ask params source).run s).1.map (.ofAnswer (ofSteps steps).mode params.target) ∧
    t = ((ask params source).run s).2
  not_asked_iff : calls = [] ↔ EmptyPath steps ∨ NoSource fileExists steps
  rejected : calls = [] → t = s ∧ ∃ e, o = some (.aborted (.rejected e))
  emptyPath : EmptyPath steps →
    o = some (.aborted (.rejected (.emptyOutputPath (ofSteps steps).mode)))
  noSource : ¬ EmptyPath steps → NoSource fileExists steps →
    o = some (.aborted (.rejected (.noSource (last Step.sourceFile? steps))))

theorem served_of_emptyPath {ask : StatefulBackend σ α} {s : σ} (h : EmptyPath steps) :
    Served fileExists steps ask s
      (some (.aborted (.rejected (.emptyOutputPath (ofSteps steps).mode)))) s [] where
  length_calls := Nat.zero_le 1
  asked _ _ hmem := by cases hmem
  not_asked_iff := iff_of_true rfl (.inl h)
  rejected _ := ⟨rfl, _, rfl⟩
  emptyPath _ := rfl
  noSource hno := absurd h hno

theorem served_of_noSource {ask : StatefulBackend σ α} {s : σ} (h : ¬ EmptyPath steps)
    (hsource : NoSource fileExists steps) :
    Served fileExists steps ask s
      (some (.aborted (.rejected (.noSource (last Step.sourceFile? steps))))) s [] where
  length_calls := Nat.zero_le 1
  asked _ _ hmem := by cases hmem
  not_asked_iff := iff_of_true rfl (.inr hsource)
  rejected _ := ⟨rfl, _, rfl⟩
  emptyPath hempty := absurd hempty h
  noSource _ _ := rfl

theorem served_of_asked {ask : StatefulBackend σ α} {s : σ} {params : Parameters} {source : Source}
    (h : ¬ EmptyPath steps) (hsource : ¬ NoSource fileExists steps)
    (hasked : Asked fileExists steps params source) :
    Served fileExists steps ask s
      (((ask params source).run s).1.map (.ofAnswer (ofSteps steps).mode params.target))
      ((ask params source).run s).2 [(params, source)] where
  length_calls := le_rfl
  asked params' source' hmem := by
    obtain ⟨rfl, rfl⟩ := Prod.mk.inj (List.mem_singleton.1 hmem)
    exact ⟨hasked, rfl, rfl⟩
  not_asked_iff := iff_of_false (List.cons_ne_nil _ _) (not_or.2 ⟨h, hsource⟩)
  rejected hnil := by cases hnil
  emptyPath hempty := absurd hempty h
  noSource _ hno := absurd hno hsource

/-- A compiler that keeps a record is asked as the steps say: they lead to an empty path, or to no
source, or to both a target and a source. -/
theorem exists_served (fileExists : Path → Bool) (steps : List Step) (ask : StatefulBackend σ α)
    (s : σ) :
    ∃ o t calls, (handle fileExists (ofSteps steps) (recorded ask)).run (s, []) = (o, t, calls) ∧
      Served fileExists steps ask s o t calls := by
  by_cases h : EmptyPath steps
  · exact ⟨_, _, _, run_handle_of_error (Request.prepare_of_emptyPath h), served_of_emptyPath h⟩
  · by_cases hsource : NoSource fileExists steps
    · exact ⟨_, _, _, run_handle_of_error (Request.prepare_of_noSource h hsource),
        served_of_noSource h hsource⟩
    · obtain ⟨params, source, hok, hasked⟩ := Request.exists_prepare h hsource
      exact ⟨_, _, _, run_handle_of_ok hok, served_of_asked h hsource hasked⟩

/-- A task is rejected exactly if its steps ask for an empty path or for no source. -/
theorem work_job_eq_none_iff {cwd : Path} {t : Task α} (ht : t.request = ofSteps steps) :
    (t.job cwd fileExists).work = none ↔ EmptyPath steps ∨ NoSource fileExists steps := by
  by_cases h : EmptyPath steps
  · rw [Task.work_job_of_error (ht ▸ Request.prepare_of_emptyPath h)]
    exact iff_of_true rfl (.inl h)
  · by_cases hsource : NoSource fileExists steps
    · rw [Task.work_job_of_error (ht ▸ Request.prepare_of_noSource h hsource)]
      exact iff_of_true rfl (.inr hsource)
    · obtain ⟨params, source, hok, -⟩ := Request.exists_prepare h hsource
      rw [Task.work_job_of_ok (ht ▸ hok)]
      exact iff_of_false (fun hnone => by cases hnone) (not_or.2 ⟨h, hsource⟩)

/-- The number of times that the compiler is entered for a task, among other tasks. -/
theorem entries_runTasks (cwd : Path) (fileExists : Path → Bool) (limit : Option ℕ)
    (concurrent : Bool) {tasks : List (Task α)} {t : Task α} {i : ℕ} (hi : tasks[i]? = some t) :
    (runTasks cwd fileExists limit concurrent tasks).entries i =
      if (t.job cwd fileExists).work.isSome then 1 else 0 := by
  have hjob : (tasks.map (·.job cwd fileExists))[i]? = some (t.job cwd fileExists) := by
    rw [List.getElem?_map, hi, Option.map_some]
  rw [runTasks]
  cases concurrent with
  | true => exact Schedule.entries_run limit hjob
  | false => exact Schedule.entries_runInTurn limit hjob

/-- **What the compiler is asked to do follows from the steps.** Whatever the steps of a request
are, which files exist and what the compiler does, the compiler is asked at most once, and for what
the last steps of each kind say; and it is not asked at all exactly if the chosen path is empty or
there is no source. So it is with the service over the compiler of a toolchain; and among any other
tasks, at the same time or one after the other, the compiler is entered as often. -/
theorem served_ofSteps (fileExists : Path → Bool) (steps : List Step) (ask : StatefulBackend σ α)
    (s : σ) :
    (∃ o t calls, (handle fileExists (ofSteps steps) (recorded ask)).run (s, []) = (o, t, calls) ∧
      (handle fileExists (ofSteps steps) ask).run s = (o, t) ∧
      Served fileExists steps ask s o t calls) ∧
    (∀ compile : Parameters → Source → Except Fault (Report α),
      some (settle fileExists (ofSteps steps) compile) =
        ((handle fileExists (ofSteps steps) (answering compile)).run ()).1) ∧
    (∀ (t : Compiler.Toolchain ι τ) (limit : Option ℕ) (id : Compiler.BuildId)
      (h : Compiler.Host ι), compile t limit id (ofSteps steps) h =
        (handle h.files.pathExists (ofSteps steps) (toolchain t limit id)).run h) ∧
    ∀ (cwd : Path) (limit : Option ℕ) (concurrent : Bool) (before after : List (Task α))
      (answer : Except Fault (Report α)) (delay arrival looks : ℕ),
      let run := runTasks cwd fileExists limit concurrent
        (before ++ ⟨ofSteps steps, answer, delay, arrival, looks⟩ :: after)
      run.entries before.length ≤ 1 ∧
        (run.entries before.length = 0 ↔ EmptyPath steps ∨ NoSource fileExists steps) := by
  refine ⟨?_, fun c => some_settle_eq _ c, fun t limit id h => rfl,
    fun cwd limit concurrent before after answer delay arrival looks => ?_⟩
  · obtain ⟨o, t, calls, hrun, hserved⟩ := exists_served fileExists steps ask s
    refine ⟨o, t, calls, hrun, ?_, hserved⟩
    rw [handle_eq_recorded, hrun]
  · intro run
    let task : Task α := ⟨ofSteps steps, answer, delay, arrival, looks⟩
    have hentries : run.entries before.length =
        if (task.job cwd fileExists).work.isSome then 1 else 0 :=
      entries_runTasks cwd fileExists limit concurrent (by simp [task])
    have hnone : (task.job cwd fileExists).work = none ↔
        EmptyPath steps ∨ NoSource fileExists steps := work_job_eq_none_iff rfl
    rw [hentries, ← hnone]
    cases (task.job cwd fileExists).work <;> simp

end Service

end LiveBuild
