import LiveBuild.Build.Service
import LiveBuild.Proofs.Locks.Progress

/-!
# How builds end

`settled_outcomes`: every task that the service takes ends, in exactly one of three consistent ways,
and its own request, delay and answer decide in which.

* `Outcome.HasForm`: the three ways in which the four parts of an outcome may agree. Every outcome
  has exactly one of these forms (`existsUnique_hasForm`);
* `Outcome.hasForm_ofReport`, `ofReport_of_artifact`, `ofReport_of_none`: the outcome of a report;
* `Request.path?_of_prepare`: the target of a request that is accepted has the path of the request;
* `Task.Settled`: an outcome is the one that a task has to have. `settled_failed`, `settled_built`
  and `settled_aborted` are the three ways to get there;
* `outcomes_runTasks`: the outcome of a task does not depend on the tasks that run beside it.
-/

namespace LiveBuild

/-! ## Forms -/

namespace Outcome

/-- The ways in which the parts of an outcome may agree. -/
inductive Form
  | success
  | failure
  | abort
  deriving DecidableEq, Repr

variable {α : Type} {o : Outcome α} {mode : OutputMode} {target : Target} {r : Report α}

/-- The four parts of an outcome agree in the given way. -/
def HasForm (o : Outcome α) : Form → Prop
  | .success => o.isSuccess = true ∧ o.diagnostics = [] ∧ o.build?.isSome ∧ o.message? = none
  | .failure => o.isSuccess = false ∧ o.diagnostics ≠ [] ∧ o.build? = none ∧ o.message? = none
  | .abort => o.isSuccess = false ∧ o.diagnostics = [] ∧ o.build? = none ∧ o.message?.isSome

theorem hasForm_success_iff : o.HasForm .success ↔ ∃ b, o = built b := by
  cases o <;> simp [HasForm, isSuccess, diagnostics, build?, message?]

theorem hasForm_failure_iff : o.HasForm .failure ↔ ∃ first rest, o = failed first rest := by
  cases o <;> simp [HasForm, isSuccess, diagnostics, build?, message?]

theorem hasForm_abort_iff : o.HasForm .abort ↔ ∃ cause, o = aborted cause := by
  cases o <;> simp [HasForm, isSuccess, diagnostics, build?, message?]

/-- Every outcome has exactly one form. -/
theorem existsUnique_hasForm (o : Outcome α) : ∃! f, o.HasForm f := by
  cases o with
  | built b =>
    refine ⟨.success, hasForm_success_iff.2 ⟨b, rfl⟩, fun f hf => ?_⟩
    cases f with
    | success => rfl
    | failure => cases hf.1
    | abort => cases hf.1
  | failed first rest =>
    refine ⟨.failure, hasForm_failure_iff.2 ⟨first, rest, rfl⟩, fun f hf => ?_⟩
    cases f with
    | success => cases hf.1
    | failure => rfl
    | abort => cases hf.2.1
  | aborted cause =>
    refine ⟨.abort, hasForm_abort_iff.2 ⟨cause, rfl⟩, fun f hf => ?_⟩
    cases f with
    | success => cases hf.1
    | failure => exact absurd rfl hf.2.1
    | abort => rfl

/-! ## Reports -/

/-- The diagnostics of a report: its errors, in order and as they were reported. -/
def diagnosticsOf (r : Report α) : List Diagnostic :=
  (r.entries.filter (·.severity = .error)).map fun e => ⟨e.line, e.column, e.code, e.message⟩

theorem diagnosticsOf_eq (r : Report α) :
    (r.entries.filter (·.isError)).map Diagnostic.ofEntry = diagnosticsOf r := by
  rw [diagnosticsOf]
  rfl

theorem diagnosticsOf_ne_nil_iff :
    diagnosticsOf r ≠ [] ↔ ∃ e ∈ r.entries, e.severity = .error := by
  simp [diagnosticsOf]

/-- The errors of a report are the diagnostics, whether there is an artifact or not. -/
theorem diagnostics_ofReport : (ofReport mode target r).diagnostics = diagnosticsOf r := by
  rw [ofReport, diagnosticsOf_eq]
  cases diagnosticsOf r with
  | cons => rfl
  | nil => cases r.artifact <;> rfl

/-- One error is enough for a failure, even if there is an artifact. -/
theorem hasForm_ofReport (h : ∃ e ∈ r.entries, e.severity = .error) :
    (ofReport mode target r).HasForm .failure := by
  obtain ⟨first, rest, hcons⟩ := List.exists_cons_of_ne_nil (diagnosticsOf_ne_nil_iff.2 h)
  rw [ofReport, diagnosticsOf_eq, hcons]
  exact hasForm_failure_iff.2 ⟨first, rest, rfl⟩

theorem ofReport_of_artifact (h : ¬ ∃ e ∈ r.entries, e.severity = .error) {a : α}
    (ha : r.artifact = some a) : ofReport mode target r = built ⟨mode, target.path?, a⟩ := by
  rw [← diagnosticsOf_ne_nil_iff, not_not] at h
  simp only [ofReport, diagnosticsOf_eq, h, ha]

theorem ofReport_of_none (h : ¬ ∃ e ∈ r.entries, e.severity = .error) (ha : r.artifact = none) :
    ofReport mode target r = aborted .noArtifact := by
  rw [← diagnosticsOf_ne_nil_iff, not_not] at h
  simp only [ofReport, diagnosticsOf_eq, h, ha]

end Outcome

/-! ## Targets -/

namespace Request

variable {r : Request}

/-- A request has no output path exactly if its library stays in memory. -/
theorem outputPath?_eq_none_iff : r.outputPath? = none ↔ r.mode = .inMemoryLibrary := by
  rw [outputPath?, mode]
  cases r.executablePath <;> cases r.libraryPath <;> simp

/-- The target of a request has the output path of the request. -/
theorem path?_of_target? {target : Target} (h : r.target? = .ok target) :
    target.path? = r.outputPath? := by
  have hnone := r.outputPath?_eq_none_iff
  rw [target?] at h
  split at h
  next hmode =>
    obtain rfl := Except.ok.inj h
    exact (hnone.2 hmode).symm
  next path _ hpath =>
    split_ifs at h
    obtain rfl := Except.ok.inj h
    exact hpath.symm
  next path _ hpath =>
    split_ifs at h
    obtain rfl := Except.ok.inj h
    exact hpath.symm
  next => cases h

theorem target?_of_prepare {fileExists : Path → Bool} {params : Parameters} {source : Source}
    (h : r.prepare fileExists = .ok (params, source)) : r.target? = .ok params.target := by
  rw [prepare, parameters?] at h
  cases htarget : r.target? with
  | error e =>
    rw [htarget] at h
    cases h
  | ok target =>
    rw [htarget] at h
    cases hsource : r.source? fileExists with
    | error e =>
      rw [hsource] at h
      cases h
    | ok source =>
      rw [hsource] at h
      obtain ⟨rfl, -⟩ := Prod.mk.inj (Except.ok.inj h)
      rfl

theorem path?_of_prepare {fileExists : Path → Bool} {params : Parameters} {source : Source}
    (h : r.prepare fileExists = .ok (params, source)) : params.target.path? = r.outputPath? :=
  path?_of_target? (target?_of_prepare h)

end Request

/-! ## Tasks -/

namespace Service

variable {α : Type} {cwd : Path} {fileExists : Path → Bool} {limit : Option ℕ} {t : Task α}
  {r : Report α} {o : Outcome α}

section

variable {m : Type → Type} [Monad m] {request : Request} {ask : Backend m α}

theorem handle_of_error {e : Rejection} (h : request.prepare fileExists = .error e) :
    handle fileExists request ask = pure (.aborted (.rejected e)) := by
  rw [handle, h]

theorem handle_of_ok {params : Parameters} {source : Source}
    (h : request.prepare fileExists = .ok (params, source)) :
    handle fileExists request ask =
      Outcome.ofAnswer request.mode params.target <$> ask params source := by
  rw [handle, h]

variable {compile : Backend Id α}

theorem settle_of_error {e : Rejection} (h : request.prepare fileExists = .error e) :
    settle fileExists request compile = .aborted (.rejected e) := by
  rw [settle, handle_of_error h]
  rfl

theorem settle_of_ok {params : Parameters} {source : Source}
    (h : request.prepare fileExists = .ok (params, source)) :
    settle fileExists request compile =
      .ofAnswer request.mode params.target (compile params source) := by
  rw [settle, handle_of_ok h]
  rfl

end

theorem le_hold_iff {delay : ℕ} :
    delay ≤ Schedule.hold limit delay ↔ ∀ l, limit = some l → delay ≤ l := by
  cases limit with
  | none => simp [Schedule.hold]
  | some l => simp only [Schedule.hold, Nat.le_min, Nat.le_refl, true_and, Option.some.injEq,
      forall_eq']

namespace Task

/-- A task whose request is rejected has no work on the schedule. -/
theorem work_job_of_error {e : Rejection} (h : t.request.prepare fileExists = .error e) :
    (t.job cwd fileExists).work = none := by
  simp only [job, h]

theorem work_job_of_ok {params : Parameters} {source : Source}
    (h : t.request.prepare fileExists = .ok (params, source)) :
    (t.job cwd fileExists).work = some ⟨lockKey? cwd params.target, t.delay⟩ := by
  simp only [job, h]

/-- The request was accepted, and the compiler answered in time with a report. -/
structure Answered (fileExists : Path → Bool) (limit : Option ℕ) (t : Task α) (r : Report α) :
    Prop where
  accepted : ∃ input, t.request.prepare fileExists = .ok input
  inTime : ∀ l, limit = some l → t.delay ≤ l
  answer : t.answer = .ok r

/-- An outcome is consistent, and it is the one that the task has to have. -/
structure Settled (fileExists : Path → Bool) (limit : Option ℕ) (t : Task α) (o : Outcome α) :
    Prop where
  form : ∃! f, o.HasForm f
  success_iff : o.HasForm .success ↔ ∃ r, t.Answered fileExists limit r ∧ r.artifact.isSome ∧
    ¬ ∃ e ∈ r.entries, e.severity = .error
  /-- An artifact is the one that was reported, and has the mode and the path of the request. -/
  build : ∀ b, o.build? = some b →
    (∃ r, t.Answered fileExists limit r ∧ r.artifact = some b.artifact) ∧
    b.mode = t.request.mode ∧ b.path = t.request.outputPath? ∧
    (b.path = none ↔ b.mode = .inMemoryLibrary)
  failure_iff : o.HasForm .failure ↔ ∃ r, t.Answered fileExists limit r ∧
    ∃ e ∈ r.entries, e.severity = .error
  diagnostics : ∀ r, t.Answered fileExists limit r → (∃ e ∈ r.entries, e.severity = .error) →
    o.diagnostics = Outcome.diagnosticsOf r

/-- The outcome of a task, whatever runs beside it. -/
def outcome (cwd : Path) (fileExists : Path → Bool) (limit : Option ℕ) (t : Task α) : Outcome α :=
  t.outcomeOf fileExists limit ((t.job cwd fileExists).ending limit)

theorem Answered.unique {r' : Report α} (h : t.Answered fileExists limit r)
    (h' : t.Answered fileExists limit r') : r = r' :=
  Except.ok.inj (h.answer.symm.trans h'.answer)

/-- The outcome of a task whose compiler answered in time. -/
theorem Answered.outcome_eq (h : t.Answered fileExists limit r) (cwd : Path) :
    ∃ target : Target, target.path? = t.request.outputPath? ∧
      t.outcome cwd fileExists limit = .ofReport t.request.mode target r := by
  obtain ⟨⟨params, source⟩, hinput⟩ := h.accepted
  refine ⟨params.target, Request.path?_of_prepare hinput, ?_⟩
  have hending : (t.job cwd fileExists).ending limit = .answered := by
    simp only [job, hinput, Schedule.Job.ending, if_pos (le_hold_iff.2 h.inTime)]
  have hanswer : t.answerOf limit .answered = .ok r := h.answer
  rw [outcome, outcomeOf, settle_of_ok hinput, hending, hanswer]
  rfl

/-- The outcome of a task whose compiler was not asked, or did not answer in time with a report. -/
theorem outcome_of_not_answered (h : ∀ r, ¬ t.Answered fileExists limit r) (cwd : Path) :
    ∃ cause, t.outcome cwd fileExists limit = .aborted cause := by
  cases hinput : t.request.prepare fileExists with
  | error e => exact ⟨.rejected e, by rw [outcome, outcomeOf, settle_of_error hinput]⟩
  | ok input =>
    have hjob : (t.job cwd fileExists).ending limit =
        if t.delay ≤ Schedule.hold limit t.delay then .answered else .timedOut := by
      simp only [job, hinput, Schedule.Job.ending]
    rw [outcome, outcomeOf, settle_of_ok hinput, hjob]
    split_ifs with htime
    · cases hanswer : t.answer with
      | error f => exact ⟨.faulted f, by simp only [answerOf, hanswer, Outcome.ofAnswer]⟩
      | ok r => exact absurd ⟨⟨input, hinput⟩, le_hold_iff.1 htime, hanswer⟩ (h r)
    · exact ⟨_, rfl⟩

/-! ## Settled tasks -/

theorem settled_failed (h : t.Answered fileExists limit r)
    (herror : ∃ e ∈ r.entries, e.severity = .error) (hform : o.HasForm .failure)
    (hdiagnostics : o.diagnostics = Outcome.diagnosticsOf r) : t.Settled fileExists limit o where
  form := o.existsUnique_hasForm
  success_iff := by
    refine iff_of_false (fun hs => ?_) ?_
    · cases hform.1.symm.trans hs.1
    · rintro ⟨r', h', -, hno⟩
      exact hno (h.unique h' ▸ herror)
  build b hb := by
    rw [hform.2.2.1] at hb
    cases hb
  failure_iff := iff_of_true hform ⟨r, h, herror⟩
  diagnostics r' h' _ := h.unique h' ▸ hdiagnostics

theorem settled_built (h : t.Answered fileExists limit r)
    (hno : ¬ ∃ e ∈ r.entries, e.severity = .error) {a : α} (ha : r.artifact = some a)
    {path : Option Path} (hpath : path = t.request.outputPath?) :
    t.Settled fileExists limit (.built ⟨t.request.mode, path, a⟩) where
  form := Outcome.existsUnique_hasForm _
  success_iff :=
    iff_of_true (Outcome.hasForm_success_iff.2 ⟨_, rfl⟩) ⟨r, h, by rw [ha]; rfl, hno⟩
  build b hb := by
    obtain rfl := Option.some_inj.1 hb
    refine ⟨⟨r, h, ha⟩, rfl, hpath, ?_⟩
    rw [hpath]
    exact Request.outputPath?_eq_none_iff
  failure_iff := by
    refine iff_of_false (fun hf => hf.2.1 rfl) ?_
    rintro ⟨r', h', herror⟩
    exact hno (h.unique h' ▸ herror)
  diagnostics r' h' herror := absurd (h.unique h' ▸ herror) hno

theorem settled_aborted {cause : Abort} (h : ∀ r, t.Answered fileExists limit r →
      r.artifact = none ∧ ¬ ∃ e ∈ r.entries, e.severity = .error) :
    t.Settled fileExists limit (.aborted cause) where
  form := Outcome.existsUnique_hasForm _
  success_iff := by
    refine iff_of_false (fun hs => nomatch hs.1) ?_
    rintro ⟨r, hr, ha, -⟩
    rw [(h r hr).1] at ha
    cases ha
  build := nofun
  failure_iff := by
    refine iff_of_false (fun hf => hf.2.1 rfl) ?_
    rintro ⟨r, hr, herror⟩
    exact (h r hr).2 herror
  diagnostics r hr herror := absurd herror (h r hr).2

theorem settled_outcome (cwd : Path) (fileExists : Path → Bool) (limit : Option ℕ) (t : Task α) :
    t.Settled fileExists limit (t.outcome cwd fileExists limit) := by
  by_cases hanswered : ∃ r, t.Answered fileExists limit r
  · obtain ⟨r, hr⟩ := hanswered
    obtain ⟨target, hpath, houtcome⟩ := hr.outcome_eq cwd
    rw [houtcome]
    by_cases herror : ∃ e ∈ r.entries, e.severity = .error
    · exact settled_failed hr herror (Outcome.hasForm_ofReport herror)
        Outcome.diagnostics_ofReport
    · cases ha : r.artifact with
      | some a =>
        rw [Outcome.ofReport_of_artifact herror ha]
        exact settled_built hr herror ha hpath
      | none =>
        rw [Outcome.ofReport_of_none herror ha]
        exact settled_aborted fun r' hr' => hr.unique hr' ▸ ⟨ha, herror⟩
  · rw [not_exists] at hanswered
    obtain ⟨cause, houtcome⟩ := outcome_of_not_answered hanswered cwd
    rw [houtcome]
    exact settled_aborted fun r hr => absurd hr (hanswered r)

end Task

/-! ## Lists of tasks -/

theorem result_runTasks (cwd : Path) (fileExists : Path → Bool) (limit : Option ℕ)
    (concurrent : Bool) {tasks : List (Task α)} {i : ℕ} (hi : tasks[i]? = some t) :
    ∃ left, (runTasks cwd fileExists limit concurrent tasks).result i =
      (left, (t.job cwd fileExists).ending limit) := by
  have hdone : Schedule.Done limit (tasks.map (·.job cwd fileExists))
      (runTasks cwd fileExists limit concurrent tasks) := by
    rw [runTasks]
    cases concurrent with
    | true => exact Schedule.done_run limit _
    | false => exact Schedule.done_runInTurn limit _
  exact hdone.result (by rw [List.getElem?_map, hi]; rfl)

/-- Every task has its own outcome, whatever runs beside it. -/
theorem outcomes_runTasks (cwd : Path) (fileExists : Path → Bool) (limit : Option ℕ)
    (concurrent : Bool) (tasks : List (Task α)) :
    (outcomes fileExists limit tasks (runTasks cwd fileExists limit concurrent tasks)).map (·.2) =
      tasks.map (·.outcome cwd fileExists limit) := by
  refine List.ext_getElem? fun i => ?_
  rw [List.getElem?_map, List.getElem?_map, outcomes, List.getElem?_mapIdx, Option.map_map]
  cases hi : tasks[i]? with
  | none => rfl
  | some t =>
    obtain ⟨left, hresult⟩ := result_runTasks cwd fileExists limit concurrent hi
    simp only [Option.map_some, Function.comp_apply, hresult, Task.outcome]

/-- **Every compile ends in exactly one consistent outcome**: of the tasks that the service takes,
at the same time or one after the other, each one is settled. -/
theorem settled_outcomes (cwd : Path) (fileExists : Path → Bool) (limit : Option ℕ)
    (concurrent : Bool) (tasks : List (Task α)) :
    List.Forall₂ (·.Settled fileExists limit ·) tasks
      ((outcomes fileExists limit tasks
        (runTasks cwd fileExists limit concurrent tasks)).map (·.2)) := by
  rw [outcomes_runTasks, List.forall₂_map_right_iff]
  exact List.forall₂_same.2 fun t _ => t.settled_outcome cwd fileExists limit

end Service

end LiveBuild
