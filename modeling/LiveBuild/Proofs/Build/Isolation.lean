import LiveBuild.Proofs.Build.Outcome

/-!
# Compiles do not influence each other

`isolated_runTasks`: a task that runs beside others has the outcome that it has when it runs alone.
What else arrives, and how long the task waits for its lock, has no part in it. In particular the
time limit is compared with the delay of the task itself.

* `Task.Overruns`: the compiler is asked and takes longer than the limit;
* `Task.ending_job_eq_timedOut_iff`, `Task.Overruns.outcome_eq`: exactly these compiles are cut off,
  and the limit is what their outcome tells;
* `Task.outcome_eq_timedOut_iff`: no other outcome tells of a time limit, unless the compiler itself
  answers so.
-/

namespace LiveBuild

/-- A report is not a fault. -/
theorem Outcome.ofReport_ne_faulted {α : Type} {mode : OutputMode} {target : Target} {r : Report α}
    {f : Fault} : ofReport mode target r ≠ aborted (.faulted f) := by
  intro h
  by_cases herror : ∃ e ∈ r.entries, e.severity = .error
  · have hform : (ofReport mode target r).HasForm .failure := hasForm_ofReport herror
    rw [h] at hform
    exact hform.2.1 rfl
  · cases ha : r.artifact with
    | some a => cases (ofReport_of_artifact herror ha).symm.trans h
    | none => cases (ofReport_of_none herror ha).symm.trans h

namespace Service

variable {α : Type} {cwd : Path} {fileExists : Path → Bool} {limit : Option ℕ} {t : Task α}
  {tasks : List (Task α)} {ending : Schedule.Ending} {o : Outcome α} {i ms : ℕ}

namespace Task

/-- The request is accepted, and the compiler takes longer than the time limit. -/
structure Overruns (fileExists : Path → Bool) (limit : Option ℕ) (t : Task α) (ms : ℕ) : Prop where
  accepted : ∃ input, t.request.prepare fileExists = .ok input
  limit_eq : limit = some ms
  lt_delay : ms < t.delay

/-- The request is accepted, and the compiler answers in time with a fault of its own. -/
structure Faults (fileExists : Path → Bool) (limit : Option ℕ) (t : Task α) (f : Fault) : Prop where
  accepted : ∃ input, t.request.prepare fileExists = .ok input
  inTime : ∀ l, limit = some l → t.delay ≤ l
  answer : t.answer = .error f

/-- A task ended as it does alone, and it was cut off exactly if it overran the limit. -/
structure Isolated (cwd : Path) (fileExists : Path → Bool) (limit : Option ℕ) (t : Task α)
    (ending : Schedule.Ending) (o : Outcome α) : Prop where
  ending_alone : ending = ((runTasks cwd fileExists limit true [t]).result 0).2
  outcome_alone : [o] =
    (outcomes fileExists limit [t] (runTasks cwd fileExists limit true [t])).map (·.2)
  /-- A task that is cut off overran the limit, and the other way round. -/
  timedOut_iff : ending = .timedOut ↔ ∃ ms, t.Overruns fileExists limit ms
  /-- What a task that overran the limit is told. -/
  message : ∀ ms, t.Overruns fileExists limit ms →
    o.message? = some ("compilation timed out after " ++ toString ms ++ " ms")
  outcome_eq_iff : ∀ ms, o = .aborted (.faulted (.timedOut ms)) ↔
    t.Overruns fileExists limit ms ∨ t.Faults fileExists limit (.timedOut ms)

theorem ending_job_of_accepted (h : ∃ input, t.request.prepare fileExists = .ok input)
    (cwd : Path) (limit : Option ℕ) :
    (t.job cwd fileExists).ending limit =
      if t.delay ≤ Schedule.hold limit t.delay then .answered else .timedOut := by
  obtain ⟨input, hinput⟩ := h
  simp only [job, hinput, Schedule.Job.ending]

theorem not_le_hold_iff {delay : ℕ} :
    ¬ delay ≤ Schedule.hold limit delay ↔ ∃ ms, limit = some ms ∧ ms < delay := by
  rw [le_hold_iff]
  simp

/-- A compile is cut off exactly if it overruns the limit. -/
theorem ending_job_eq_timedOut_iff :
    (t.job cwd fileExists).ending limit = .timedOut ↔ ∃ ms, t.Overruns fileExists limit ms := by
  cases hinput : t.request.prepare fileExists with
  | error e =>
    have hending : (t.job cwd fileExists).ending limit = .rejected := by
      simp only [job, hinput, Schedule.Job.ending]
    rw [hending]
    refine iff_of_false (fun h => by cases h) ?_
    rintro ⟨ms, ⟨input, hok⟩, -, -⟩
    cases hinput.symm.trans hok
  | ok input =>
    rw [ending_job_of_accepted ⟨input, hinput⟩ cwd limit]
    constructor
    · intro h
      have hlong : ¬ t.delay ≤ Schedule.hold limit t.delay := fun hle => by
        rw [if_pos hle] at h
        cases h
      obtain ⟨ms, hlimit, hlt⟩ := not_le_hold_iff.1 hlong
      exact ⟨ms, ⟨input, hinput⟩, hlimit, hlt⟩
    · rintro ⟨ms, -, hlimit, hlt⟩
      rw [if_neg (not_le_hold_iff.2 ⟨ms, hlimit, hlt⟩)]

theorem Overruns.outcome_eq (h : t.Overruns fileExists limit ms) (cwd : Path) :
    t.outcome cwd fileExists limit = .aborted (.faulted (.timedOut ms)) := by
  have hending : (t.job cwd fileExists).ending limit = .timedOut :=
    ending_job_eq_timedOut_iff.2 ⟨ms, h⟩
  obtain ⟨input, hinput⟩ := h.accepted
  rw [outcome, outcomeOf, settle_of_ok hinput, hending, h.limit_eq]
  rfl

theorem Faults.outcome_eq {f : Fault} (h : t.Faults fileExists limit f) (cwd : Path) :
    t.outcome cwd fileExists limit = .aborted (.faulted f) := by
  have hending := ending_job_of_accepted h.accepted cwd limit
  rw [if_pos (le_hold_iff.2 h.inTime)] at hending
  obtain ⟨input, hinput⟩ := h.accepted
  have hanswer : t.answerOf limit .answered = .error f := h.answer
  rw [outcome, outcomeOf, settle_of_ok hinput, hending, hanswer]
  rfl

/-- An outcome tells of the time limit only if the task overran it, or if the compiler said so. -/
theorem outcome_eq_timedOut_iff :
    t.outcome cwd fileExists limit = .aborted (.faulted (.timedOut ms)) ↔
      t.Overruns fileExists limit ms ∨ t.Faults fileExists limit (.timedOut ms) := by
  constructor
  · intro h
    cases hinput : t.request.prepare fileExists with
    | error e =>
      rw [outcome, outcomeOf, settle_of_error hinput] at h
      cases h
    | ok input =>
      by_cases htime : t.delay ≤ Schedule.hold limit t.delay
      · refine .inr ⟨⟨input, hinput⟩, le_hold_iff.1 htime, ?_⟩
        cases hanswer : t.answer with
        | error f =>
          have hfault := Faults.outcome_eq ⟨⟨input, hinput⟩, le_hold_iff.1 htime, hanswer⟩ cwd
          cases hfault.symm.trans h
          rfl
        | ok r =>
          have hanswered : t.Answered fileExists limit r :=
            ⟨⟨input, hinput⟩, le_hold_iff.1 htime, hanswer⟩
          obtain ⟨target, -, hreport⟩ := hanswered.outcome_eq cwd
          exact absurd (hreport.symm.trans h) Outcome.ofReport_ne_faulted
      · obtain ⟨l, hlimit, hlt⟩ := not_le_hold_iff.1 htime
        have hover : t.Overruns fileExists limit l := ⟨⟨input, hinput⟩, hlimit, hlt⟩
        cases (hover.outcome_eq cwd).symm.trans h
        exact .inl hover
  · rintro (h | h)
    · exact h.outcome_eq cwd
    · exact h.outcome_eq cwd

theorem isolated_outcome (cwd : Path) (fileExists : Path → Bool) (limit : Option ℕ) (t : Task α) :
    t.Isolated cwd fileExists limit ((t.job cwd fileExists).ending limit)
      (t.outcome cwd fileExists limit) where
  ending_alone := by
    have halone : [t][0]? = some t := rfl
    obtain ⟨left, hresult⟩ := result_runTasks cwd fileExists limit true halone
    rw [hresult]
  outcome_alone := (outcomes_runTasks cwd fileExists limit true [t]).symm
  timedOut_iff := ending_job_eq_timedOut_iff
  message ms h := by
    rw [h.outcome_eq cwd]
    rfl
  outcome_eq_iff _ := outcome_eq_timedOut_iff

end Task

/-- **Compiles do not influence each other.** Each task that runs beside others ends as it does
alone, and it is cut off exactly if the compiler takes longer for it than the time limit. -/
theorem isolated_runTasks (cwd : Path) (fileExists : Path → Bool) (limit : Option ℕ)
    (tasks : List (Task α)) (hi : tasks[i]? = some t) :
    ∃ left ending o, (runTasks cwd fileExists limit true tasks).result i = (left, ending) ∧
      (outcomes fileExists limit tasks
        (runTasks cwd fileExists limit true tasks))[i]? = some (left, o) ∧
      t.Isolated cwd fileExists limit ending o := by
  obtain ⟨left, hresult⟩ := result_runTasks cwd fileExists limit true hi
  refine ⟨left, _, _, hresult, ?_, t.isolated_outcome cwd fileExists limit⟩
  rw [outcomes, List.getElem?_mapIdx, hi, Option.map_some, hresult]
  rfl

/-- A task that writes the library `out.so`. -/
def outTask (arrival delay : ℕ) : Task Unit where
  request := { sourceText := some "fn main() \x7b\x7d", libraryPath := some ⟨"out.so"⟩ }
  answer := .ok ⟨[], some ()⟩
  delay := delay
  arrival := arrival
  looks := 0

/-- Of three tasks with the same path the second one is cut off. The third one waits longer than the
limit, and is not. -/
theorem isolated_runTasks_outTasks :
    let tasks := [outTask 0 15, outTask 0 30, outTask 0 5]
    let s := runTasks ⟨"/"⟩ (fun _ => false) (some 20) true tasks
    (tasks[1]? = some (outTask 0 30) ∧ ∃ left o,
      (outcomes (fun _ => false) (some 20) tasks s)[1]? = some (left, o) ∧
      o.message? = some "compilation timed out after 20 ms") ∧
    (tasks[2]? = some (outTask 0 5) ∧ (s.result 2).2 ≠ .timedOut) := by
  intro tasks s
  have hsecond : tasks[1]? = some (outTask 0 30) := rfl
  have hthird : tasks[2]? = some (outTask 0 5) := rfl
  have hover : (outTask 0 30).Overruns (fun _ => false) (some 20) 20 :=
    ⟨⟨_, rfl⟩, rfl, by decide⟩
  have hquick : ¬ ∃ ms, (outTask 0 5).Overruns (fun _ => false) (some 20) ms := by
    rintro ⟨ms, -, hlimit, hlt⟩
    obtain rfl := Option.some_inj.1 hlimit
    exact absurd hlt (by decide)
  obtain ⟨left, _, o, _, ho, hisolated⟩ :=
    isolated_runTasks ⟨"/"⟩ (fun _ => false) (some 20) tasks hsecond
  obtain ⟨_, ending, _, hresult, _, hisolated'⟩ :=
    isolated_runTasks ⟨"/"⟩ (fun _ => false) (some 20) tasks hthird
  refine ⟨⟨hsecond, left, o, ho, hisolated.message 20 hover⟩, hthird, ?_⟩
  rw [hresult]
  exact mt hisolated'.timedOut_iff.1 hquick

end Service

end LiveBuild
