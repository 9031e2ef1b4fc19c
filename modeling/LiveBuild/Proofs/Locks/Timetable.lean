import LiveBuild.Proofs.Build.Isolation
import LiveBuild.Proofs.Locks.Punctuality
import Mathlib.Data.Finset.Max

/-!
# The timetable of serialised compiles

`timed_runTasks`: when each compile enters the compiler and when it leaves. Compiles that need the
same lock run one right after the other in the order of arrival, those that arrive at the same time
in the order in which they ask, and no others wait, whatever happens to the table of locks
meanwhile.

* `IsLast`, `exists_isLast`: if anybody precedes a job, then somebody is the last to do so;
* `Timed`: the times of a compile. Those of the compiles before it determine them;
* `timed_run`: all compiles of a run have these times, since all are on time.
-/

namespace LiveBuild.Schedule

variable {limit : Option ℕ} {jobs : List Job} {job : Job} {w : Work} {s : State} {i j k : ℕ}

/-- Of all jobs that precede a job, the last one. -/
structure IsLast (jobs : List Job) (j i : ℕ) : Prop where
  precedes : Precedes jobs j i
  eq_or_precedes : ∀ {k}, Precedes jobs k i → k = j ∨ Precedes jobs k j

theorem exists_isLast (h : Precedes jobs j i) : ∃ last, IsLast jobs last i := by
  classical
  let before := (Finset.range jobs.length).filter (Precedes jobs · i)
  have hmem {k : ℕ} (hk : Precedes jobs k i) : k ∈ before :=
    Finset.mem_filter.2 ⟨Finset.mem_range.2 hk.lt_length, hk⟩
  obtain ⟨last, hlast, hmax⟩ := before.exists_max_image (rank jobs) ⟨j, hmem h⟩
  have hprecedes := (Finset.mem_filter.1 hlast).2
  refine ⟨last, hprecedes, fun {k} hk => ?_⟩
  rcases (hmax k (hmem hk)).lt_or_eq with hlt | heq
  · exact .inr (hk.of_rank_lt hprecedes hlt)
  · exact .inl (eq_of_rank_eq heq)

/-- How a compile ends that the compiler is asked for. -/
def Work.ending (limit : Option ℕ) (w : Work) : Ending :=
  if w.delay ≤ hold limit w.delay then .answered else .timedOut

theorem Job.ending_eq (hw : job.work = some w) : job.ending limit = w.ending limit := by
  simp only [Job.ending, hw, Work.ending]

/-- The times of a compile in a state in which all compiles are over. -/
structure Timed (limit : Option ℕ) (jobs : List Job) (s : State) (i arrival : ℕ) (w : Work)
    (entered left : ℕ) : Prop where
  /-- It enters the compiler once and leaves it once. -/
  trace : s.trace i = [(entered, .enter), (left, (w.ending limit).event)]
  result : s.result i = (left, w.ending limit)
  /-- It stays for its delay, or until the limit is over. -/
  left_eq : left = entered + hold limit w.delay
  inMemory : w.key = none → entered = arrival
  /-- It need not wait if all that precede it have left when it arrives. -/
  free : (∀ j, Precedes jobs j i → (s.result j).1 ≤ arrival) → entered = arrival
  /-- Otherwise it enters when the last one leaves. -/
  queued : ∀ j, Precedes jobs j i → arrival ≤ (s.result j).1 →
    ∃ last, IsLast jobs last i ∧ entered = (s.result last).1
  le_entered : ∀ j, Precedes jobs j i → (s.result j).1 ≤ entered

section

variable (h : Punctual limit jobs none s) (hdone : Done limit jobs s)
include h hdone

/-- A compile that was asked of the compiler entered on time. -/
theorem exists_entry (hjob : jobs[i]? = some job) (hw : job.work = some w) :
    ∃ entered left, s.phase i = .ended left (w.ending limit) ∧
      left = entered + hold limit w.delay ∧ Entry jobs s.phase i entered ∧
      s.trace i = [(entered, .enter), (left, (w.ending limit).event)] := by
  obtain ⟨left, hphase⟩ := hdone.exists_phase_eq hjob
  rw [Job.ending_eq hw] at hphase
  have hon := h.onTime (List.getElem?_eq_some_iff.1 hjob).1 nofun
  rw [hphase] at hon
  obtain ⟨entered, hleft, hentry, htrace⟩ := hon.2 w ((Interleaving.workOf_eq hjob).trans hw)
  exact ⟨entered, left, hphase, hleft, hentry, htrace⟩

/-- Compiles that need the same lock leave the compiler in the order of arrival. -/
theorem result_le_of_precedes (hjk : Precedes jobs j k) : (s.result j).1 ≤ (s.result k).1 := by
  obtain ⟨-, key, -, hkey, -⟩ := hjk.sameKey
  obtain ⟨job, w, hjob, hw, -⟩ := Interleaving.hasKey_of_keyOf hkey
  obtain ⟨entered, left, hphase, hleft, hentry, -⟩ := exists_entry h hdone hjob hw
  obtain ⟨left', ending, hphase', hle⟩ := hentry.finished hjk
  rw [State.result_of_phase hphase, State.result_of_phase hphase']
  omega

end

/-- **All compiles of a run are on the timetable.** -/
theorem timed_run (limit : Option ℕ) (hjob : jobs[i]? = some job) (hw : job.work = some w) :
    ∃ entered left, Timed limit jobs (run limit jobs) i job.arrival w entered left := by
  have h := punctual_run limit jobs
  have hdone := done_run limit jobs
  obtain ⟨entered, left, hphase, hleft, hentry, htrace⟩ := exists_entry h hdone hjob hw
  have harrival : arrivalOf jobs i = job.arrival := by simp [arrivalOf, hjob]
  have hle : ∀ j, Precedes jobs j i → ((run limit jobs).result j).1 ≤ entered := fun j hj => by
    obtain ⟨left', ending, hphase', hle⟩ := hentry.finished hj
    rwa [State.result_of_phase hphase']
  have hattained : entered = job.arrival ∨
      ∃ j, Precedes jobs j i ∧ ((run limit jobs).result j).1 = entered := by
    rw [← harrival]
    refine hentry.attained.imp_right ?_
    rintro ⟨j, ending, hj, hended⟩
    exact ⟨j, hj, by rw [State.result_of_phase hended]⟩
  have hfree : (∀ j, Precedes jobs j i → ((run limit jobs).result j).1 ≤ job.arrival) →
      entered = job.arrival := fun hfree => by
    rcases hattained with heq | ⟨j, hj, heq⟩
    · exact heq
    · exact le_antisymm (heq ▸ hfree j hj) (harrival ▸ hentry.arrivalOf_le)
  refine ⟨entered, left, htrace, State.result_of_phase hphase, hleft, fun hkey => ?_, hfree,
    fun j hj hlate => ?_, hle⟩
  · refine hfree fun j hj => ?_
    obtain ⟨-, -, key, -, hkey', -⟩ := hj
    rw [Interleaving.keyOf_eq hjob hw, hkey] at hkey'
    cases hkey'
  · obtain ⟨last, hlast⟩ := exists_isLast hj
    have hlast_le {k : ℕ} (hk : Precedes jobs k i) :
        ((run limit jobs).result k).1 ≤ ((run limit jobs).result last).1 := by
      rcases hlast.eq_or_precedes hk with rfl | hk
      · exact le_rfl
      · exact result_le_of_precedes h hdone hk
    refine ⟨last, hlast, le_antisymm ?_ (hle last hlast.precedes)⟩
    rcases hattained with heq | ⟨k, hk, heq⟩
    · exact heq ▸ hlate.trans (hlast_le hj)
    · exact heq ▸ hlast_le hk

end LiveBuild.Schedule

namespace LiveBuild.Service

variable {α : Type} {cwd : Path} {fileExists : Path → Bool} {limit : Option ℕ} {t : Task α}
  {tasks : List (Task α)} {params : Parameters} {source : Source} {i : ℕ}

/-- **All compiles of the service are on the timetable**, if their request is accepted. -/
theorem timed_runTasks (cwd : Path) (limit : Option ℕ) (hi : tasks[i]? = some t)
    (hr : t.request.prepare fileExists = .ok (params, source)) :
    ∃ entered left, Schedule.Timed limit (tasks.map (·.job cwd fileExists))
      (runTasks cwd fileExists limit true tasks) i t.arrival
      ⟨lockKey? cwd params.target, t.delay⟩ entered left := by
  have hjob : (tasks.map (·.job cwd fileExists))[i]? = some (t.job cwd fileExists) := by
    rw [List.getElem?_map, hi, Option.map_some]
  exact Schedule.timed_run limit hjob (Task.work_job_of_ok hr)

/-- A task that writes the library `out.so` from a source file, for which it looks in one turn. -/
def fileTask (arrival delay : ℕ) : Task Unit where
  request := { sourceFile := some ⟨"main.rs"⟩, libraryPath := some ⟨"out.so"⟩ }
  answer := .ok ⟨[], some ()⟩
  delay := delay
  arrival := arrival
  looks := 1

/-- The first task looks for its source file, so that the second one, which arrives at the same
time, asks before it; it is cut off, and then the first one enters. When the third one arrives, the
entry of the path is gone from the table, and it does not wait. -/
theorem timed_runTasks_outTasks :
    let tasks := [fileTask 0 3, outTask 0 30, outTask 40 5]
    let isThere : Path → Bool := (· == ⟨"main.rs"⟩)
    let jobs := tasks.map (·.job ⟨"/"⟩ isThere)
    let s := runTasks ⟨"/"⟩ isThere (some 20) true tasks
    let key := lockKey? ⟨"/"⟩ (.library ⟨"out.so"⟩)
    (tasks[0]? = some (fileTask 0 3) ∧
      (∃ input, (fileTask 0 3).request.prepare isThere = .ok input) ∧
      Schedule.Timed (some 20) jobs s 0 0 ⟨key, 3⟩ 20 23) ∧
    (tasks[2]? = some (outTask 40 5) ∧
      (∃ input, (outTask 40 5).request.prepare isThere = .ok input) ∧
      Schedule.Timed (some 20) jobs s 2 40 ⟨key, 5⟩ 40 45) := by
  intro tasks isThere jobs s key
  have hfirst : tasks[0]? = some (fileTask 0 3) := rfl
  have hthird : tasks[2]? = some (outTask 40 5) := rfl
  have hfile : (fileTask 0 3).request.prepare isThere =
      .ok (⟨.library ⟨"out.so"⟩, true, 2, false, true, [], []⟩, .file ⟨"main.rs"⟩) := rfl
  have htext : (outTask 40 5).request.prepare isThere =
      .ok (⟨.library ⟨"out.so"⟩, true, 2, false, true, [], []⟩, .text "fn main() \x7b\x7d") := rfl
  obtain ⟨entered, left, h⟩ := timed_runTasks ⟨"/"⟩ (some 20) hfirst hfile
  obtain ⟨entered', left', h'⟩ := timed_runTasks ⟨"/"⟩ (some 20) hthird htext
  have hresults : (s.result 0).1 = 23 ∧ (s.result 2).1 = 45 := by decide +kernel
  have hleft : left = 23 := (congrArg Prod.fst h.result).symm.trans hresults.1
  have hleft' : left' = 45 := (congrArg Prod.fst h'.result).symm.trans hresults.2
  have hentered : left = entered + 3 := h.left_eq
  have hentered' : left' = entered' + 5 := h'.left_eq
  obtain rfl : entered = 20 := by omega
  obtain rfl : entered' = 40 := by omega
  subst hleft hleft'
  exact ⟨⟨hfirst, ⟨_, hfile⟩, h⟩, hthird, ⟨_, htext⟩, h'⟩

end LiveBuild.Service
