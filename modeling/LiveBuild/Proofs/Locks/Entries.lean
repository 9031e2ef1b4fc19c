import LiveBuild.Proofs.Locks.Punctuality

/-!
# How often the compiler is asked

A compile with work enters the compiler once in a run, and a compile without work never does,
whoever else runs and in whatever order.

* `Phase.entries`: how often a compile has entered by the time that it is in a phase;
* `Leaves`: what a turn leaves behind. It moves one compile to another phase, adds only events of
  this compile, and keeps the number of its entries in step with its phase (`leaves_turn`);
* `Counted`: the invariant that all compiles have as many entries as their phases say. It holds at
  the start, and turns and the clock preserve it (`Counted.step`);
* `entries_run`, `entries_runInTurn`: the number of entries at the end of a run.
-/

namespace LiveBuild.Schedule

variable {limit : Option ℕ} {jobs : List Job} {job : Job} {w : Work} {s t : State} {i j n : ℕ}

/-- The number of entries among some events. -/
def enters (events : List Event) : ℕ := events.countP (·.kind = .enter)

/-- How often a compile entered the compiler. -/
def State.entries (s : State) (i : ℕ) : ℕ := enters (s.events.filter (·.task = i))

/-- How often a compile has entered the compiler when it is in a phase. -/
def Phase.entries (job : Job) : Phase → ℕ
  | coming _ _ | waiting => 0
  | inside _ _ => 1
  | ended _ _ => if job.work.isSome then 1 else 0

@[simp] theorem enters_append (before after : List Event) :
    enters (before ++ after) = enters before + enters after := List.countP_append

/-! ## Turns -/

/-- What a turn leaves behind of a compile that had entered `n` times: its next phase, and events of
its own. -/
def Leaves (job : Job) (i n : ℕ) (s t : State) : Prop :=
  ∃ p new, t.phases = s.phases.set i p ∧ t.events = s.events ++ new ∧ (∀ e ∈ new, e.task = i) ∧
    n + enters new = p.entries job

theorem leaves_leave (hw : job.work = some w) (entered : ℕ) :
    Leaves job i 1 s (s.leave i w entered) := by
  refine ⟨_, _, rfl, rfl, by simp, ?_⟩
  rw [Phase.entries, hw]
  split <;> rfl

theorem leaves_enter (hw : job.work = some w) : Leaves job i 0 s (s.enter limit i w) := by
  rw [State.enter]
  split
  · obtain ⟨p, new, hphases, hevents, htask, hentries⟩ :=
      leaves_leave (s := s.record i .enter) (i := i) hw s.now
    let entry : Event := ⟨s.now, i, .enter, s.locks.keys⟩
    refine ⟨p, entry :: new, hphases, ?_, ?_, ?_⟩
    · exact hevents.trans (List.append_assoc s.events [entry] new)
    · simpa [entry] using htask
    · rw [← hentries, ← List.singleton_append, enters_append, Nat.zero_add]
      rfl
  · exact ⟨_, _, rfl, rfl, by simp, rfl⟩

theorem leaves_proceed : Leaves job i 0 s (s.proceed limit i job.work) := by
  cases hw : job.work with
  | none =>
    refine ⟨_, [], rfl, (List.append_nil _).symm, by simp, ?_⟩
    simp [Phase.entries, hw, enters]
  | some w =>
    rw [State.proceed]
    cases w.key with
    | none => exact leaves_enter hw
    | some key =>
      dsimp only
      split
      · exact leaves_enter (s := { s with locks := (s.locks.take i key).ask i }) hw
      · exact ⟨_, [], rfl, (List.append_nil _).symm, by simp, rfl⟩

/-- A compile whose turn does nothing stays as it is. -/
theorem leaves_self (hi : i < s.phases.length) : Leaves job i ((s.phase i).entries job) s s := by
  refine ⟨s.phase i, [], ?_, (List.append_nil _).symm, by simp, rfl⟩
  rw [State.phase_of_lt hi, List.set_getElem_self]

theorem leaves_turn (hi : i < s.phases.length) :
    Leaves job i ((s.phase i).entries job) s (s.turn limit i job) := by
  have hself : Leaves job i ((s.phase i).entries job) s s := leaves_self hi
  rw [State.turn]
  cases hphase : s.phase i with
  | coming arrival looks =>
    cases looks with
    | zero => exact leaves_proceed
    | succ looks => exact ⟨_, [], rfl, (List.append_nil _).symm, by simp, rfl⟩
  | waiting =>
    cases hw : job.work with
    | none => rwa [hphase] at hself
    | some w => exact leaves_enter hw
  | inside entered =>
    cases hw : job.work with
    | none => rwa [hphase] at hself
    | some w => exact leaves_leave hw entered
  | ended => rwa [hphase] at hself

/-! ## The invariant -/

/-- All compiles have entered the compiler as often as their phases say. -/
structure Counted (jobs : List Job) (s : State) : Prop where
  length : s.phases.length = jobs.length
  /-- There are events of these compiles only. -/
  task_lt : ∀ e ∈ s.events, e.task < jobs.length
  entries : ∀ {i job}, jobs[i]? = some job → s.entries i = (s.phase i).entries job

namespace Counted

theorem start (now : ℕ) (locks : OutputLocks) (jobs : List Job) :
    Counted jobs (.start now locks jobs) where
  length := List.length_map _
  task_lt e he := by cases he
  entries {i job} hi := by
    have hphase : (State.start now locks jobs).phase i = .coming job.arrival job.looks := by
      simp [State.phase, State.start, hi]
    rw [hphase]
    rfl

theorem turn (h : Counted jobs s) (hjob : jobs[i]? = some job)
    (ht : Leaves job i ((s.phase i).entries job) s t) : Counted jobs t := by
  obtain ⟨p, new, hphases, hevents, htask, hentries⟩ := ht
  have hi : i < jobs.length := (List.getElem?_eq_some_iff.1 hjob).1
  refine ⟨by rw [hphases, List.length_set, h.length], fun e he => ?_, fun {j job'} hj => ?_⟩
  · rw [hevents] at he
    rcases List.mem_append.1 he with he | he
    · exact h.task_lt e he
    · rwa [htask e he]
  · rw [State.entries, hevents, List.filter_append, enters_append, ← State.entries, h.entries hj]
    by_cases hji : j = i
    · subst hji
      obtain rfl := Option.some_inj.1 (hjob.symm.trans hj)
      rw [State.phase_self_of_phases hphases (h.length ▸ hi), ← hentries]
      have hnew : new.filter (·.task = j) = new := List.filter_eq_self.2 (by simpa using htask)
      rw [hnew]
    · have hnew : new.filter (·.task = j) = [] :=
        List.filter_eq_nil_iff.2 fun e he => by simpa [htask e he] using Ne.symm hji
      rw [State.phase_of_phases hphases hji, hnew]
      rfl

/-- **Every turn and every move of the clock preserves the invariant.** -/
theorem step (h : Counted jobs s) (ht : s.step? limit jobs = some t) : Counted jobs t := by
  rw [State.step?] at ht
  split at ht
  next i hnext =>
    split at ht
    next job hjob =>
      obtain rfl := Option.some_inj.1 ht
      have hi := (State.isReady_of_next? hnext).1
      have hcursor : Counted jobs { s with cursor := i + 1 } := ⟨h.length, h.task_lt, h.entries⟩
      exact hcursor.turn hjob (leaves_turn hi)
    next => cases ht
  next =>
    obtain ⟨time, -, rfl⟩ := Option.map_eq_some_iff.1 ht
    exact ⟨h.length, h.task_lt, h.entries⟩

theorem steps (h : Counted jobs s) (fuel : ℕ) : Counted jobs (s.steps limit jobs fuel) := by
  induction fuel generalizing s with
  | zero => exact h
  | succ fuel ih =>
    rw [State.steps]
    cases ht : s.step? limit jobs with
    | none => exact h
    | some t => exact ih (h.step ht)

end Counted

/-! ## Whole runs -/

theorem counted_runFrom (now : ℕ) (locks : OutputLocks) (jobs : List Job) :
    Counted jobs (runFrom limit now locks jobs) := (Counted.start now locks jobs).steps _

/-- The entries of a compile that is over. -/
theorem Counted.entries_of_done (h : Counted jobs s) (hdone : Done limit jobs s)
    (hjob : jobs[i]? = some job) : s.entries i = if job.work.isSome then 1 else 0 := by
  obtain ⟨left, hphase⟩ := hdone.exists_phase_eq hjob
  rw [h.entries hjob, hphase, Phase.entries]

theorem enters_map (events : List Event) (task : ℕ) :
    enters (events.map fun e => { e with task }) = enters events := by
  rw [enters, List.countP_map]
  rfl

/-- There are no entries but those of the compiles. -/
theorem Counted.entries_eq_zero (h : Counted jobs s) (hi : jobs.length ≤ i) : s.entries i = 0 := by
  have hnone : s.events.filter (·.task = i) = [] :=
    List.filter_eq_nil_iff.2 fun e he => by simpa using ((h.task_lt e he).trans_le hi).ne
  rw [State.entries, hnone]
  rfl

/-- All entries are those of the only compile. -/
theorem Counted.enters_of_single (h : Counted [job] s) : enters s.events = s.entries 0 := by
  have hall : s.events.filter (·.task = 0) = s.events :=
    List.filter_eq_self.2 fun e he => by simpa using h.task_lt e he
  rw [State.entries, hall]

/-- A job that runs when the others are over comes after them, with all its events. -/
theorem Counted.append (h : Counted jobs s) {job' : Job} (h' : Counted [job'] t)
    (hwork : job'.work = job.work) :
    Counted (jobs ++ [job]) { t with
      phases := s.phases ++ t.phases
      events := s.events ++ t.events.map fun e => { e with task := s.phases.length } } := by
  obtain ⟨p, hp⟩ : ∃ p, t.phases = [p] := List.length_eq_one_iff.1 h'.length
  refine ⟨by simp [h.length, hp], fun e he => ?_, fun {i job₀} hi => ?_⟩
  · rw [List.length_append, List.length_singleton]
    rcases List.mem_append.1 he with he | he
    · exact Nat.lt_succ_of_lt (h.task_lt e he)
    · obtain ⟨e, -, rfl⟩ := List.mem_map.1 he
      exact h.length ▸ Nat.lt_succ_self _
  · rw [State.entries, State.phase]
    dsimp only
    rw [List.filter_append, enters_append, ← State.entries]
    by_cases hlt : i < jobs.length
    · rw [List.getElem?_append_left hlt] at hi
      have hnew : (t.events.map fun e => { e with task := s.phases.length }).filter
          (·.task = i) = [] := by
        simp [List.filter_eq_nil_iff, h.length, hlt.ne']
      rw [hnew, h.entries hi, State.phase, List.getElem?_append_left (h.length ▸ hlt)]
      rfl
    · obtain rfl : i = jobs.length := by
        have := (List.getElem?_eq_some_iff.1 hi).1
        rw [List.length_append, List.length_singleton] at this
        omega
      obtain rfl : job₀ = job := by simpa using hi.symm
      have hnew : (t.events.map fun e => { e with task := s.phases.length }).filter
          (·.task = jobs.length) = t.events.map fun e => { e with task := s.phases.length } := by
        simp [List.filter_eq_self, h.length]
      rw [h.entries_eq_zero le_rfl, hnew, enters_map, h'.enters_of_single, h'.entries rfl,
        Nat.zero_add, State.phase, hp, ← h.length, List.getElem?_append_right le_rfl, Nat.sub_self]
      cases p <;> simp [Phase.entries, hwork]

theorem counted_runInTurn (limit : Option ℕ) (jobs : List Job) :
    Counted jobs (runInTurn limit jobs) := by
  induction jobs using List.reverseRecOn with
  | nil =>
    refine ⟨rfl, fun e he => ?_, fun hi => ?_⟩
    · cases he
    · cases hi
  | append_singleton jobs job ih =>
    rw [runInTurn_append]
    exact ih.append (counted_runFrom _ _ _) rfl

/-- **In a run, each compile with work enters the compiler once, and no other one enters it.** -/
theorem entries_run (limit : Option ℕ) (hjob : jobs[i]? = some job) :
    (run limit jobs).entries i = if job.work.isSome then 1 else 0 :=
  (counted_runFrom 0 .empty jobs).entries_of_done (done_run limit jobs) hjob

/-- **The same holds of jobs that run one after the other.** -/
theorem entries_runInTurn (limit : Option ℕ) (hjob : jobs[i]? = some job) :
    (runInTurn limit jobs).entries i = if job.work.isSome then 1 else 0 :=
  (counted_runInTurn limit jobs).entries_of_done (done_runInTurn limit jobs) hjob

end LiveBuild.Schedule
