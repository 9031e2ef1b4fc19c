import LiveBuild.Proofs.Locks.Interleaving
import LiveBuild.Proofs.Locks.Progress

/-!
# Runs of the schedule are interleavings

`reachable_run`: every state of a run of the schedule is a state that an interleaving reaches, so
that what holds of all interleavings holds of the schedule (`eq_of_inside`).

A turn is a few steps of one compile: one that knows its source may take its handle, ask, be granted
the lock and be in the compiler (`reachable_proceed`). The lock may be granted because the schedule
grants it to the owner only (`free_of_owns`). When the clock moves, or when a compile looks for its
source file, no compile takes a step.
-/

namespace LiveBuild.Interleaving

open Schedule (Job Phase Sound Work)

variable {limit : Option ℕ} {jobs : List Job} {job : Job} {w : Work} {drops : Prop}
  {work : ℕ → Option Work} {a : State} {s t : Schedule.State} {locks locks' : OutputLocks} {i j : ℕ}
  {k : Path} {p q : Stage}

/-! ## States of the schedule -/

/-- The stage of a compile that is in a phase of the schedule. -/
def Stage.ofPhase : Phase → Stage
  | .coming _ _ => .coming
  | .waiting => .waiting
  | .inside _ _ => .inside
  | .ended _ _ => .ended

/-- A state of the schedule. Compiles that it does not know never come. -/
def State.ofSchedule (s : Schedule.State) : State :=
  ⟨s.locks, fun i => if i < s.phases.length then .ofPhase (s.phase i) else .coming⟩

/-- The work of each job. -/
def workOf (jobs : List Job) (i : ℕ) : Option Work := jobs[i]?.bind (·.work)

theorem State.go_go : (a.go i p locks).go i q locks' = a.go i q locks' := by
  rw [go, go, go, Function.update_idem]

theorem State.ofSchedule_eq_go {p : Phase} (hi : i < s.phases.length)
    (ht : t.phases = s.phases.set i p) :
    ofSchedule t = (ofSchedule s).go i (.ofPhase p) t.locks := by
  rw [ofSchedule, ofSchedule, go]
  congr 1
  funext j
  by_cases hji : j = i
  · subst hji
    rw [Function.update_self, ht, List.length_set, if_pos hi,
      Schedule.State.phase_self_of_phases ht hi]
  · rw [Function.update_of_ne hji, ht, List.length_set, Schedule.State.phase_of_phases ht hji]

theorem State.stage_ofSchedule (hi : i < s.phases.length) :
    (ofSchedule s).stage i = .ofPhase (s.phase i) := if_pos hi

theorem State.isInside_of_holds (h : ((ofSchedule s).stage i).holds = true) :
    (s.phase i).IsInside := by
  rw [ofSchedule] at h
  dsimp only at h
  split at h
  · cases hphase : s.phase i with
    | inside => trivial
    | coming | waiting | ended =>
      rw [hphase] at h
      cases h
  · cases h

theorem State.holds_of_isInside (h : (s.phase i).IsInside) :
    ((ofSchedule s).stage i).holds = true := by
  cases hphase : s.phase i with
  | inside =>
    have hi : i < s.phases.length := Schedule.State.lt_of_turns_pos (by rw [hphase]; exact Nat.one_pos)
    rw [stage_ofSchedule hi, hphase]
    rfl
  | coming | waiting | ended =>
    rw [hphase] at h
    cases h

/-- A compile that stays in its phase. -/
theorem State.ofSchedule_go_self {p : Phase} (hi : i < s.phases.length) (hp : s.phase i = p) :
    (ofSchedule s).go i (.ofPhase p) s.locks = ofSchedule s := by
  rw [← hp, ← stage_ofSchedule hi, go, Function.update_eq_self]
  rfl

theorem hasKey_of_keyOf (h : keyOf (workOf jobs) i = some k) : Schedule.HasKey jobs i := by
  obtain ⟨w, hw, hk⟩ := Option.bind_eq_some_iff.1 h
  obtain ⟨job, hjob, hw⟩ := Option.bind_eq_some_iff.1 hw
  exact ⟨job, w, hjob, hw, by rw [hk]; rfl⟩

theorem workOf_eq (hjob : jobs[i]? = some job) : workOf jobs i = job.work := by
  rw [workOf, hjob, Option.bind_some]

theorem keyOf_eq (hjob : jobs[i]? = some job) (hw : job.work = some w) :
    keyOf (workOf jobs) i = w.key := by
  rw [keyOf, workOf_eq hjob, hw, Option.bind_some]

/-! ## The end of a compile -/

theorem Reachable.leave_of_some (h : Reachable work drops (a.go i .inside locks))
    (hk : keyOf work i = some k) :
    Reachable work drops (a.go i .ended ((locks.leave i).release k)) := by
  have hfinished := h.step (.finish State.go_stage)
  have hleft := hfinished.step (.leave State.go_stage hk)
  have hover := hleft.step (.release State.go_stage hk)
  simpa only [State.go_go, State.go_locks] using hover

theorem Reachable.leave_of_none (h : Reachable work drops (a.go i .inside locks))
    (hk : keyOf work i = none) : Reachable work drops (a.go i .ended locks) := by
  have hfinished := h.step (.finish State.go_stage)
  have hover := hfinished.step (.finishFree State.go_stage hk)
  simpa only [State.go_go, State.go_locks] using hover

theorem reachable_leave (hi : i < s.phases.length) (hjob : jobs[i]? = some job)
    (hw : job.work = some w)
    (h : Reachable (workOf jobs) drops ((State.ofSchedule s).go i .inside s.locks)) (entered : ℕ) :
    Reachable (workOf jobs) drops (.ofSchedule (s.leave i w entered)) := by
  obtain ⟨left, ending, hphases⟩ := Schedule.State.leave_phases (s := s) i w entered
  rw [State.ofSchedule_eq_go hi hphases]
  cases hkey : w.key with
  | none =>
    rw [Schedule.State.leave_locks_of_none hkey]
    exact h.leave_of_none ((keyOf_eq hjob hw).trans hkey)
  | some key =>
    rw [Schedule.State.leave_locks_of_some hkey]
    exact h.leave_of_some ((keyOf_eq hjob hw).trans hkey)

theorem reachable_enter (hi : i < s.phases.length) (hjob : jobs[i]? = some job)
    (hw : job.work = some w)
    (h : Reachable (workOf jobs) drops ((State.ofSchedule s).go i .inside s.locks)) :
    Reachable (workOf jobs) drops (.ofSchedule (s.enter limit i w)) := by
  rw [Schedule.State.enter]
  split
  next => exact reachable_leave (s := s.record i .enter) hi hjob hw h s.now
  next =>
    rw [State.ofSchedule_eq_go (s := s) hi rfl]
    exact h

/-! ## The grant of a lock -/

/-- Nobody else holds a lock on the schedule that its owner is about to be granted. -/
theorem free_of_owns (h : Sound limit jobs (some i) s)
    (ha : Reachable (workOf jobs) drops ((State.ofSchedule s).go i .waiting s.locks)) {l : ℕ}
    (howner : s.locks.owner? l = some i) (j : ℕ)
    (hj : (((State.ofSchedule s).go i .waiting s.locks).stage j).holds = true) :
    s.locks.lockOf? j ≠ some l := by
  intro hl
  have hji : j ≠ i := by
    rintro rfl
    rw [State.go_stage] at hj
    cases hj
  rw [State.go_stage_of_ne hji] at hj
  obtain ⟨k, hk, -⟩ := ha.tied.lock (OutputLocks.mem_handles_of_lockOf? hl)
  have howns := h.owns (fun h => hji (Option.some_inj.1 h).symm) (State.isInside_of_holds hj)
    (hasKey_of_keyOf hk)
  obtain ⟨l', hl', howner'⟩ := OutputLocks.owns_iff.1 howns
  obtain rfl := Option.some_inj.1 (hl.symm.trans hl')
  exact hji (Option.some_inj.1 (howner'.symm.trans howner))

theorem reachable_grant (h : Sound limit jobs (some i) s)
    (ha : Reachable (workOf jobs) drops ((State.ofSchedule s).go i .waiting s.locks))
    (howns : s.locks.owns i = true) :
    Reachable (workOf jobs) drops ((State.ofSchedule s).go i .inside s.locks) := by
  obtain ⟨l, hl, howner⟩ := OutputLocks.owns_iff.1 howns
  have hinside := ha.step (.enter State.go_stage hl (free_of_owns h ha howner))
  rwa [State.go_go] at hinside

/-! ## Turns -/

/-- To look for a source file is no step. -/
theorem State.ofSchedule_look (hi : i < s.phases.length) {arrival looks looks' : ℕ}
    (hcoming : s.phase i = .coming arrival looks) :
    ofSchedule (s.move i (.coming arrival looks')) = ofSchedule s := by
  rw [ofSchedule_eq_go (s := s) hi rfl]
  exact ofSchedule_go_self (p := .coming arrival looks) hi hcoming

theorem reachable_proceed (h : Sound limit jobs none s) (hi : i < s.phases.length)
    {arrival looks : ℕ} (hcoming : s.phase i = .coming arrival looks) (hjob : jobs[i]? = some job)
    (ha : Reachable (workOf jobs) drops (.ofSchedule s)) :
    Reachable (workOf jobs) drops (.ofSchedule (s.proceed limit i job.work)) := by
  have hstage : (State.ofSchedule s).stage i = .coming := by
    rw [State.stage_ofSchedule hi, hcoming, Stage.ofPhase]
  cases hw : job.work with
  | none =>
    rw [State.ofSchedule_eq_go (s := s) hi rfl]
    exact ha.step (.reject hstage ((workOf_eq hjob).trans hw))
  | some w =>
    rw [Schedule.State.proceed]
    cases hkey : w.key with
    | none =>
      have hinside := ha.step (.enterFree hstage ((workOf_eq hjob).trans hw) hkey)
      exact reachable_enter hi hjob hw hinside
    | some key =>
      have htaken := ha.step (.take hstage ((keyOf_eq hjob hw).trans hkey))
      have hasked := htaken.step (.ask State.go_stage)
      rw [State.go_go] at hasked
      dsimp only
      split
      next howns =>
        exact reachable_enter (s := { s with locks := _ }) hi hjob hw
          (reachable_grant (h.ask hcoming hjob hw hkey) hasked howns)
      next =>
        rw [State.ofSchedule_eq_go (s := s) hi rfl]
        exact hasked

theorem reachable_turn (h : Sound limit jobs none s) (hi : i < s.phases.length)
    (hjob : jobs[i]? = some job) (hready : s.isReady i = true)
    (ha : Reachable (workOf jobs) drops (.ofSchedule s)) :
    Reachable (workOf jobs) drops (.ofSchedule (s.turn limit i job)) := by
  have hsuits := h.suits (j := i) nofun hjob
  rw [Schedule.State.isReady] at hready
  rw [Schedule.State.turn]
  cases hphase : s.phase i with
  | coming arrival looks =>
    cases looks with
    | zero => exact reachable_proceed h hi hphase hjob ha
    | succ looks => exact State.ofSchedule_look hi hphase ▸ ha
  | waiting =>
    rw [hphase] at hsuits hready
    obtain ⟨w, hw⟩ := Option.isSome_iff_exists.1 hsuits
    rw [hw]
    refine reachable_enter hi hjob hw (reachable_grant (h.begin i) ?_ hready)
    rwa [← State.ofSchedule_go_self hi hphase] at ha
  | inside entered wakes =>
    rw [hphase] at hsuits
    obtain ⟨w, hw, -⟩ := hsuits
    rw [hw]
    refine reachable_leave hi hjob hw ?_ entered
    rwa [← State.ofSchedule_go_self hi hphase] at ha
  | ended =>
    rw [hphase] at hready
    cases hready

theorem reachable_step (h : Sound limit jobs none s) (ht : s.step? limit jobs = some t)
    (ha : Reachable (workOf jobs) drops (.ofSchedule s)) :
    Reachable (workOf jobs) drops (.ofSchedule t) := by
  rw [Schedule.State.step?] at ht
  cases hnext : s.next? with
  | none =>
    rw [hnext] at ht
    obtain ⟨time, -, rfl⟩ := Option.map_eq_some_iff.1 ht
    exact ha
  | some i =>
    obtain ⟨hi, hready⟩ := Schedule.State.isReady_of_next? hnext
    have hlt : i < jobs.length := h.length ▸ hi
    have hjob : jobs[i]? = some jobs[i] := List.getElem?_eq_getElem hlt
    simp only [hnext, hjob] at ht
    obtain rfl := Option.some_inj.1 ht
    exact reachable_turn (h.withCursor (i + 1)) hi hjob hready ha

theorem reachable_steps (h : Sound limit jobs none s)
    (ha : Reachable (workOf jobs) drops (.ofSchedule s)) (fuel : ℕ) :
    Reachable (workOf jobs) drops (.ofSchedule (s.steps limit jobs fuel)) := by
  induction fuel generalizing s with
  | zero => exact ha
  | succ fuel ih =>
    rw [Schedule.State.steps]
    split
    next t ht => exact ih (h.step ht) (reachable_step h ht ha)
    next => exact ha

/-- **Every state of every run of the schedule is reached by an interleaving.** -/
theorem reachable_run (limit : Option ℕ) (jobs : List Job) (fuel : ℕ) :
    Reachable (workOf jobs) drops
      (.ofSchedule ((Schedule.State.start 0 .empty jobs).steps limit jobs fuel)) := by
  refine reachable_steps (Sound.start 0 rfl jobs) ?_ fuel
  have hstart : State.ofSchedule (Schedule.State.start 0 .empty jobs) = .start := by
    rw [State.ofSchedule, State.start]
    congr 1
    funext i
    split
    next hi =>
      rw [Schedule.State.phase_of_lt hi]
      simp [Schedule.State.start, Stage.ofPhase]
    next => rfl
  rw [hstart]
  exact .start

/-- **On the schedule, of the compiles on one path at most one is in the compiler**, at any time of
any run. -/
theorem eq_of_inside {fuel : ℕ} {k k' : Path}
    (hs : (Schedule.State.start 0 .empty jobs).steps limit jobs fuel = s)
    (hi : (s.phase i).IsInside) (hj : (s.phase j).IsInside) (hk : keyOf (workOf jobs) i = some k)
    (hk' : keyOf (workOf jobs) j = some k') (hsame : k.same k' = true) : i = j := by
  have ha : Reachable (workOf jobs) False (.ofSchedule s) := hs ▸ reachable_run limit jobs fuel
  exact ha.tied.alone (State.holds_of_isInside hi) (State.holds_of_isInside hj) hk hk' hsame

end LiveBuild.Interleaving
