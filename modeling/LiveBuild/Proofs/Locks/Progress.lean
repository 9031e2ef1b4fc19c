import LiveBuild.Locks.Schedule
import LiveBuild.Proofs.Locks.Table
import Mathlib.Data.Option.Basic
import Mathlib.Data.List.Forall2
import Mathlib.Order.Nat
import Mathlib.Data.List.Induction

/-!
# Every compile on the schedule ends

`done_run`, `done_runInTurn`: at the end of the turns every job is over, and it ended as its own
work and the time limit say (`Job.ending`), whatever the other jobs do.

* `Sound`: the invariant. Nobody sleeps past the time at which it leaves the compiler, whoever waits
  has asked for a lock, whoever is in a queue waits or is in the compiler, and whoever is in the
  compiler owns its lock.
* `Sound.exists_wakeTime`: if nobody is ready, then somebody will wake up. The owner of a lock is in
  the compiler, since a compile that owns its lock does not wait.
* `State.stepsLeft`: the measure. A compile that looks for its source file no more has at most three
  turns left, and the clock moves only if nobody is ready, so two steps for each turn suffice.
-/

namespace LiveBuild.Schedule

variable {limit : Option ℕ} {jobs : List Job} {job : Job} {w : Work} {s t : State} {i j l : ℕ}
  {p : Phase}

/-- How a job ends. An answer that comes exactly at the limit still counts. -/
def Job.ending (limit : Option ℕ) (job : Job) : Ending :=
  match job.work with
  | none => .rejected
  | some w => if w.delay ≤ hold limit w.delay then .answered else .timedOut

namespace Phase

/-- The compile waits for its lock or is in the compiler. -/
def IsActive : Phase → Prop
  | waiting => True
  | inside _ _ => True
  | _ => False

/-- The compile is in the compiler. -/
def IsInside : Phase → Prop
  | inside _ _ => True
  | _ => False

/-- A job may be in this phase at this time. -/
def Suits (limit : Option ℕ) (now : ℕ) (job : Job) : Phase → Prop
  | coming _ _ => True
  | waiting => job.work.isSome
  | inside entered wakes =>
    ∃ w, job.work = some w ∧ wakes = entered + hold limit w.delay ∧ now ≤ wakes
  | ended _ ending => ending = job.ending limit

theorem turns_pos_of_isActive (hp : p.IsActive) : 0 < p.turns := by
  cases p with
  | coming | ended => cases hp
  | waiting | inside => exact Nat.succ_pos _

end Phase

/-! ## The invariant -/

/-- The job writes a path. -/
def HasKey (jobs : List Job) (i : ℕ) : Prop :=
  ∃ job w, jobs[i]? = some job ∧ job.work = some w ∧ w.key.isSome

theorem hasKey_iff (hjob : jobs[i]? = some job) (hw : job.work = some w) :
    HasKey jobs i ↔ w.key.isSome := by
  constructor
  · rintro ⟨job', w', hjob', hw', hkey⟩
    obtain rfl := Option.some_inj.1 (hjob.symm.trans hjob')
    obtain rfl := Option.some_inj.1 (hw.symm.trans hw')
    exact hkey
  · intro hkey
    exact ⟨job, w, hjob, hw, hkey⟩

/-- The invariant of a run. Nothing is said about the phase of `busy`, whose turn it is. -/
structure Sound (limit : Option ℕ) (jobs : List Job) (busy : Option ℕ) (s : State) : Prop where
  length : s.phases.length = jobs.length
  suits : ∀ {j job}, busy ≠ some j → jobs[j]? = some job → (s.phase j).Suits limit s.now job
  queue : ∀ {j l}, (j, l) ∈ s.locks.queue → s.locks.lockOf? j = some l ∧ HasKey jobs j ∧
    (busy ≠ some j → (s.phase j).IsActive)
  waiting : ∀ {j}, busy ≠ some j → s.phase j = .waiting → ∃ l, (j, l) ∈ s.locks.queue
  owns : ∀ {j}, busy ≠ some j → (s.phase j).IsInside → HasKey jobs j → s.locks.owns j = true

theorem State.phase_of_phases (h : t.phases = s.phases.set i p) (hne : j ≠ i) :
    t.phase j = s.phase j := by
  rw [phase, phase, h, List.getElem?_set_ne hne.symm]

theorem State.phase_self_of_phases (h : t.phases = s.phases.set i p) (hi : i < s.phases.length) :
    t.phase i = p := by
  rw [phase, h, List.getElem?_set_self hi]
  rfl

theorem State.leave_locks_of_some {key : Path} (h : w.key = some key) {entered : ℕ} :
    (s.leave i w entered).locks = (s.locks.leave i).release key := by
  simp only [leave, move, record, h]

theorem State.leave_locks_of_none (h : w.key = none) {entered : ℕ} :
    (s.leave i w entered).locks = s.locks := by
  simp only [leave, move, record, h]

namespace Sound

variable {busy : Option ℕ}

theorem start (now : ℕ) {locks : OutputLocks} (hlocks : locks.queue = []) (jobs : List Job) :
    Sound limit jobs none (State.start now locks jobs) where
  length := List.length_map _
  suits {j job} _ hj := by
    have hphase : (State.start now locks jobs).phase j = .coming job.arrival job.looks := by
      simp [State.phase, State.start, hj]
    rw [hphase]
    trivial
  queue h := by
    rw [State.start, hlocks] at h
    cases h
  waiting {j} _ hj := by
    have hphase : (State.start now locks jobs).phase j ≠ .waiting := by
      rw [State.phase, State.start, List.getElem?_map]
      cases jobs[j]? <;> simp
    exact absurd hj hphase
  owns {j} _ hj := by
    rw [State.phase, State.start, List.getElem?_map] at hj
    cases hjob : jobs[j]? <;> rw [hjob] at hj <;> cases hj

/-- The turn of a compile begins. -/
theorem begin (h : Sound limit jobs none s) (i : ℕ) : Sound limit jobs (some i) s where
  length := h.length
  suits _ := h.suits nofun
  queue hj := ⟨(h.queue hj).1, (h.queue hj).2.1, fun _ => (h.queue hj).2.2 nofun⟩
  waiting _ := h.waiting nofun
  owns _ := h.owns nofun

/-- The invariant does not look at the cursor. -/
theorem withCursor (h : Sound limit jobs busy s) (cursor : ℕ) :
    Sound limit jobs busy { s with cursor } :=
  ⟨h.length, h.suits, h.queue, h.waiting, h.owns⟩

/-- The turn of a compile ends with a phase that suits it. -/
theorem finish (h : Sound limit jobs (some i) s) (hi : i < s.phases.length)
    (hjob : jobs[i]? = some job) (hnow : t.now = s.now)
    (hphases : t.phases = s.phases.set i p) (hlocks : s.locks.AgreeOff i t.locks)
    (hp : p.Suits limit s.now job)
    (hqueue : ∀ {l}, (i, l) ∈ t.locks.queue → (i, l) ∈ s.locks.queue ∧
      t.locks.lockOf? i = s.locks.lockOf? i ∧ p.IsActive)
    (hwaiting : p = .waiting → ∃ l, (i, l) ∈ t.locks.queue)
    (howns : p.IsInside → HasKey jobs i → t.locks.owns i = true) : Sound limit jobs none t where
  length := by rw [hphases, List.length_set, h.length]
  suits {j job} _ hj := by
    rw [hnow]
    by_cases hji : j = i
    · subst hji
      obtain rfl := Option.some_inj.1 (hjob.symm.trans hj)
      rwa [State.phase_self_of_phases hphases hi]
    · rw [State.phase_of_phases hphases hji]
      exact h.suits (fun h => hji (Option.some_inj.1 h).symm) hj
  queue {j l} hj := by
    by_cases hji : j = i
    · subst hji
      obtain ⟨hmem, hlock, hactive⟩ := hqueue hj
      obtain ⟨hl, hkey, -⟩ := h.queue hmem
      rw [State.phase_self_of_phases hphases hi, hlock]
      exact ⟨hl, hkey, fun _ => hactive⟩
    · obtain ⟨hl, hkey, hactive⟩ := h.queue ((hlocks.queue hji).1 hj)
      rw [State.phase_of_phases hphases hji, hlocks.lockOf? hji]
      exact ⟨hl, hkey, fun _ => hactive fun h => hji (Option.some_inj.1 h).symm⟩
  waiting {j} _ hj := by
    by_cases hji : j = i
    · subst hji
      rw [State.phase_self_of_phases hphases hi] at hj
      exact hwaiting hj
    · rw [State.phase_of_phases hphases hji] at hj
      obtain ⟨l, hl⟩ := h.waiting (fun h => hji (Option.some_inj.1 h).symm) hj
      exact ⟨l, (hlocks.queue hji).2 hl⟩
  owns {j} _ hj hkey := by
    by_cases hji : j = i
    · subst hji
      rw [State.phase_self_of_phases hphases hi] at hj
      exact howns hj hkey
    · rw [State.phase_of_phases hphases hji] at hj
      exact hlocks.owns hji (h.owns (fun h => hji (Option.some_inj.1 h).symm) hj hkey)

/-! ## Turns -/

theorem leave (h : Sound limit jobs (some i) s) (hi : i < s.phases.length)
    (hjob : jobs[i]? = some job) (hw : job.work = some w) {entered : ℕ}
    (hnow : s.now = entered + hold limit w.delay) :
    Sound limit jobs none (s.leave i w entered) := by
  refine h.finish hi hjob rfl rfl ?_ ?_ ?_ nofun nofun
  · cases hkey : w.key with
    | none =>
      rw [State.leave_locks_of_none hkey]
      exact .refl i s.locks
    | some key =>
      rw [State.leave_locks_of_some hkey]
      exact (OutputLocks.AgreeOff.leave i s.locks).trans (.release i key _)
  · have hiff : entered + w.delay ≤ s.now ↔ w.delay ≤ hold limit w.delay := by omega
    simp only [Phase.Suits, Job.ending, hw, hiff]
  · intro l hl
    cases hkey : w.key with
    | none =>
      rw [State.leave_locks_of_none hkey] at hl
      have hhas := (hasKey_iff hjob hw).1 (h.queue hl).2.1
      rw [hkey] at hhas
      cases hhas
    | some key =>
      rw [State.leave_locks_of_some hkey, OutputLocks.queue_release,
        OutputLocks.mem_queue_leave] at hl
      exact absurd rfl hl.2

theorem record (h : Sound limit jobs busy s) (kind : EventKind) :
    Sound limit jobs busy (s.record i kind) :=
  ⟨h.length, h.suits, h.queue, h.waiting, h.owns⟩

theorem enter (h : Sound limit jobs (some i) s) (hi : i < s.phases.length)
    (hjob : jobs[i]? = some job) (hw : job.work = some w)
    (howns : HasKey jobs i → s.locks.owns i = true) :
    Sound limit jobs none (s.enter limit i w) := by
  rw [State.enter]
  split
  next h0 => exact (h.record .enter).leave hi hjob hw (by rw [h0]; rfl)
  next =>
    exact (h.record .enter).finish hi hjob rfl rfl (.refl i s.locks)
      ⟨w, hw, rfl, Nat.le_add_right _ _⟩ (fun hl => ⟨hl, rfl, trivial⟩) nofun fun _ => howns

/-- A compile takes a handle on its lock and asks for it. -/
theorem ask (h : Sound limit jobs none s) {arrival looks : ℕ}
    (hcoming : s.phase i = .coming arrival looks) (hjob : jobs[i]? = some job)
    (hw : job.work = some w) {key : Path} (hkey : w.key = some key) :
    Sound limit jobs (some i) { s with locks := (s.locks.take i key).ask i } where
  length := h.length
  suits _ := h.suits nofun
  queue {j l} hj := by
    rw [OutputLocks.mem_queue_ask, OutputLocks.queue_take] at hj
    rw [OutputLocks.lockOf?_ask]
    rcases hj with hj | ⟨rfl, hl⟩
    · obtain ⟨hl, hhas, hactive⟩ := h.queue hj
      have hji : j ≠ i := by
        rintro rfl
        have := hactive nofun
        rw [hcoming] at this
        exact this
      rw [OutputLocks.lockOf?_take_of_ne hji]
      exact ⟨hl, hhas, fun _ => hactive nofun⟩
    · exact ⟨hl, (hasKey_iff hjob hw).2 (by rw [hkey]; rfl), fun h => absurd rfl h⟩
  waiting _ hj := by
    obtain ⟨l, hl⟩ := h.waiting nofun hj
    exact ⟨l, OutputLocks.mem_queue_ask.2 (.inl (by rwa [OutputLocks.queue_take]))⟩
  owns {j} hj hinside hhas := by
    have hji : j ≠ i := fun h => hj (congrArg some h.symm)
    have hagree := (OutputLocks.AgreeOff.take i key s.locks).trans (.ask i _)
    exact hagree.owns hji (h.owns nofun hinside hhas)

/-- Nobody is in a queue who did not ask. -/
theorem not_mem_queue (h : Sound limit jobs none s) {arrival looks : ℕ}
    (hcoming : s.phase i = .coming arrival looks) : (i, l) ∉ s.locks.queue := fun hl => by
  have hactive := (h.queue hl).2.2 nofun
  rw [hcoming] at hactive
  exact hactive

/-- A compile looks for its source file. -/
theorem look (h : Sound limit jobs none s) (hi : i < s.phases.length) {arrival looks looks' : ℕ}
    (hcoming : s.phase i = .coming arrival looks) (hjob : jobs[i]? = some job) :
    Sound limit jobs none (s.move i (.coming arrival looks')) :=
  (h.begin i).finish hi hjob rfl rfl (.refl i s.locks) trivial
    (fun hl => absurd hl (h.not_mem_queue hcoming)) nofun nofun

theorem proceed (h : Sound limit jobs none s) (hi : i < s.phases.length) {arrival looks : ℕ}
    (hcoming : s.phase i = .coming arrival looks) (hjob : jobs[i]? = some job) :
    Sound limit jobs none (s.proceed limit i job.work) := by
  cases hw : job.work with
  | none =>
    refine (h.begin i).finish hi hjob rfl rfl (.refl i s.locks) ?_
      (fun hl => absurd hl (h.not_mem_queue hcoming)) nofun nofun
    simp only [Phase.Suits, Job.ending, hw]
  | some w =>
    rw [State.proceed]
    cases hkey : w.key with
    | none =>
      refine (h.begin i).enter hi hjob hw fun hhas => ?_
      have hsome := (hasKey_iff hjob hw).1 hhas
      rw [hkey] at hsome
      cases hsome
    | some key =>
      have hask := h.ask hcoming hjob hw hkey
      dsimp only
      split
      next howns => exact hask.enter hi hjob hw fun _ => howns
      next =>
        refine hask.finish hi hjob rfl rfl (.refl i _) (by rw [Phase.Suits, hw]; rfl)
          (fun hl => ⟨hl, rfl, trivial⟩) (fun _ => ?_) nofun
        obtain ⟨l, hl⟩ : ∃ l, (s.locks.take i key).lockOf? i = some l :=
          OutputLocks.exists_lockOf?_take
        exact ⟨l, OutputLocks.mem_queue_ask.2 (.inr ⟨rfl, hl⟩)⟩

/-- **A turn preserves the invariant.** A compile leaves the compiler exactly when it wakes up. -/
theorem turn (h : Sound limit jobs none s) (hi : i < s.phases.length) (hjob : jobs[i]? = some job)
    (hready : s.isReady i = true) : Sound limit jobs none (s.turn limit i job) := by
  have hsuits := h.suits (j := i) nofun hjob
  rw [State.isReady] at hready
  rw [State.turn]
  cases hphase : s.phase i with
  | coming arrival looks =>
    cases looks with
    | zero => exact h.proceed hi hphase hjob
    | succ looks => exact h.look hi hphase hjob
  | waiting =>
    rw [hphase] at hsuits hready
    obtain ⟨w, hw⟩ := Option.isSome_iff_exists.1 hsuits
    rw [hw]
    exact (h.begin i).enter hi hjob hw fun _ => hready
  | inside entered wakes =>
    rw [hphase] at hsuits hready
    obtain ⟨w, hw, rfl, hnow⟩ := hsuits
    rw [hw]
    exact (h.begin i).leave hi hjob hw (Nat.le_antisymm hnow (of_decide_eq_true hready))
  | ended left ending =>
    rw [hphase] at hready
    cases hready

end Sound

/-! ## Turns that are left -/

namespace State

theorem leave_phases (i : ℕ) (w : Work) (entered : ℕ) :
    ∃ left ending, (s.leave i w entered).phases = s.phases.set i (.ended left ending) :=
  ⟨_, _, rfl⟩

theorem enter_phases (i : ℕ) (w : Work) :
    ∃ p, (s.enter limit i w).phases = s.phases.set i p ∧ p.turns ≤ 1 := by
  rw [enter]
  split
  · exact ⟨_, rfl, Nat.zero_le _⟩
  · exact ⟨_, rfl, le_rfl⟩

theorem proceed_phases (i : ℕ) (work : Option Work) :
    ∃ p, (s.proceed limit i work).phases = s.phases.set i p ∧ p.turns ≤ 2 := by
  cases work with
  | none => exact ⟨_, rfl, Nat.zero_le _⟩
  | some w =>
    rw [proceed]
    cases w.key with
    | none => exact (enter_phases i w).imp fun _ h => ⟨h.1, h.2.trans (Nat.le_succ 1)⟩
    | some key =>
      dsimp only
      split
      · exact (enter_phases i w).imp fun _ h => ⟨h.1, h.2.trans (Nat.le_succ 1)⟩
      · exact ⟨_, rfl, le_rfl⟩

/-- A turn brings one compile nearer to its end and no other one further. -/
theorem turn_phases (h : Sound limit jobs none s) (hjob : jobs[i]? = some job)
    (hready : s.isReady i = true) :
    ∃ p, (s.turn limit i job).phases = s.phases.set i p ∧ p.turns < (s.phase i).turns := by
  have hsuits := h.suits (j := i) nofun hjob
  rw [isReady] at hready
  rw [turn]
  cases hphase : s.phase i with
  | coming arrival looks =>
    cases looks with
    | zero => exact (proceed_phases i _).imp fun _ h => ⟨h.1, Nat.lt_succ_of_le h.2⟩
    | succ looks => exact ⟨_, rfl, Nat.lt_succ_self (looks + 3)⟩
  | waiting =>
    rw [hphase] at hsuits
    obtain ⟨w, hw⟩ := Option.isSome_iff_exists.1 hsuits
    rw [hw]
    exact (enter_phases i w).imp fun _ h => ⟨h.1, Nat.lt_succ_of_le h.2⟩
  | inside entered =>
    rw [hphase] at hsuits
    obtain ⟨w, hw, -⟩ := hsuits
    rw [hw]
    exact ⟨_, rfl, Nat.succ_pos 0⟩
  | ended =>
    rw [hphase] at hready
    cases hready

/-- The number of steps that are left at most: a turn and a move of the clock for each turn, but no
move of the clock if somebody is ready. -/
def stepsLeft (s : State) : ℕ := 2 * s.turnsLeft - if s.next?.isSome then 1 else 0

theorem phase_of_lt (hi : i < s.phases.length) : s.phase i = s.phases[i] := by
  rw [phase, List.getElem?_eq_getElem hi]
  rfl

theorem lt_of_turns_pos (h : 0 < (s.phase i).turns) : i < s.phases.length := by
  by_contra hi
  rw [phase, List.getElem?_eq_none (not_lt.1 hi)] at h
  exact absurd h (lt_irrefl 0)

theorem turnsLeft_lt (ht : t.phases = s.phases.set i p) (hi : i < s.phases.length)
    (hp : p.turns < (s.phase i).turns) : t.turnsLeft < s.turnsLeft := by
  rw [phase_of_lt hi] at hp
  rw [turnsLeft, turnsLeft, ht]
  clear ht
  generalize s.phases = phases at hi hp
  induction phases generalizing i with
  | nil => cases hi
  | cons q phases ih =>
    cases i with
    | zero =>
      rw [List.set_cons_zero, List.foldr_cons, List.foldr_cons]
      exact Nat.add_lt_add_right hp _
    | succ i =>
      rw [List.set_cons_succ, List.foldr_cons, List.foldr_cons]
      exact Nat.add_lt_add_left (ih (Nat.lt_of_succ_lt_succ hi) hp) _

theorem turnsLeft_eq_zero_iff : s.turnsLeft = 0 ↔ ∀ i, (s.phase i).turns = 0 := by
  have hfold (phases : List Phase) :
      phases.foldr (fun p n => p.turns + n) 0 = 0 ↔ ∀ q ∈ phases, q.turns = 0 := by
    induction phases with
    | nil => simp
    | cons q phases ih => rw [List.foldr_cons, Nat.add_eq_zero_iff, ih, List.forall_mem_cons]
  rw [turnsLeft, hfold]
  constructor
  · intro h i
    by_contra hi
    have hlt := lt_of_turns_pos (Nat.pos_of_ne_zero hi)
    rw [phase_of_lt hlt] at hi
    exact hi (h _ (List.getElem_mem hlt))
  · intro h q hq
    obtain ⟨i, hi, rfl⟩ := List.mem_iff_getElem.1 hq
    rw [← phase_of_lt hi]
    exact h i

/-! ## The next step -/

theorem isReady_of_next? (h : s.next? = some i) : i < s.phases.length ∧ s.isReady i = true := by
  have hmem : i ∈ (List.range s.phases.length).filter s.isReady := by
    rw [next?] at h
    rcases (Option.orElse_eq_some _ _ _).1 h with h | ⟨-, h⟩
    · exact List.mem_of_find?_eq_some h
    · exact List.mem_of_head? h
  simpa using hmem

theorem turns_pos_of_isReady (h : s.isReady i = true) : 0 < (s.phase i).turns := by
  rw [isReady] at h
  cases hphase : s.phase i with
  | coming | waiting | inside => exact Nat.succ_pos _
  | ended =>
    rw [hphase] at h
    cases h

theorem isSome_next? (h : s.isReady i = true) : s.next?.isSome := by
  have hi : i < s.phases.length := lt_of_turns_pos (turns_pos_of_isReady h)
  have hne : (List.range s.phases.length).filter s.isReady ≠ [] :=
    List.ne_nil_of_mem (a := i) (by simp [hi, h])
  rw [next?, Option.orElse_eq_orElse, Option.orElse_eq_or, Option.isSome_or,
    List.isSome_head?.2 hne, Bool.or_true]

/-- The times at which a compile wakes up are those until which it sleeps. -/
theorem mem_wakeTimes {time : ℕ} : time ∈ s.wakeTimes ↔
    ∃ i, (∃ looks, s.phase i = .coming time looks) ∨
      ∃ entered, s.phase i = .inside entered time := by
  rw [wakeTimes, List.mem_filterMap]
  constructor
  · rintro ⟨q, hq, htime⟩
    obtain ⟨i, hi, rfl⟩ := List.mem_iff_getElem.1 hq
    refine ⟨i, ?_⟩
    rw [phase_of_lt hi]
    split at htime
    next arrival looks heq =>
      obtain rfl := Option.some_inj.1 htime
      exact .inl ⟨looks, heq⟩
    next entered wakes heq =>
      obtain rfl := Option.some_inj.1 htime
      exact .inr ⟨entered, heq⟩
    next => cases htime
  · rintro ⟨i, hi⟩
    have hlt : i < s.phases.length := lt_of_turns_pos (by
      rcases hi with ⟨looks, hi⟩ | ⟨entered, hi⟩ <;> rw [hi] <;> exact Nat.succ_pos _)
    refine ⟨s.phase i, ?_, ?_⟩
    · rw [phase_of_lt hlt]
      exact List.getElem_mem hlt
    · rcases hi with ⟨looks, hi⟩ | ⟨entered, hi⟩ <;> rw [hi]

end State

namespace Sound

/-- **If nobody is ready, then somebody sleeps.** One that waits does not own its lock. The owner
asked for the lock too, and since it is not ready, it is in the compiler. -/
theorem exists_wakeTime (h : Sound limit jobs none s) (hidle : s.next? = none)
    (hs : s.turnsLeft ≠ 0) : ∃ time, time ∈ s.wakeTimes := by
  have hready (i : ℕ) : s.isReady i ≠ true := fun hi => by
    have := State.isSome_next? hi
    rw [hidle] at this
    cases this
  rw [ne_eq, State.turnsLeft_eq_zero_iff, not_forall] at hs
  obtain ⟨i, hi⟩ := hs
  cases hphase : s.phase i with
  | coming arrival looks => exact ⟨arrival, State.mem_wakeTimes.2 ⟨i, .inl ⟨looks, hphase⟩⟩⟩
  | inside entered wakes => exact ⟨wakes, State.mem_wakeTimes.2 ⟨i, .inr ⟨entered, hphase⟩⟩⟩
  | ended => exact absurd (by rw [hphase]; rfl) hi
  | waiting =>
    obtain ⟨l, hl⟩ := h.waiting nofun hphase
    obtain ⟨o, howner, hmem⟩ := OutputLocks.exists_owner? hl
    obtain ⟨hlock, -, hactive⟩ := h.queue hmem
    have hactive := hactive nofun
    cases ho : s.phase o with
    | coming | ended =>
      rw [ho] at hactive
      cases hactive
    | inside entered wakes => exact ⟨wakes, State.mem_wakeTimes.2 ⟨o, .inr ⟨entered, ho⟩⟩⟩
    | waiting =>
      refine absurd ?_ (hready o)
      rw [State.isReady, ho]
      exact OutputLocks.owns_iff.2 ⟨l, hlock, howner⟩

/-- The clock moves to the first time at which somebody wakes up, so that nobody sleeps too long. -/
theorem tick (h : Sound limit jobs none s) {time : ℕ} (htime : s.wakeTimes.min? = some time) :
    Sound limit jobs none { s with now := time, cursor := 0 } where
  length := h.length
  suits {j job} _ hj := by
    have hsuits := h.suits (j := j) nofun hj
    change (s.phase j).Suits limit time job
    cases hphase : s.phase j with
    | inside entered wakes =>
      rw [hphase] at hsuits
      obtain ⟨w, hw, hwakes, -⟩ := hsuits
      exact ⟨w, hw, hwakes, (List.min?_eq_some_iff.1 htime).2 wakes
        (State.mem_wakeTimes.2 ⟨j, .inr ⟨entered, hphase⟩⟩)⟩
    | coming | waiting | ended =>
      rw [hphase] at hsuits
      exact hsuits
  queue := h.queue
  waiting := h.waiting
  owns := h.owns

theorem isSome_next?_tick {time : ℕ} (htime : s.wakeTimes.min? = some time) :
    { s with now := time, cursor := 0 }.next?.isSome := by
  obtain ⟨i, hi⟩ := State.mem_wakeTimes.1 (List.min?_eq_some_iff.1 htime).1
  refine State.isSome_next? (i := i) ?_
  change (match s.phase i with
    | .coming arrival _ => decide (arrival ≤ time)
    | .waiting => s.locks.owns i
    | .inside _ wakes => decide (wakes ≤ time)
    | .ended _ _ => false) = true
  rcases hi with ⟨looks, hi⟩ | ⟨entered, hi⟩ <;> simp [hi]

/-- **While a turn is left there is a next step**, and it preserves the invariant. -/
theorem exists_step (h : Sound limit jobs none s) (hs : s.turnsLeft ≠ 0) :
    ∃ t, s.step? limit jobs = some t ∧ Sound limit jobs none t ∧ t.stepsLeft < s.stepsLeft := by
  rw [State.step?]
  cases hnext : s.next? with
  | some i =>
    obtain ⟨hi, hready⟩ := State.isReady_of_next? hnext
    have hlt : i < jobs.length := h.length ▸ hi
    have hjob : jobs[i]? = some jobs[i] := List.getElem?_eq_getElem hlt
    have hcursor := h.withCursor (i + 1)
    obtain ⟨p, hp, hturns⟩ := State.turn_phases hcursor hjob hready
    have hfewer : ({ s with cursor := i + 1 }.turn limit i jobs[i]).turnsLeft < s.turnsLeft :=
      State.turnsLeft_lt hp hi hturns
    refine ⟨_, by simp only [hjob], hcursor.turn hi hjob hready, ?_⟩
    rw [State.stepsLeft, State.stepsLeft, hnext, Option.isSome_some, if_pos rfl]
    omega
  | none =>
    obtain ⟨wakes, hwakes⟩ := h.exists_wakeTime hnext hs
    obtain ⟨time, htime⟩ := Option.isSome_iff_exists.1 (List.isSome_min?_of_mem hwakes)
    refine ⟨{ s with now := time, cursor := 0 }, by rw [htime]; rfl, h.tick htime, ?_⟩
    rw [State.stepsLeft, State.stepsLeft, hnext, isSome_next?_tick htime]
    change 2 * s.turnsLeft - 1 < 2 * s.turnsLeft - 0
    omega

/-- When no turn is left nothing is to come. -/
theorem step?_eq_none (hs : s.turnsLeft = 0) : s.step? limit jobs = none := by
  rw [State.turnsLeft_eq_zero_iff] at hs
  have hnext : s.next? = none := by
    rw [Option.eq_none_iff_forall_ne_some]
    intro i hi
    exact absurd (hs i) (State.turns_pos_of_isReady (State.isReady_of_next? hi).2).ne'
  have hwake : s.wakeTimes = [] := by
    rw [List.eq_nil_iff_forall_not_mem]
    intro time htime
    obtain ⟨i, hi⟩ := State.mem_wakeTimes.1 htime
    have h0 := hs i
    rcases hi with ⟨looks, hi⟩ | ⟨entered, hi⟩ <;> rw [hi] at h0 <;> cases h0
  rw [State.step?, hnext, hwake]
  rfl

theorem step (h : Sound limit jobs none s) (ht : s.step? limit jobs = some t) :
    Sound limit jobs none t := by
  by_cases hs : s.turnsLeft = 0
  · rw [step?_eq_none hs] at ht
    cases ht
  · obtain ⟨t', ht', hsound, -⟩ := h.exists_step hs
    exact Option.some_inj.1 (ht'.symm.trans ht) ▸ hsound

/-- The steps that are left lead to a state in which no turn is left. -/
theorem steps (h : Sound limit jobs none s) {fuel : ℕ} (hfuel : s.stepsLeft ≤ fuel) :
    Sound limit jobs none (s.steps limit jobs fuel) ∧ (s.steps limit jobs fuel).turnsLeft = 0 := by
  induction fuel generalizing s with
  | zero =>
    refine ⟨h, ?_⟩
    rw [State.stepsLeft] at hfuel
    change s.turnsLeft = 0
    split at hfuel <;> omega
  | succ fuel ih =>
    rw [State.steps]
    by_cases hs : s.turnsLeft = 0
    · rw [step?_eq_none hs]
      exact ⟨h, hs⟩
    · obtain ⟨t, ht, hsound, hless⟩ := h.exists_step hs
      rw [ht]
      exact ih hsound (by omega)

end Sound

/-! ## Whole runs -/

/-- Every job is over, and nobody is left in a queue. -/
structure Done (limit : Option ℕ) (jobs : List Job) (s : State) : Prop where
  phases : List.Forall₂ (fun job p => ∃ left, p = .ended left (job.ending limit)) jobs s.phases
  queue : s.locks.queue = []

theorem Sound.done (h : Sound limit jobs none s) (hs : s.turnsLeft = 0) : Done limit jobs s where
  phases := by
    refine List.forall₂_iff_get.2 ⟨h.length.symm, fun i hi hi' => ?_⟩
    have hsuits := h.suits (j := i) nofun (List.getElem?_eq_getElem hi)
    have hturns := State.turnsLeft_eq_zero_iff.1 hs i
    rw [State.phase_of_lt hi'] at hsuits hturns
    cases hphase : s.phases[i] with
    | ended left ending =>
      rw [hphase] at hsuits
      exact ⟨left, hphase.trans (congrArg _ hsuits)⟩
    | coming | waiting | inside =>
      rw [hphase] at hturns
      cases hturns
  queue := by
    rw [List.eq_nil_iff_forall_not_mem]
    rintro ⟨i, l⟩ hl
    have hactive := (h.queue hl).2.2 nofun
    exact absurd (State.turnsLeft_eq_zero_iff.1 hs i) (Phase.turns_pos_of_isActive hactive).ne'

/-- The jobs of a run are over at its end, if nobody was in a queue when it began. -/
theorem done_runFrom (now : ℕ) {locks : OutputLocks} (hlocks : locks.queue = []) (jobs : List Job) :
    Done limit jobs (runFrom limit now locks jobs) := by
  have hfuel : (State.start now locks jobs).stepsLeft ≤ 2 * (State.start now locks jobs).turnsLeft :=
    Nat.sub_le _ _
  obtain ⟨hsound, hzero⟩ := (Sound.start now hlocks jobs).steps hfuel
  exact hsound.done hzero

/-- **At the end of a run every job is over**, and it ended as its own work and the limit say. -/
theorem done_run (limit : Option ℕ) (jobs : List Job) : Done limit jobs (run limit jobs) :=
  done_runFrom 0 rfl jobs

theorem runInTurn_append (limit : Option ℕ) (jobs : List Job) (job : Job) :
    runInTurn limit (jobs ++ [job]) =
      let s := runInTurn limit jobs
      let t := runFrom limit s.now s.locks [{ job with arrival := s.now }]
      { t with
        phases := s.phases ++ t.phases
        events := s.events ++ t.events.map fun e => { e with task := s.phases.length } } := by
  rw [runInTurn, List.foldl_append]
  rfl

/-- **The same holds of jobs that run one after the other.** -/
theorem done_runInTurn (limit : Option ℕ) (jobs : List Job) :
    Done limit jobs (runInTurn limit jobs) := by
  induction jobs using List.reverseRecOn with
  | nil => exact ⟨.nil, rfl⟩
  | append_singleton jobs job ih =>
    have hone : Done limit [{ job with arrival := (runInTurn limit jobs).now }] _ :=
      done_runFrom (runInTurn limit jobs).now ih.queue _
    rw [runInTurn_append]
    refine ⟨List.rel_append ih.phases ?_, hone.queue⟩
    -- when a job arrives has no part in how it ends
    obtain ⟨p, ps, hp, hnil, hphases⟩ := List.forall₂_cons_left_iff.1 hone.phases
    rw [hphases]
    exact .cons hp (List.forall₂_nil_left_iff.1 hnil ▸ .nil)

theorem Done.exists_phase_eq (h : Done limit jobs s) (hjob : jobs[i]? = some job) :
    ∃ left, s.phase i = .ended left (job.ending limit) := by
  obtain ⟨hlength, hover⟩ := List.forall₂_iff_get.1 h.phases
  obtain ⟨hi, rfl⟩ := List.getElem?_eq_some_iff.1 hjob
  obtain ⟨left, hleft⟩ := hover i hi (hlength ▸ hi)
  exact ⟨left, (State.phase_of_lt (hlength ▸ hi)).trans hleft⟩

theorem State.result_of_phase {left : ℕ} {ending : Ending} (h : s.phase i = .ended left ending) :
    s.result i = (left, ending) := by
  rw [result, h]

/-- How a job ended can be read off the state. -/
theorem Done.result (h : Done limit jobs s) (hjob : jobs[i]? = some job) :
    ∃ left, s.result i = (left, job.ending limit) :=
  (h.exists_phase_eq hjob).imp fun _ => State.result_of_phase

end LiveBuild.Schedule
