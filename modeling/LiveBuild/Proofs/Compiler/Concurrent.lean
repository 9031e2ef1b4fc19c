import LiveBuild.Proofs.Compiler.Steps
import LiveBuild.Proofs.Locks.Interleaving

/-!
# Concurrent compiles on one host

Compiles share a host and a table of locks. Each operation of a compile is a step of its own, each
action on the table is one, and they come in any order.

* `Setup`: the requests, the compiler and the host at the start;
* `State`: the table, the host, and the point at which each compile stands;
* `Step`: one step of one compile. The compiler is in a compile's hands from the moment it has the
  lock; while it runs, it may change its output at any time, and its end is one step. A compile that
  is given up goes through the table, and its operations on files may still take effect. Its
  compiler is killed, but nobody waits for what the compiler has started, a linker say: this may
  change the output at any later time, also when somebody else has the lock. If a run does not undo
  such a change, the change counts as coming after the run;
* `Reachable.undisturbed`: a compile in which no other step comes does what `Compiler.compile` does.
-/

namespace LiveBuild

/-! ## Stages of the table -/

namespace Interleaving

/-- The compile is not in the compiler yet. -/
def Stage.isEarly : Stage → Bool
  | coming | carrying | waiting => true
  | _ => false

/-- The compile is not in the compiler any more. -/
def Stage.isLate : Stage → Bool
  | finished | left | ended => true
  | _ => false

theorem Stage.eq_inside {p : Stage} (hearly : p.isEarly = false) (hlate : p.isLate = false) :
    p = .inside := by
  revert hearly hlate
  cases p <;> decide

/-- No compile comes back to the table. -/
theorem Step.isEarly {work : ℕ → Option Schedule.Work} {drops : Prop} {s t : State}
    (h : Step work drops s t) {i : ℕ} (hi : (t.stage i).isEarly = true) :
    (s.stage i).isEarly = true := by
  have hgo {j : ℕ} {p : Stage} {locks : OutputLocks} (hj : (s.stage j).isEarly = true ∨
      p.isEarly = false) (hi : ((s.go j p locks).stage i).isEarly = true) :
      (s.stage i).isEarly = true := by
    by_cases hij : i = j
    · subst hij
      rw [State.go_stage] at hi
      exact hj.resolve_right (by rw [hi]; nofun)
    · rwa [State.go_stage_of_ne hij] at hi
  cases h with
  | take h | ask h => exact hgo (.inl (by rw [h]; rfl)) hi
  | reject | enter | enterFree | finish | leave | release | finishFree | drop =>
    exact hgo (.inr rfl) hi

end Interleaving

namespace Concurrent

open Compiler Interleaving

variable {ι σ : Type}

/-! ## States -/

/-- Concurrent compiles, which are numbered. -/
structure Setup (ι σ : Type) where
  toolchain : Toolchain ι σ
  /-- What a run of the compiler writes. -/
  emits : ℕ → List String → Files ι → Option (Content ι)
  /-- The time limit, in milliseconds. -/
  limit : Option ℕ
  request : ℕ → Request
  id : ℕ → BuildId
  /-- The host at the start. -/
  host : Host ι
  /-- A caller may drop a compile. -/
  drops : Prop

/-- The output path of each compile on disk. -/
def Setup.path? (S : Setup ι σ) (i : ℕ) : Option Path :=
  (S.request i).target?.toOption.bind (·.path?)

/-- What each compile needs of the table of locks. -/
def Setup.work (S : Setup ι σ) (i : ℕ) : Option Schedule.Work :=
  (S.request i).target?.toOption.map fun target =>
    ⟨Service.lockKey? S.host.files.current target, 0⟩

/-- A compile that was accepted. -/
structure Job (σ : Type) where
  params : Parameters
  source : Source
  point : Point σ
  /-- The time limit is over, or the caller dropped it. -/
  givenUp : Bool
  /-- Its compiler may have been running when it was given up, and what this has started goes on. -/
  stray : Bool

/-- A compile that is given up. -/
def Job.giveUp (job : Job σ) : Job σ := { job with givenUp := true, stray := job.point.isRunning }

/-- A request on its way. -/
inductive Status (σ : Type)
  | awaited
  | rejected (e : Rejection)
  | accepted (job : Job σ)

/-- The state of all compiles. -/
structure State (ι σ : Type) where
  lock : Interleaving.State
  host : Host ι
  status : ℕ → Status σ
  /-- What the compiler of each compile wrote. -/
  wrote : ℕ → Option (Content ι)
  /-- The compiles whose output a stray compiler wrote after their own compiler had written it, and
  before it was copied. -/
  spoiled : Set ℕ

/-- Nothing was done. -/
def Setup.start (S : Setup ι σ) : State ι σ :=
  ⟨.start, S.host, fun _ => .awaited, fun _ => none, ∅⟩

/-- The compile may leave the compiler. -/
def Job.IsSettled (job : Job σ) : Prop := (∃ a, job.point = .answered a) ∨ job.givenUp = true

/-- The table may go on: only accepted compiles come to it, and none leaves the compiler before its
time. -/
def State.Admits (s : State ι σ) (lock : Interleaving.State) : Prop :=
  ∀ i, lock.stage i ≠ s.lock.stage i → ∃ job, s.status i = .accepted job ∧
    ((lock.stage i).isLate → job.IsSettled)

/-! ## Steps -/

/-- The next operation of a compile. -/
def Setup.next (S : Setup ι σ) (i : ℕ) (job : Job σ) (h : Host ι) : Point σ × Host ι :=
  job.point.step S.toolchain (S.id i) job.params job.source h

/-- What is written by the next operation of a compile, if it is the run of its compiler, or was
written before. -/
def Setup.written (S : Setup ι σ) (i : ℕ) (job : Job σ) (h : Host ι) (before : Option (Content ι)) :
    Option (Content ι) :=
  match job.point with
  | .ready path =>
    S.emits h.starts.length (runArguments S.toolchain (S.id i) job.params path) h.files
  | _ => before

/-- One operation of a compile. -/
def State.work (S : Setup ι σ) (s : State ι σ) (i : ℕ) (job : Job σ) : State ι σ where
  lock := s.lock
  host := (S.next i job s.host).2
  status := Function.update s.status i (.accepted { job with point := (S.next i job s.host).1 })
  wrote := Function.update s.wrote i (S.written i job s.host (s.wrote i))
  spoiled := s.spoiled

/-- The compiles whose output is written, was not copied yet, and is in a region. -/
def State.exposed (S : Setup ι σ) (s : State ι σ) (region : Place → Prop) : Set ℕ :=
  {i | ∃ job q, s.status i = .accepted job ∧ job.point.isBuilt ∧
    s.host.files.locate? (output S.toolchain (S.id i) job.params.target) = .ok q ∧ region q}

/-- One step of one compile. -/
inductive Step (S : Setup ι σ) (s : State ι σ) : State ι σ → Prop
  | reject {i e} (hs : s.status i = .awaited)
    (hr : (S.request i).prepare s.host.files.pathExists = .error e) :
    Step S s { s with
      lock := s.lock.go i .ended
      status := Function.update s.status i (.rejected e) }
  | accept {i params source} (hs : s.status i = .awaited)
    (hr : (S.request i).prepare s.host.files.pathExists = .ok (params, source)) :
    Step S s { s with
      status := Function.update s.status i (.accepted ⟨params, source, .begin, false, false⟩) }
  /-- An action on the table of locks. -/
  | turn {lock} (h : Interleaving.Step S.work S.drops s.lock lock) (ha : s.Admits lock) :
    Step S s { s with lock }
  /-- An operation of a compile that has entered the compiler. The compiler itself is run only while
  the compile is there. -/
  | work {i job} (hs : s.status i = .accepted job) (hp : job.point.isFinal = false)
    (hstage : (s.lock.stage i).isEarly = false)
    (hrun : job.point.isReady → s.lock.stage i = .inside ∧ job.givenUp = false) :
    Step S s (s.work S i job)
  /-- The compiler is running, and changes its output. -/
  | scribble {i job files} (hs : s.status i = .accepted job) (hp : job.point.isRunning)
    (hrun : s.lock.stage i = .inside ∧ job.givenUp = false)
    (hfiles : Files.Changes
      (job.point.region S.toolchain (S.id i) job.params s.host.files) s.host.files files) :
    Step S s { s with host := { s.host with files } }
  /-- The time limit is over, or the caller drops the compile. -/
  | giveUp {i job} (hs : s.status i = .accepted job) (hup : job.givenUp = false)
    (hwhy : S.limit.isSome ∨ S.drops) :
    Step S s { s with status := Function.update s.status i (.accepted job.giveUp) }
  /-- What a killed compiler has started changes the output. -/
  | stray {i job files} (hs : s.status i = .accepted job) (hstray : job.stray = true)
    (hp : job.point.isRunning)
    (hfiles : Files.Changes
      (job.point.region S.toolchain (S.id i) job.params s.host.files) s.host.files files) :
    Step S s { s with
      host := { s.host with files }
      spoiled := s.spoiled ∪
        s.exposed S (job.point.region S.toolchain (S.id i) job.params s.host.files) }

/-- The states that can be reached. -/
inductive Reachable (S : Setup ι σ) : State ι σ → Prop
  | start : Reachable S S.start
  | step {s t} (hs : Reachable S s) (h : Step S s t) : Reachable S t

/-- One accepted compile goes on at the table. -/
theorem State.admits_go {s : State ι σ} {i : ℕ} {job : Job σ} {p : Stage} {locks : OutputLocks}
    (hi : s.status i = .accepted job) (hp : p.isLate → job.IsSettled) :
    s.Admits (s.lock.go i p locks) := by
  intro k hk
  by_cases hki : k = i
  · subst hki
    rw [Interleaving.State.go_stage]
    exact ⟨job, hi, hp⟩
  · exact absurd (Interleaving.State.go_stage_of_ne hki) hk

/-- Compiles stay in their directory, if the compiler does. -/
theorem Reachable.current {S : Setup ι σ} {s : State ι σ} (hs : Reachable S s)
    (ht : ∀ n args files, (S.toolchain.run n args files).2.current = files.current) :
    s.host.files.current = S.host.files.current := by
  induction hs with
  | start => rfl
  | step hs h ih =>
    rw [← ih]
    cases h with
    | reject | accept | turn | giveUp => rfl
    | work _ hp => exact (Point.moves_step hp).current ht
    | scribble _ _ _ hfiles | stray _ _ _ hfiles => exact hfiles.current

/-! ## Undisturbed compiles -/

section Undisturbed

variable {S : Setup ι σ} {s : State ι σ} {i : ℕ} {job : Job σ}

/-- From the point at which it stands, a compile may do what is left of it. -/
theorem Reachable.run_rest (hs : Reachable S s) (hjob : s.status i = .accepted job)
    (hstage : s.lock.stage i = .inside) (hup : job.givenUp = false) :
    ∃ r h w, (job.point.rest S.toolchain (S.id i) job.params job.source).run s.host = (r, h) ∧
      Reachable S ⟨s.lock, h, Function.update s.status i
        (.accepted { job with point := .ofAnswer r }), Function.update s.wrote i w, s.spoiled⟩ := by
  -- a step lowers the rank of the point
  induction hrank : job.point.rank using Nat.strong_induction_on generalizing s job with
  | _ n ih =>
    cases hfinal : job.point.isFinal with
    | true =>
      obtain ⟨r, hr, hpoint⟩ : ∃ r, (job.point.rest S.toolchain (S.id i) job.params
          job.source).run s.host = (r, s.host) ∧ job.point = .ofAnswer r :=
        Point.run_rest_of_isFinal hfinal s.host
      refine ⟨r, s.host, s.wrote i, hr, ?_⟩
      rw [← hpoint, ← hjob, Function.update_eq_self, Function.update_eq_self]
      exact hs
    | false =>
      have hmoves : Point.Moves S.toolchain (S.id i) job.params s.host job.point
          (S.next i job s.host).1 (S.next i job s.host).2 := Point.moves_step hfinal
      have hwork : Reachable S (s.work S i job) :=
        hs.step (.work hjob hfinal (by rw [hstage]; rfl) fun _ => ⟨hstage, hup⟩)
      have hnext : (s.work S i job).status i =
          .accepted { job with point := (S.next i job s.host).1 } := Function.update_self ..
      obtain ⟨r, h, w, hrun, hreach⟩ :=
        ih _ (hrank ▸ hmoves.rank_lt hfinal) hwork hnext hstage hup rfl
      refine ⟨r, h, w, ?_, ?_⟩
      · rw [Point.run_rest_step hfinal]
        exact hrun
      · simpa only [State.work, Function.update_idem] using hreach

/-- **A compile in which no other step comes does what `Compiler.compile` does.** -/
theorem Reachable.undisturbed {params : Parameters} {source : Source} (hs : Reachable S s)
    (hjob : s.status i = .accepted ⟨params, source, .begin, false, false⟩)
    (hstage : s.lock.stage i = .inside) :
    ∃ r h w, (Compiler.compile S.toolchain (S.id i) params source).run s.host = (r, h) ∧
      Reachable S ⟨s.lock, h, Function.update s.status i
        (.accepted ⟨params, source, .ofAnswer r, false, false⟩), Function.update s.wrote i w,
        s.spoiled⟩ :=
  hs.run_rest hjob hstage rfl

end Undisturbed

/-! ## Runs that can be computed -/

section Runs

variable {S : Setup ι σ} {s : State ι σ} {i : ℕ} {params : Parameters} {source : Source} {k : Path}

/-- A request is accepted, and its compile asks for a lock. -/
def State.ask (i : ℕ) (k : Path) (params : Parameters) (source : Source) (s : State ι σ) :
    State ι σ := { s with
  lock := ⟨(s.lock.locks.take i k).ask i, Function.update s.lock.stage i .waiting⟩
  status := Function.update s.status i (.accepted ⟨params, source, .begin, false, false⟩) }

/-- A compile gets its lock. -/
def State.enter (i : ℕ) (s : State ι σ) : State ι σ := { s with lock := s.lock.go i .inside }

/-- A compile leaves the table. -/
def State.exit (i : ℕ) (k : Path) (s : State ι σ) : State ι σ := { s with
  lock := ⟨(s.lock.locks.leave i).release k, Function.update s.lock.stage i .ended⟩ }

/-- The next operation of a compile that is in the compiler, if one is left. -/
def State.advance (S : Setup ι σ) (i : ℕ) (s : State ι σ) : State ι σ :=
  match s.status i with
  | .accepted job =>
    if s.lock.stage i = .inside ∧ job.givenUp = false ∧ job.point.isFinal = false then
      s.work S i job
    else s
  | _ => s

/-- The compile was accepted and may leave the compiler. -/
def Status.isSettled : Status σ → Bool
  | .accepted job => job.givenUp || match job.point with
    | .answered _ => true
    | _ => false
  | _ => false

theorem Status.exists_of_isSettled {status : Status σ} (h : status.isSettled = true) :
    ∃ job, status = .accepted job ∧ job.IsSettled := by
  cases status with
  | awaited | rejected => cases h
  | accepted job =>
    refine ⟨job, rfl, ?_⟩
    rw [isSettled, Bool.or_eq_true] at h
    refine h.symm.imp_left fun hpoint => ?_
    split at hpoint
    next a ha => exact ⟨a, ha⟩
    · cases hpoint

theorem Reachable.advance (hs : Reachable S s) (n : ℕ) :
    Reachable S ((State.advance S i)^[n] s) := by
  induction n with
  | zero => exact hs
  | succ n ih =>
    rw [Function.iterate_succ_apply', State.advance]
    split
    next job hjob =>
      split
      next hgo =>
        exact ih.step (.work hjob hgo.2.2 (by rw [hgo.1]; rfl) fun _ => ⟨hgo.1, hgo.2.1⟩)
      · exact ih
    · exact ih

theorem Reachable.ask (hs : Reachable S s) (hi : s.status i = .awaited)
    (hstage : s.lock.stage i = .coming)
    (hr : (S.request i).prepare s.host.files.pathExists = .ok (params, source))
    (hk : keyOf S.work i = some k) :
    Reachable S (s.ask i k params source) := by
  have haccepted := hs.step (.accept hi hr)
  have htaken := haccepted.step
    (.turn (.take hstage hk) (State.admits_go (Function.update_self ..) nofun))
  have hasked := htaken.step
    (.turn (.ask Interleaving.State.go_stage) (State.admits_go (Function.update_self ..) nofun))
  simpa only [State.ask, Interleaving.State.go, Function.update_idem] using hasked

theorem Reachable.enter (hs : Reachable S s) {job : Job σ} (hjob : s.status i = .accepted job)
    (hstage : s.lock.stage i = .waiting) {l : ℕ} (hl : s.lock.locks.lockOf? i = some l)
    (hnobody : ∀ j, (s.lock.stage j).holds = false) : Reachable S (s.enter i) :=
  hs.step (.turn (.enter hstage hl (Interleaving.State.free_of_not_holds hnobody l))
    (State.admits_go hjob nofun))

theorem Reachable.exit (hs : Reachable S s) (hsettled : (s.status i).isSettled = true)
    (hstage : s.lock.stage i = .inside) (hk : keyOf S.work i = some k) :
    Reachable S (s.exit i k) := by
  obtain ⟨job, hjob, hmay⟩ := Status.exists_of_isSettled hsettled
  have hfinished := hs.step (.turn (.finish hstage) (State.admits_go hjob fun _ => hmay))
  have hleft := hfinished.step
    (.turn (.leave Interleaving.State.go_stage hk) (State.admits_go hjob fun _ => hmay))
  have hended := hleft.step
    (.turn (.release Interleaving.State.go_stage hk) (State.admits_go hjob fun _ => hmay))
  simpa only [State.exit, Interleaving.State.go, Function.update_idem] using hended

end Runs

/-! ## Outcomes -/

end Concurrent

end LiveBuild
