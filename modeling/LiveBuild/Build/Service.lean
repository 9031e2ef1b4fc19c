import LiveBuild.Build.Outcome
import LiveBuild.Locks.Schedule

/-!
# The build service

The service takes requests, hands those that it accepts to a compiler, and settles what comes back.
All that its compiles share is the table of output locks.

* `Service.handle`: the outcome of a request, with any compiler that may be asked;
* `Service.lockKey?`: the lock that a compile needs;
* `Service.settle`: the outcome of a request from the compiler's answer;
* `Service.runTasks`: a list of tasks with a compiler that answers each of them after a delay.
-/

namespace LiveBuild

/-- The lock key of an output path. -/
def Path.lockKey (p cwd : Path) : Path := p.absolute cwd

namespace Service

/-- The lock that a compile with the given target needs. -/
def lockKey? (cwd : Path) (target : Target) : Option Path := target.path?.map (·.lockKey cwd)

variable {α : Type}

/-- A compiler: it is asked with parameters and a source, and answers with a report or a fault. -/
abbrev Backend (m : Type → Type) (α : Type) := Parameters → Source → m (Except Fault (Report α))

/-- The outcome of a request. The compiler is asked only if the request is accepted. -/
def handle {m : Type → Type} [Monad m] (fileExists : Path → Bool) (r : Request)
    (ask : Backend m α) : m (Outcome α) :=
  match r.prepare fileExists with
  | .error e => pure (.aborted (.rejected e))
  | .ok (params, source) => Outcome.ofAnswer r.mode params.target <$> ask params source

/-- The outcome of a request from what the compiler answers. -/
def settle (fileExists : Path → Bool) (r : Request) (compile : Backend Id α) : Outcome α :=
  (handle fileExists r compile).run

/-- A request, what the compiler answers after which delay, and in how many turns the service looks
for the source file. -/
structure Task (α : Type) where
  request : Request
  answer : Except Fault (Report α)
  delay : Nat
  arrival : Nat
  looks : Nat

namespace Task

/-- The job that a task is on the schedule. -/
def job (cwd : Path) (fileExists : Path → Bool) (t : Task α) : Schedule.Job where
  arrival := t.arrival
  looks := if t.request.looksForFile then t.looks else 0
  work := match t.request.prepare fileExists with
    | .error _ => none
    | .ok (params, _) => some ⟨lockKey? cwd params.target, t.delay⟩

/-- The answer of a compile that ended in the given way. -/
def answerOf (limit : Option Nat) (t : Task α) : Schedule.Ending → Except Fault (Report α)
  | .timedOut => .error (.timedOut (limit.getD 0))
  | _ => t.answer

/-- The outcome of a task whose compile ended in the given way. -/
def outcomeOf (fileExists : Path → Bool) (limit : Option Nat) (t : Task α)
    (ending : Schedule.Ending) : Outcome α :=
  settle fileExists t.request fun _ _ => t.answerOf limit ending

end Task

/-- The state at the end of a list of tasks, which run concurrently or one after the other. -/
def runTasks (cwd : Path) (fileExists : Path → Bool) (limit : Option Nat) (concurrent : Bool)
    (tasks : List (Task α)) : Schedule.State :=
  let jobs := tasks.map (·.job cwd fileExists)
  if concurrent then Schedule.run limit jobs else Schedule.runInTurn limit jobs

/-- The outcomes of a list of tasks, each with the time at which it was over. -/
def outcomes (fileExists : Path → Bool) (limit : Option Nat) (tasks : List (Task α))
    (s : Schedule.State) : List (Nat × Outcome α) :=
  tasks.mapIdx fun i t =>
    let (left, ending) := s.result i
    (left, t.outcomeOf fileExists limit ending)

end Service

end LiveBuild
