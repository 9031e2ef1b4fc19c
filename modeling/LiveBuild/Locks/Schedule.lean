import LiveBuild.Locks.Table

/-!
# The schedule of concurrent compiles

Compiles run on a clock of milliseconds. Each arrives at its time and looks for its source file, if
it has one; one that writes a path then asks for the lock of the path and waits for it, enters the
compiler, and leaves it when the compiler answers or when the time limit is over, whichever comes
first. The time limit counts from the entry, and an answer that comes exactly at the limit still
counts.

Work is done in turns. At one time, those whose turn it is run in the order of their numbers, and
one that becomes ready meanwhile runs in the same round if its number is still to come. Only when
nobody is ready does the clock move on. To look for a source file takes a compile some turns but no
time: others that arrive at the same time may ask for their lock before it does.

* `Schedule.State.turn`: what one compile does in its turn;
* `Schedule.State.step?`: the next turn, or the next time;
* `Schedule.run`: all turns of a list of jobs.
-/

namespace LiveBuild.Schedule

/-- What a compile does once it is accepted. -/
structure Work where
  /-- The lock that it needs. -/
  key : Option Path
  /-- The time that the compiler takes. -/
  delay : Nat
  deriving DecidableEq, Repr

/-- A compile: when it arrives, in how many turns it looks for its source file, and what it does
then; one without work is rejected. -/
structure Job where
  arrival : Nat
  looks : Nat
  work : Option Work
  deriving DecidableEq, Repr

/-- How a compile ended. -/
inductive Ending
  | rejected
  | answered
  | timedOut
  deriving DecidableEq, Repr

/-- Where a compile is. -/
inductive Phase
  /-- It arrives later, or it arrived just now; it has to look for its source file in so many more
  turns before it asks for its lock. -/
  | coming (arrival looks : Nat)
  /-- It asked for its lock. -/
  | waiting
  /-- It is in the compiler. -/
  | inside (entered wakes : Nat)
  /-- It is over. -/
  | ended (left : Nat) (ending : Ending)
  deriving DecidableEq, Repr

/-- The number of turns that a compile has left at most. -/
def Phase.turns : Phase → Nat
  | coming _ looks => looks + 3
  | waiting => 2
  | inside _ _ => 1
  | ended _ _ => 0

/-- What can be observed of a compiler. -/
inductive EventKind
  | enter
  | leave
  | dropped
  deriving DecidableEq, Repr

/-- The name of a kind of events. -/
def EventKind.name : EventKind → String
  | enter => "enter"
  | leave => "leave"
  | dropped => "dropped"

/-- An event: when, which compile, what, and which paths are in use at that moment. -/
structure Event where
  time : Nat
  task : Nat
  kind : EventKind
  keys : List Path
  deriving DecidableEq, Repr

/-- The time that a compile spends in the compiler. -/
def hold (limit : Option Nat) (delay : Nat) : Nat :=
  match limit with
  | some l => min delay l
  | none => delay

/-- The state of a run. -/
structure State where
  now : Nat
  locks : OutputLocks
  /-- The phase of each compile, by its number. -/
  phases : List Phase
  /-- The number with which the round goes on. -/
  cursor : Nat
  events : List Event
  deriving DecidableEq, Repr

namespace State

/-- The phase of a compile; there is nothing to do for one that does not exist. -/
def phase (s : State) (task : Nat) : Phase := s.phases[task]?.getD (.ended 0 .rejected)

/-- Moves a compile to a phase. -/
def move (s : State) (task : Nat) (p : Phase) : State :=
  { s with phases := s.phases.set task p }

/-- Records an event. -/
def record (s : State) (task : Nat) (kind : EventKind) : State :=
  { s with events := s.events ++ [⟨s.now, task, kind, s.locks.keys⟩] }

/-- It is the turn of a compile. -/
def isReady (s : State) (task : Nat) : Bool :=
  match s.phase task with
  | .coming arrival _ => arrival ≤ s.now
  | .waiting => s.locks.owns task
  | .inside _ wakes => wakes ≤ s.now
  | .ended _ _ => false

/-! ## Turns -/

/-- A compile leaves the compiler: the answer counts if it came by now. It then gives up its lock
and cleans the table. -/
def leave (s : State) (task : Nat) (w : Work) (entered : Nat) : State :=
  let ending := if entered + w.delay ≤ s.now then .answered else .timedOut
  let s := s.record task (if ending = .answered then .leave else .dropped)
  let locks := match w.key with
    | some key => (s.locks.leave task).release key
    | none => s.locks
  { s with locks }.move task (.ended s.now ending)

/-- A compile enters the compiler, and leaves it at once if it stays there for no time. -/
def enter (limit : Option Nat) (s : State) (task : Nat) (w : Work) : State :=
  let s := s.record task .enter
  if hold limit w.delay = 0 then s.leave task w s.now
  else s.move task (.inside s.now (s.now + hold limit w.delay))

/-- A compile knows its source: it asks for its lock, and enters the compiler if it needs none or
owns it at once. -/
def proceed (limit : Option Nat) (s : State) (task : Nat) : Option Work → State
  | none => s.move task (.ended s.now .rejected)
  | some w => match w.key with
    | none => s.enter limit task w
    | some key =>
      let s := { s with locks := (s.locks.take task key).ask task }
      if s.locks.owns task then s.enter limit task w else s.move task .waiting

/-- What a compile does in its turn. -/
def turn (limit : Option Nat) (s : State) (task : Nat) (job : Job) : State :=
  match s.phase task, job.work with
  | .coming arrival (looks + 1), _ => s.move task (.coming arrival looks)
  | .coming _ 0, work => s.proceed limit task work
  | .waiting, some w => s.enter limit task w
  | .inside entered _, some w => s.leave task w entered
  | _, _ => s

/-! ## Runs -/

/-- The compile whose turn is next: the round goes on from the cursor, and then starts again. -/
def next? (s : State) : Option Nat :=
  let ready := (List.range s.phases.length).filter s.isReady
  ready.find? (s.cursor ≤ ·) <|> ready.head?

/-- The times at which a compile that sleeps wakes up. -/
def wakeTimes (s : State) : List Nat :=
  s.phases.filterMap fun
    | .coming arrival _ => some arrival
    | .inside _ wakes => some wakes
    | _ => none

/-- The next turn, or else the next time; none when all compiles are over. -/
def step? (limit : Option Nat) (jobs : List Job) (s : State) : Option State :=
  match s.next? with
  | some task => match jobs[task]? with
    | some job => some ({ s with cursor := task + 1 }.turn limit task job)
    | none => none
  | none => s.wakeTimes.min?.map fun time => { s with now := time, cursor := 0 }

/-- At most `fuel` steps. -/
def steps (limit : Option Nat) (jobs : List Job) : Nat → State → State
  | 0, s => s
  | fuel + 1, s => match s.step? limit jobs with
    | some t => steps limit jobs fuel t
    | none => s

/-- The number of turns that all compiles have left at most. -/
def turnsLeft (s : State) : Nat := s.phases.foldr (fun p n => p.turns + n) 0

/-- The state before anybody arrives. -/
def start (now : Nat) (locks : OutputLocks) (jobs : List Job) : State :=
  ⟨now, locks, jobs.map fun j => .coming j.arrival j.looks, 0, []⟩

/-- The time at which a compile was over, and how it ended. -/
def result (s : State) (task : Nat) : Nat × Ending :=
  match s.phase task with
  | .ended left ending => (left, ending)
  | _ => (s.now, .rejected)

end State

/-- All turns of a list of jobs. The clock moves only before a turn, so twice as many steps as there
are turns suffice. -/
def runFrom (limit : Option Nat) (now : Nat) (locks : OutputLocks) (jobs : List Job) : State :=
  (State.start now locks jobs).steps limit jobs (2 * (State.start now locks jobs).turnsLeft)

/-- All turns of a list of jobs, from time zero on. -/
def run (limit : Option Nat) (jobs : List Job) : State := runFrom limit 0 .empty jobs

/-- The jobs one after the other, each one arriving when the one before it is over. -/
def runInTurn (limit : Option Nat) (jobs : List Job) : State :=
  let one (s : State) (job : Job) : State :=
    let job := { job with arrival := s.now }
    let t := runFrom limit s.now s.locks [job]
    let task := s.phases.length
    { t with
      phases := s.phases ++ t.phases
      events := s.events ++ t.events.map fun e => { e with task } }
  jobs.foldl one (State.start 0 .empty [])

end LiveBuild.Schedule
