import LiveBuild.Path

/-!
# Output locks

Compiles that write the same path take turns. A table gives each path that is in use a lock; paths
with the same components share one. A compile takes a handle on the lock of its path, which makes
the entry if there is none, asks for the lock, and owns it once nobody who asked before it is left.
When it leaves, it gives up the lock and the handle, and after that it removes the entry, unless
somebody else has a handle on that lock.

Locks are numbered, and a number is never used again: an entry that was removed and made anew holds
another lock. The four steps `take`, `ask`, `leave` and `release` are the atomic actions; steps of
different compiles may come in any order.
-/

namespace LiveBuild

/-- The locks of the output paths that are in use. Compiles are numbered. -/
structure OutputLocks where
  /-- The lock of each path; a path is kept as it was spelled when the entry was made. -/
  table : List (Path × Nat)
  /-- The number of the next new lock. -/
  next : Nat
  /-- The compiles that have a handle, each with its lock. -/
  handles : List (Nat × Nat)
  /-- The compiles that asked for their lock and did not leave, in the order of asking. -/
  queue : List (Nat × Nat)
  deriving DecidableEq, Repr

namespace OutputLocks

/-- Nothing is in use. -/
def empty : OutputLocks := ⟨[], 0, [], []⟩

/-- The lock of a path. -/
def lock? (s : OutputLocks) (key : Path) : Option Nat :=
  (s.table.find? (·.1.same key)).map (·.2)

/-- The lock on which a compile has a handle. -/
def lockOf? (s : OutputLocks) (task : Nat) : Option Nat :=
  (s.handles.find? (·.1 == task)).map (·.2)

/-- A compile takes a handle on the lock of a path, and makes the entry if there is none. -/
def take (s : OutputLocks) (task : Nat) (key : Path) : OutputLocks :=
  match s.lock? key with
  | some l => { s with handles := s.handles ++ [(task, l)] }
  | none => { s with
      table := s.table ++ [(key, s.next)]
      next := s.next + 1
      handles := s.handles ++ [(task, s.next)] }

/-- A compile asks for the lock on which it has a handle. -/
def ask (s : OutputLocks) (task : Nat) : OutputLocks :=
  match s.lockOf? task with
  | some l => { s with queue := s.queue ++ [(task, l)] }
  | none => s

/-- The owner of a lock: of those who asked and did not leave, the one who asked first. -/
def owner? (s : OutputLocks) (lock : Nat) : Option Nat :=
  (s.queue.find? (·.2 == lock)).map (·.1)

/-- A compile owns its lock. -/
def owns (s : OutputLocks) (task : Nat) : Bool :=
  match s.lockOf? task with
  | some l => s.owner? l == some task
  | none => false

/-- A compile gives up its lock, or its place in the queue, and its handle. -/
def leave (s : OutputLocks) (task : Nat) : OutputLocks :=
  { s with
    handles := s.handles.filter (·.1 != task)
    queue := s.queue.filter (·.1 != task) }

/-- The entry of a path is removed unless somebody has a handle on its lock. -/
def release (s : OutputLocks) (key : Path) : OutputLocks :=
  match s.lock? key with
  | some l =>
    if s.handles.any (·.2 == l) then s
    else { s with table := s.table.filter fun e => !e.1.same key }
  | none => s

/-- Puts a path into an ascending list of paths. -/
def insertKey (key : Path) : List Path → List Path
  | [] => [key]
  | k :: rest => if key.spelling < k.spelling then key :: k :: rest else k :: insertKey key rest

/-- The paths that are in use, in ascending order of their spellings. -/
def keys (s : OutputLocks) : List Path := s.table.foldr (fun e => insertKey e.1) []

end OutputLocks

end LiveBuild
