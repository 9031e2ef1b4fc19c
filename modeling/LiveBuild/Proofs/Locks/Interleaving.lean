import LiveBuild.Locks.Schedule
import LiveBuild.Proofs.Locks.Table
import Mathlib.Data.Set.Subsingleton
import Mathlib.Logic.Function.Basic

/-!
# Interleavings of concurrent compiles

The schedule of `LiveBuild.Locks.Schedule` takes the steps of concurrent compiles in one order. Here
they are taken in every order: each action on the table of locks is a step of its own, and between
two steps of a compile any steps of the others may come. The compiler answers, or the time limit
passes, at any time; a lock is granted to any compile that waits for it while nobody holds it.

* `Step`: one step of one compile. If `drops` holds, the caller may also give up a compile that
  waits for its lock or is in the compiler; such a compile does not clean the table.
* `Reachable`: the states that can be reached from a service that nobody uses.
* `Tied`: the invariant. Every handle is on the lock that the table now has for the path of its
  compile, although entries are removed and made anew, and of the compiles on one path at most one
  holds the lock. It holds at the start and every step preserves it (`Tied.start`, `Tied.step`), so
  it holds in every reachable state (`Reachable.tied`).
-/

namespace LiveBuild.Interleaving

open Schedule (Work)

/-- Where a compile is between two of its steps. -/
inductive Stage
  /-- It did not look at the table yet. -/
  | coming
  /-- It has a handle on its lock. -/
  | carrying
  /-- It asked for its lock. -/
  | waiting
  /-- It is in the compiler. -/
  | inside
  /-- The compiler answered or was given up. -/
  | finished
  /-- It gave up its lock and its handle. -/
  | left
  /-- It is over. -/
  | ended
  deriving DecidableEq, Repr

/-- The compile holds its lock, if it needs one. -/
def Stage.holds : Stage → Bool
  | inside | finished => true
  | _ => false

/-- The compile has a handle on its lock, if it needs one. -/
def Stage.hasHandle : Stage → Bool
  | carrying | waiting | inside | finished => true
  | _ => false

theorem Stage.hasHandle_of_holds {p : Stage} (h : p.holds = true) : p.hasHandle = true := by
  cases p <;> first | rfl | cases h

/-- The table of locks and the stage of each compile. -/
structure State where
  locks : OutputLocks
  stage : ℕ → Stage

/-- Nobody has arrived. -/
def State.start : State := ⟨.empty, fun _ => .coming⟩

/-- A compile goes on to a stage, and leaves the table as `locks`. -/
def State.go (s : State) (i : ℕ) (p : Stage) (locks : OutputLocks := s.locks) : State :=
  ⟨locks, Function.update s.stage i p⟩

/-- The lock key of each compile, from the work of each. A compile that is rejected has no work, and
one that stays in memory has work without a key. -/
def keyOf (work : ℕ → Option Work) (i : ℕ) : Option Path := (work i).bind (·.key)

/-- One step of one compile. -/
inductive Step (work : ℕ → Option Work) (drops : Prop) (s : State) : State → Prop
  | reject {i} (h : s.stage i = .coming) (hw : work i = none) : Step work drops s (s.go i .ended)
  | take {i k} (h : s.stage i = .coming) (hk : keyOf work i = some k) :
    Step work drops s (s.go i .carrying (s.locks.take i k))
  | ask {i} (h : s.stage i = .carrying) : Step work drops s (s.go i .waiting (s.locks.ask i))
  | enter {i l} (h : s.stage i = .waiting) (hl : s.locks.lockOf? i = some l)
    (free : ∀ j, (s.stage j).holds → s.locks.lockOf? j ≠ some l) :
    Step work drops s (s.go i .inside)
  | enterFree {i w} (h : s.stage i = .coming) (hw : work i = some w) (hk : w.key = none) :
    Step work drops s (s.go i .inside)
  | finish {i} (h : s.stage i = .inside) : Step work drops s (s.go i .finished)
  | leave {i k} (h : s.stage i = .finished) (hk : keyOf work i = some k) :
    Step work drops s (s.go i .left (s.locks.leave i))
  | release {i k} (h : s.stage i = .left) (hk : keyOf work i = some k) :
    Step work drops s (s.go i .ended (s.locks.release k))
  | finishFree {i} (h : s.stage i = .finished) (hk : keyOf work i = none) :
    Step work drops s (s.go i .ended)
  | drop {i} (hd : drops) (h : s.stage i = .waiting ∨ s.stage i = .inside) :
    Step work drops s (s.go i .ended (s.locks.leave i))

/-- The states that can be reached from a service that nobody uses. -/
inductive Reachable (work : ℕ → Option Work) (drops : Prop) : State → Prop
  | start : Reachable work drops .start
  | step {s t} (hs : Reachable work drops s) (h : Step work drops s t) : Reachable work drops t

section

variable {s t : State} {i j : ℕ} {p : Stage} {locks : OutputLocks}

@[simp] theorem State.go_locks : (s.go i p locks).locks = locks := rfl

@[simp] theorem State.go_stage : (s.go i p locks).stage i = p := Function.update_self ..

theorem State.go_stage_of_ne (h : j ≠ i) : (s.go i p locks).stage j = s.stage j :=
  Function.update_of_ne h ..

/-- While nobody holds a lock, every lock is free. -/
theorem State.free_of_not_holds (h : ∀ j, (s.stage j).holds = false) (l : ℕ) :
    ∀ j, (s.stage j).holds → s.locks.lockOf? j ≠ some l := fun j hj => by simp [h j] at hj

end

/-! ## The invariant -/

variable {work : ℕ → Option Work} {drops : Prop} {s t : State} {i : ℕ} {k : Path} {p : Stage}
  {locks : OutputLocks}

/-- Every handle is on the lock in the table, and a lock is held by one compile at a time. -/
structure Tied (work : ℕ → Option Work) (s : State) : Prop where
  /-- A handle is on the lock that the table has for the path of its compile. -/
  lock : ∀ {i l}, (i, l) ∈ s.locks.handles → ∃ k, keyOf work i = some k ∧ s.locks.lock? k = some l
  /-- A compile whose stage says so has a handle. -/
  handle : ∀ {i k}, keyOf work i = some k → (s.stage i).hasHandle → ∃ l, (i, l) ∈ s.locks.handles
  /-- Two compiles on one path do not both hold a lock. -/
  alone : ∀ {i j k k'}, (s.stage i).holds → (s.stage j).holds → keyOf work i = some k →
    keyOf work j = some k' → k.same k' → i = j

namespace Tied

/-- A compile with a handle has the lock of its path. -/
theorem lockOf?_eq (h : Tied work s) (hk : keyOf work i = some k) (hi : (s.stage i).hasHandle) :
    s.locks.lockOf? i = s.locks.lock? k := by
  obtain ⟨l, hl⟩ := h.handle hk hi
  obtain ⟨l', hl'⟩ := OutputLocks.exists_lockOf? hl
  obtain ⟨k', hk', hlock⟩ := h.lock (OutputLocks.mem_handles_of_lockOf? hl')
  rw [hk, Option.some_inj] at hk'
  rw [hl', hk', hlock]

/-- What a compile that goes on to another stage has to show. -/
theorem go (h : Tied work s)
    (lock : ∀ {j l}, (j, l) ∈ locks.handles →
      ∃ k, keyOf work j = some k ∧ locks.lock? k = some l)
    (others : ∀ {j l}, j ≠ i → (j, l) ∈ s.locks.handles → (j, l) ∈ locks.handles)
    (handle : ∀ {k}, keyOf work i = some k → p.hasHandle → ∃ l, (i, l) ∈ locks.handles)
    (alone : ∀ {j k k'}, j ≠ i → p.holds → (s.stage j).holds → keyOf work i = some k →
      keyOf work j = some k' → k.same k' → False) :
    Tied work (s.go i p locks) where
  lock := lock
  handle {j k} hk hj := by
    by_cases hji : j = i
    · subst hji
      rw [State.go_stage] at hj
      exact handle hk hj
    · rw [State.go_stage_of_ne hji] at hj
      obtain ⟨l, hl⟩ := h.handle hk hj
      exact ⟨l, others hji hl⟩
  alone {j j' k k'} hj hj' hk hk' hsame := by
    by_cases hji : j = i <;> by_cases hji' : j' = i
    · rw [hji, hji']
    · subst hji
      rw [State.go_stage] at hj
      rw [State.go_stage_of_ne hji'] at hj'
      exact (alone hji' hj hj' hk hk' hsame).elim
    · subst hji'
      rw [State.go_stage_of_ne hji] at hj
      rw [State.go_stage] at hj'
      exact (alone hji hj' hj hk' hk (Path.same_symm hsame)).elim
    · rw [State.go_stage_of_ne hji] at hj
      rw [State.go_stage_of_ne hji'] at hj'
      exact h.alone hj hj' hk hk' hsame

theorem start : Tied work .start where
  lock h := by cases h
  handle _ h := by cases h
  alone h := by cases h

/-- A compile that goes on without touching the table, and whose new stage asks for no more than
its old one. -/
theorem go_of_le (h : Tied work s) (hh : p.hasHandle → (s.stage i).hasHandle)
    (hp : p.holds → (s.stage i).holds) : Tied work (s.go i p) :=
  h.go h.lock (fun _ hl => hl) (fun hk hi => h.handle hk (hh hi)) fun hne hi hj hk hk' hsame =>
    hne (h.alone (hp hi) hj hk hk' hsame).symm

theorem take (h : Tied work s) (hk : keyOf work i = some k) :
    Tied work (s.go i .carrying (s.locks.take i k)) := by
  obtain ⟨l, hl, hhandles⟩ := OutputLocks.lock?_take (s := s.locks) (i := i) (k := k)
  refine h.go ?_ ?_ ?_ ?_
  · intro j l' hj
    rcases OutputLocks.mem_handles_take hj with hj | ⟨rfl, hj⟩
    · obtain ⟨k', hk', hlock⟩ := h.lock hj
      exact ⟨k', hk', OutputLocks.lock?_take_of_eq_some hlock⟩
    · exact ⟨k, hk, hj⟩
  · intro j l' _ hj
    exact hhandles ▸ List.mem_append_left _ hj
  · exact fun _ _ => ⟨l, hhandles ▸ List.mem_append_right _ (List.mem_singleton_self _)⟩
  · intro j k₁ k₂ _ hi
    cases hi

theorem ask (h : Tied work s) (hi : s.stage i = .carrying) :
    Tied work (s.go i .waiting (s.locks.ask i)) := by
  refine h.go ?_ ?_ ?_ ?_
  · intro j l hj
    rw [OutputLocks.handles_ask] at hj
    simpa using h.lock hj
  · intro j l _ hj
    rwa [OutputLocks.handles_ask]
  · intro k hk _
    rw [OutputLocks.handles_ask]
    exact h.handle hk (by rw [hi]; rfl)
  · intro j k₁ k₂ _ hp
    cases hp

/-- The lock is granted while nobody holds it. A compile on the same path would hold this very
lock, since both have the lock that is in the table. -/
theorem enter {l : ℕ} (h : Tied work s) (hi : s.stage i = .waiting)
    (hl : s.locks.lockOf? i = some l)
    (free : ∀ j, (s.stage j).holds → s.locks.lockOf? j ≠ some l) :
    Tied work (s.go i .inside) := by
  refine h.go h.lock (fun _ hl => hl) (fun hk _ => h.handle hk (by rw [hi]; rfl)) ?_
  intro j k k' _ _ hj hk hk' hsame
  refine free j hj ?_
  calc s.locks.lockOf? j = s.locks.lock? k' := h.lockOf?_eq hk' (Stage.hasHandle_of_holds hj)
    _ = s.locks.lock? k := (OutputLocks.lock?_congr hsame).symm
    _ = s.locks.lockOf? i := (h.lockOf?_eq hk (by rw [hi]; rfl)).symm
    _ = some l := hl

/-- A compile gives up its handle, on its way to a stage without one. -/
theorem leave (h : Tied work s) (hp : p.hasHandle = false) :
    Tied work (s.go i p (s.locks.leave i)) := by
  refine h.go ?_ ?_ ?_ ?_
  · intro j l hj
    exact h.lock (OutputLocks.mem_handles_leave.1 hj).1
  · intro j l hne hj
    exact OutputLocks.mem_handles_leave.2 ⟨hj, hne⟩
  · intro k _ hi
    rw [hp] at hi
    cases hi
  · intro j k k' _ hi
    rw [Stage.hasHandle_of_holds hi] at hp
    cases hp

/-- The entry of a path is removed, or not. No handle is on a lock that is removed. -/
theorem release (h : Tied work s) : Tied work (s.go i .ended (s.locks.release k)) := by
  refine h.go ?_ ?_ ?_ ?_
  · intro j l hj
    rw [OutputLocks.handles_release] at hj
    obtain ⟨k', hk', hlock⟩ := h.lock hj
    exact ⟨k', hk', OutputLocks.lock?_release_of_mem hlock hj⟩
  · intro j l _ hj
    rwa [OutputLocks.handles_release]
  · intro k' _ hi
    cases hi
  · intro j k₁ k₂ _ hi
    cases hi

/-- **Every step of every compile preserves the invariant.** -/
theorem step (h : Tied work s) (hst : Step work drops s t) : Tied work t := by
  cases hst with
  | reject => exact h.go_of_le nofun nofun
  | take _ hk => exact h.take hk
  | ask hi => exact h.ask hi
  | enter hi hl free => exact h.enter hi hl free
  | @enterFree i w _ hw hk =>
    -- a compile that needs no lock is on no path
    have hno : ∀ {k}, keyOf work i ≠ some k := by simp [keyOf, hw, hk]
    exact h.go h.lock (fun _ hl => hl) (fun hk' _ => absurd hk' hno)
      fun _ _ _ hk' => absurd hk' hno
  | finish hi => exact h.go_of_le (fun _ => by rw [hi]; rfl) fun _ => by rw [hi]; rfl
  | leave => exact h.leave rfl
  | release => exact h.release
  | finishFree => exact h.go_of_le nofun nofun
  | drop => exact h.leave rfl

end Tied

theorem Reachable.tied (hs : Reachable work drops s) : Tied work s := by
  induction hs with
  | start => exact .start
  | step _ h ih => exact ih.step h

theorem Reachable.numbered (hs : Reachable work drops s) : s.locks.Numbered := by
  induction hs with
  | start => exact .empty
  | step _ h ih =>
    cases h with
    | take => exact ih.take _ _
    | ask => exact ih.ask _
    | leave | drop => exact ih.leave _
    | release => exact ih.release _
    | reject | enter | enterFree | finish | finishFree => exact ih

/-! ## Mutual exclusion -/

/-- **Of the compiles on one path, at most one is in the compiler**, in every state that any
interleaving reaches. -/
theorem inside_subsingleton (hs : Reachable work drops s) (k : Path) :
    {i | s.stage i = .inside ∧ ∃ key, keyOf work i = some key ∧ key.same k}.Subsingleton := by
  rintro i ⟨hi, key, hkey, hk⟩ j ⟨hj, key', hkey', hk'⟩
  refine hs.tied.alone (by rw [hi]; rfl) (by rw [hj]; rfl) hkey hkey' ?_
  exact Path.same_iff.2 ((Path.same_iff.1 hk).trans (Path.same_iff.1 hk').symm)

/-- Compiles 0 and 2 write one path under two spellings, and compile 1 writes another path. -/
def threeCompiles : ℕ → Option Work
  | 0 => some ⟨some ⟨"/out.so"⟩, 5⟩
  | 1 => some ⟨some ⟨"/other.so"⟩, 5⟩
  | 2 => some ⟨some ⟨"/./out.so"⟩, 5⟩
  | _ => none

/-- Compile 2 took its handle while compile 0 was in the compiler, asked after compile 0 had left
and cleaned the table, and is in the compiler now together with compile 1. -/
theorem inside_subsingleton_threeCompiles :
    ∃ s, Reachable threeCompiles False s ∧ s.stage 1 = .inside ∧ s.stage 2 = .inside ∧
      {i | s.stage i = .inside ∧
        ∃ key, keyOf threeCompiles i = some key ∧ key.same ⟨"/out.so/"⟩}.Subsingleton := by
  have h₁ : Reachable threeCompiles False _ := Reachable.start.step (.take (i := 0) rfl rfl)
  have h₂ := h₁.step (.ask (i := 0) rfl)
  have h₃ := h₂.step (.enter (i := 0) rfl rfl
    (State.free_of_not_holds (by rintro (_ | j) <;> rfl) 0))
  have h₄ := h₃.step (.take (i := 2) rfl rfl)
  have h₅ := h₄.step (.finish (i := 0) rfl)
  have h₆ := h₅.step (.leave (i := 0) rfl rfl)
  have h₇ := h₆.step (.release (i := 0) rfl rfl)
  have h₈ := h₇.step (.ask (i := 2) rfl)
  have h₉ := h₈.step (.take (i := 1) rfl rfl)
  have h₁₀ := h₉.step (.ask (i := 1) rfl)
  have h₁₁ := h₁₀.step (.enter (i := 2) rfl rfl
    (State.free_of_not_holds (by rintro (_ | _ | _ | j) <;> rfl) 0))
  have h₁₂ := h₁₁.step (.enter (i := 1) (l := 1) rfl rfl (by
    rintro (_ | _ | _ | j) hj
    · cases hj
    · cases hj
    · decide
    · cases hj))
  exact ⟨_, h₁₂, rfl, rfl, inside_subsingleton h₁₂ _⟩

end LiveBuild.Interleaving
