import LiveBuild.Proofs.Locks.Cleanup
import Mathlib.Data.Set.Insert

/-!
# Compiles that are given up

The caller may give up a compile at any point where it waits: for its lock, or for the compiler. It
then loses its lock, or its place in the queue, and its handle, but the release that would clean the
table is not run. So an entry may stay in the table although nobody uses it.

* `exists_abandoned_entry`: a compile that is given up leaves its entry;
* `Reaches`: the states that can be reached, each with the compiles that were given up on the way;
* `State.sweepers`: the same state, if a compile that was given up counts as one that left and did
  not release yet. Giving up a compile is then an ordinary leave, every other step remains what it
  is (`Step.sweepers`), and the invariant `Swept` carries over to runs with abandoned compiles
  (`Reaches.swept`);
* `table_abandoned`: an entry in the table has a compile on its path that is under way or was given
  up, and the next compile that releases the path while nobody has a handle removes the entry.
-/

namespace LiveBuild.Interleaving

open Schedule (Work)

variable {work : ℕ → Option Work} {s t : State} {i j : ℕ} {k : Path} {p : Stage}
  {locks : OutputLocks} {given : Set ℕ}

/-- **A compile that is given up leaves its entry.** Compile 0 is given up in the compiler, nobody
else has arrived, and its path still has a lock. -/
theorem exists_abandoned_entry :
    ∃ s, Reachable threeCompiles True s ∧ (∀ i, (s.stage i).isUnderWay = false) ∧
      s.locks.handles = [] ∧ s.locks.lock? ⟨"/out.so"⟩ = some 0 := by
  have h₁ : Reachable threeCompiles True _ := Reachable.start.step (.take (i := 0) rfl rfl)
  have h₂ := h₁.step (.ask (i := 0) rfl)
  have h₃ := h₂.step (.enter (i := 0) rfl rfl
    (State.free_of_not_holds (by rintro (_ | j) <;> rfl) 0))
  have h₄ := h₃.step (.drop (i := 0) trivial (.inr rfl))
  exact ⟨_, h₄, by rintro (_ | j) <;> rfl, rfl, by decide⟩

/-! ## Runs with abandoned compiles -/

/-- The states that can be reached, each with the compiles that were given up on the way. -/
inductive Reaches (work : ℕ → Option Work) : Set ℕ → State → Prop
  | start : Reaches work ∅ .start
  | step {given : Set ℕ} {s t : State} (hs : Reaches work given s) (h : Step work False s t) :
    Reaches work given t
  | drop {given : Set ℕ} {s : State} {i : ℕ} (hs : Reaches work given s)
    (h : s.stage i = .waiting ∨ s.stage i = .inside) :
    Reaches work (insert i given) (s.go i .ended (s.locks.leave i))

theorem Step.mono {drops drops' : Prop} (h : drops → drops') (hst : Step work drops s t) :
    Step work drops' s t := by
  cases hst with
  | reject hi hw => exact .reject hi hw
  | take hi hk => exact .take hi hk
  | ask hi => exact .ask hi
  | enter hi hl free => exact .enter hi hl free
  | enterFree hi hw hk => exact .enterFree hi hw hk
  | finish hi => exact .finish hi
  | leave hi hk => exact .leave hi hk
  | release hi hk => exact .release hi hk
  | finishFree hi hk => exact .finishFree hi hk
  | drop hd hi => exact .drop (h hd) hi

theorem Reaches.reachable (hs : Reaches work given s) : Reachable work True s := by
  induction hs with
  | start => exact .start
  | step _ h ih => exact ih.step (h.mono False.elim)
  | drop _ h ih => exact ih.step (.drop trivial h)

/-- Every state that can be reached while compiles may be given up is reached with some set of
them. -/
theorem Reachable.exists_reaches (hs : Reachable work True s) : ∃ given, Reaches work given s := by
  induction hs with
  | start => exact ⟨∅, .start⟩
  | step _ h ih =>
    obtain ⟨given, hs⟩ := ih
    cases h with
    | drop _ hi => exact ⟨_, hs.drop hi⟩
    | reject hi hw => exact ⟨_, hs.step (.reject hi hw)⟩
    | take hi hk => exact ⟨_, hs.step (.take hi hk)⟩
    | ask hi => exact ⟨_, hs.step (.ask hi)⟩
    | enter hi hl free => exact ⟨_, hs.step (.enter hi hl free)⟩
    | enterFree hi hw hk => exact ⟨_, hs.step (.enterFree hi hw hk)⟩
    | finish hi => exact ⟨_, hs.step (.finish hi)⟩
    | leave hi hk => exact ⟨_, hs.step (.leave hi hk)⟩
    | release hi hk => exact ⟨_, hs.step (.release hi hk)⟩
    | finishFree hi hk => exact ⟨_, hs.step (.finishFree hi hk)⟩

/-- A compile that ended takes no step any more. -/
theorem Step.stage_of_ended (h : Step work False s t) (hj : s.stage j = .ended) :
    t.stage j = .ended := by
  have stays {i p locks} (hi : s.stage i ≠ .ended) : (s.go i p locks).stage j = .ended := by
    rw [State.go_stage_of_ne (by rintro rfl; exact hi hj), hj]
  cases h with
  | drop hd => exact hd.elim
  | reject hi | take hi | ask hi | enter hi | enterFree hi | finish hi | leave hi | release hi
  | finishFree hi => exact stays (by simp [hi])

theorem Reaches.ended (hs : Reaches work given s) : ∀ i ∈ given, s.stage i = .ended := by
  induction hs with
  | start => simp
  | step _ h ih => exact fun i hi => h.stage_of_ended (ih i hi)
  | @drop _ _ j _ _ ih =>
    rintro i (rfl | hi)
    · exact State.go_stage
    · by_cases hij : i = j
      · exact hij ▸ State.go_stage
      · rw [State.go_stage_of_ne hij, ih i hi]

/-! ## Compiles that were given up as compiles that did not release yet -/

open Classical in
/-- The state in which a compile that was given up left, and did not release yet. -/
noncomputable def State.sweepers (given : Set ℕ) (s : State) : State :=
  ⟨s.locks, fun i => if i ∈ given then .left else s.stage i⟩

namespace State

@[simp] theorem sweepers_locks : (s.sweepers given).locks = s.locks := rfl

theorem sweepers_stage_of_mem (h : i ∈ given) : (s.sweepers given).stage i = .left := if_pos h

theorem sweepers_stage_of_notMem (h : i ∉ given) : (s.sweepers given).stage i = s.stage i :=
  if_neg h

/-- Two states are the same if their tables and all their stages are. -/
theorem ext (hlocks : s.locks = t.locks) (hstage : ∀ j, s.stage j = t.stage j) : s = t := by
  obtain ⟨locks, stage⟩ := s
  obtain rfl : locks = t.locks := hlocks
  obtain rfl : stage = t.stage := funext hstage
  rfl

theorem sweepers_go (h : i ∉ given) :
    (s.go i p locks).sweepers given = (s.sweepers given).go i p locks := by
  refine State.ext rfl fun j => ?_
  by_cases hji : j = i
  · subst hji
    rw [sweepers_stage_of_notMem h, go_stage, go_stage]
  · rw [go_stage_of_ne hji]
    by_cases hj : j ∈ given
    · rw [sweepers_stage_of_mem hj, sweepers_stage_of_mem hj]
    · rw [sweepers_stage_of_notMem hj, sweepers_stage_of_notMem hj, go_stage_of_ne hji]

/-- A compile that is given up leaves, and remains to release. -/
theorem sweepers_insert :
    (s.go i .ended locks).sweepers (insert i given) = (s.sweepers given).go i .left locks := by
  refine State.ext rfl fun j => ?_
  by_cases hji : j = i
  · subst hji
    rw [sweepers_stage_of_mem (Set.mem_insert j given), go_stage]
  · rw [go_stage_of_ne hji]
    by_cases hj : j ∈ given
    · rw [sweepers_stage_of_mem (Set.mem_insert_of_mem i hj), sweepers_stage_of_mem hj]
    · have hj' : j ∉ insert i given := fun h => hj (h.resolve_left hji)
      rw [sweepers_stage_of_notMem hj', sweepers_stage_of_notMem hj, go_stage_of_ne hji]

/-- Who has a handle, or holds a lock, was not given up. -/
theorem eq_of_sweepers_stage (h : (s.sweepers given).stage i ≠ .left) :
    (s.sweepers given).stage i = s.stage i :=
  sweepers_stage_of_notMem fun hi => h (sweepers_stage_of_mem hi)

theorem holds_of_sweepers (h : ((s.sweepers given).stage i).holds = true) :
    (s.stage i).holds = true := by
  rwa [← eq_of_sweepers_stage fun hleft => by rw [hleft] at h; cases h]

theorem hasHandle_of_sweepers (h : ((s.sweepers given).stage i).hasHandle = true) :
    (s.stage i).hasHandle = true := by
  rwa [← eq_of_sweepers_stage fun hleft => by rw [hleft] at h; cases h]

end State

theorem Tied.sweepers (h : Tied work s) : Tied work (s.sweepers given) where
  lock := h.lock
  handle hk hi := h.handle hk (State.hasHandle_of_sweepers hi)
  alone hi hj := h.alone (State.holds_of_sweepers hi) (State.holds_of_sweepers hj)

/-- A step of a compile is the same step if the compiles that were given up did not release yet:
the one that takes it is none of them. -/
theorem Step.sweepers (h : Step work False s t) (hgiven : ∀ i ∈ given, s.stage i = .ended) :
    Step work False (s.sweepers given) (t.sweepers given) := by
  have hne {i} (hi : s.stage i ≠ .ended) : i ∉ given := fun hmem => hi (hgiven i hmem)
  have hst {i p} (hi : s.stage i = p) (hp : p ≠ .ended) : (s.sweepers given).stage i = p := by
    rw [State.sweepers_stage_of_notMem (hne (hi ▸ hp)), hi]
  cases h with
  | drop hd => exact hd.elim
  | reject hi hw =>
    rw [State.sweepers_go (hne (by simp [hi]))]
    exact .reject (hst hi (by simp)) hw
  | take hi hk =>
    rw [State.sweepers_go (hne (by simp [hi]))]
    exact .take (hst hi (by simp)) hk
  | ask hi =>
    rw [State.sweepers_go (hne (by simp [hi]))]
    exact .ask (hst hi (by simp))
  | enter hi hl free =>
    rw [State.sweepers_go (hne (by simp [hi]))]
    exact .enter (hst hi (by simp)) hl fun j hj => free j (State.holds_of_sweepers hj)
  | enterFree hi hw hk =>
    rw [State.sweepers_go (hne (by simp [hi]))]
    exact .enterFree (hst hi (by simp)) hw hk
  | finish hi =>
    rw [State.sweepers_go (hne (by simp [hi]))]
    exact .finish (hst hi (by simp))
  | leave hi hk =>
    rw [State.sweepers_go (hne (by simp [hi]))]
    exact .leave (hst hi (by simp)) hk
  | release hi hk =>
    rw [State.sweepers_go (hne (by simp [hi]))]
    exact .release (hst hi (by simp)) hk
  | finishFree hi hk =>
    rw [State.sweepers_go (hne (by simp [hi]))]
    exact .finishFree (hst hi (by simp)) hk

theorem Reaches.swept (hs : Reaches work given s) : Swept work (s.sweepers given) := by
  induction hs with
  | start =>
    have hstart : State.start.sweepers ∅ = .start :=
      State.ext rfl fun i => State.sweepers_stage_of_notMem (Set.notMem_empty i)
    rw [hstart]
    exact .start
  | step hs h ih =>
    exact ih.step hs.reachable.tied.sweepers hs.reachable.numbered (h.sweepers hs.ended)
  | drop _ _ ih =>
    rw [State.sweepers_insert]
    exact ih.leave

/-! ## What the table holds -/

/-- **Who is given up may leave an entry, and nobody else does.** In every state that any
interleaving reaches, every entry has a compile on its path that is under way or was given up; and
when a compile releases its path while nobody on that path has a handle, the path has no entry after
that, whoever was given up before. -/
theorem table_abandoned (hs : Reaches work given s) :
    (∀ k l, s.locks.lock? k = some l → ∃ i key, keyOf work i = some key ∧ key.same k = true ∧
      ((s.stage i).isUnderWay = true ∨ i ∈ given)) ∧
    (∀ k, (∀ i key, keyOf work i = some key → key.same k = true →
      (s.stage i).hasHandle = false) → (s.locks.release k).lock? k = none) := by
  refine ⟨fun k l hl => ?_, fun k hidle => ?_⟩
  · obtain ⟨i, key, hkey, hsame, hi⟩ := hs.swept.user (s := s.sweepers given) hl
    refine ⟨i, key, hkey, hsame, ?_⟩
    by_cases hmem : i ∈ given
    · exact .inr hmem
    · rw [State.sweepers_stage_of_notMem hmem] at hi
      exact .inl hi
  · cases hl : (s.locks.release k).lock? k with
    | none => rfl
    | some l =>
      obtain ⟨hk, hheld⟩ := OutputLocks.lock?_of_lock?_release hl
      obtain ⟨j, hj⟩ := hheld (Path.same_iff.2 rfl)
      obtain ⟨key, hkey, hlock⟩ := hs.reachable.tied.lock hj
      have hsame := hs.reachable.numbered.same_of_lock? hlock hk
      have hhandle := State.hasHandle_of_sweepers (hs.swept.handle (s := s.sweepers given) hj)
      rw [hidle j key hkey hsame] at hhandle
      cases hhandle

/-- Compile 0 is given up in the compiler and leaves its entry. Compile 2 takes over the lock in it,
and its release cleans the table. -/
theorem table_abandoned_threeCompiles :
    ∃ s t, Reaches threeCompiles {0} s ∧ Reaches threeCompiles {0} t ∧
      s.locks.lock? ⟨"/out.so"⟩ = some 0 ∧ (∀ i, (s.stage i).isUnderWay = false) ∧
      (∃ i key, keyOf threeCompiles i = some key ∧ key.same ⟨"/out.so"⟩ = true ∧
        ((s.stage i).isUnderWay = true ∨ i ∈ ({0} : Set ℕ))) ∧
      t.stage 2 = .left ∧ (t.locks.release ⟨"/out.so"⟩).lock? ⟨"/out.so"⟩ = none := by
  have h₁ : Reaches threeCompiles ∅ _ := Reaches.start.step (.take (i := 0) rfl rfl)
  have h₂ := h₁.step (.ask (i := 0) rfl)
  have h₃ := h₂.step (.enter (i := 0) rfl rfl
    (State.free_of_not_holds (by rintro (_ | j) <;> rfl) 0))
  have h₄ := h₃.drop (i := 0) (.inr rfl)
  rw [insert_empty_eq] at h₄
  have h₅ := h₄.step (.take (i := 2) rfl rfl)
  have h₆ := h₅.step (.ask (i := 2) rfl)
  have h₇ := h₆.step (.enter (i := 2) rfl rfl
    (State.free_of_not_holds (by rintro (_ | _ | _ | j) <;> rfl) 0))
  have h₈ := h₇.step (.finish (i := 2) rfl)
  have h₉ := h₈.step (.leave (i := 2) rfl rfl)
  refine ⟨_, _, h₄, h₉, by decide, by rintro (_ | j) <;> rfl,
    (table_abandoned h₄).1 _ 0 (by decide), rfl, (table_abandoned h₉).2 _ ?_⟩
  rintro (_ | _ | _ | j) key hkey hsame
  · rfl
  · rfl
  · rfl
  · cases hkey

end LiveBuild.Interleaving
