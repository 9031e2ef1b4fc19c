import LiveBuild.Proofs.Locks.Simulation

/-!
# The table of output locks is cleaned

Every compile tries to remove the entry of its path once, after it gave up its lock, and does
nothing if somebody else has a handle then. That is enough: whoever has a handle still has its own
release to come, and the last one finds nobody else.

* `Stage.isUnderWay`: from the handle up to the release;
* `Swept`: the invariant. Every entry has a compile on its path that is under way. The step that
  could break it is the release; if that leaves the entry in the table, it is because of a handle,
  and by `Tied` whoever has it is on the path of the entry (`Swept.release`);
* `table_underWay`: what the table holds, in every state that any interleaving reaches, if no
  compile is given up by its caller;
* `table_run`: the schedule leaves an empty table.
-/

namespace LiveBuild.Interleaving

open Schedule (Job Phase Work)

variable {work : ℕ → Option Work} {s t : State} {i j : ℕ} {k : Path} {p : Stage}
  {locks : OutputLocks}

/-- The compile took its handle, and its release is still to come, if it needs a lock. -/
def Stage.isUnderWay : Stage → Bool
  | coming | ended => false
  | _ => true

theorem Stage.isUnderWay_of_hasHandle {p : Stage} (h : p.hasHandle = true) :
    p.isUnderWay = true := by
  cases p <;> first | rfl | cases h

/-- A compile is on a path, and under way. -/
def State.Uses (work : ℕ → Option Work) (s : State) (i : ℕ) (k : Path) : Prop :=
  ∃ key, keyOf work i = some key ∧ key.same k = true ∧ (s.stage i).isUnderWay = true

namespace State.Uses

theorem go_of_ne (h : s.Uses work i k) (hne : i ≠ j) : (s.go j p locks).Uses work i k := by
  rwa [State.Uses, State.go_stage_of_ne hne]

theorem ne (h : s.Uses work i k) (hj : (s.stage j).isUnderWay = false) : i ≠ j := by
  rintro rfl
  obtain ⟨key, -, -, hi⟩ := h
  rw [hj] at hi
  cases hi

end State.Uses

/-- Every entry of the table has a compile on its path that is under way. -/
structure Swept (work : ℕ → Option Work) (s : State) : Prop where
  /-- Only a compile whose stage says so has a handle. -/
  handle : ∀ {i l}, (i, l) ∈ s.locks.handles → (s.stage i).hasHandle = true
  user : ∀ {k l}, s.locks.lock? k = some l → ∃ i, s.Uses work i k

namespace Swept

theorem start : Swept work .start := ⟨nofun, nofun⟩

/-- What a compile that goes on to another stage has to show. -/
theorem go (h : Swept work s)
    (handle : ∀ {j l}, (j, l) ∈ locks.handles →
      (j, l) ∈ s.locks.handles ∧ j ≠ i ∨ j = i ∧ p.hasHandle = true)
    (user : ∀ {k l}, locks.lock? k = some l → (∃ j, s.Uses work j k ∧ j ≠ i) ∨
      ∃ key, keyOf work i = some key ∧ key.same k = true ∧ p.isUnderWay = true) :
    Swept work (s.go i p locks) where
  handle {j l} hj := by
    rcases handle hj with ⟨hj, hne⟩ | ⟨rfl, hp⟩
    · rw [State.go_stage_of_ne hne]
      exact h.handle hj
    · rwa [State.go_stage]
  user {k l} hl := by
    rcases user hl with ⟨j, hj, hne⟩ | hi
    · exact ⟨j, hj.go_of_ne hne⟩
    · exact ⟨i, by rwa [State.Uses, State.go_stage]⟩

/-- A compile that goes on without touching the table. -/
theorem go_of_le (h : Swept work s)
    (handle : ∀ l, (i, l) ∈ s.locks.handles → p.hasHandle = true)
    (underWay : ∀ key, keyOf work i = some key → (s.stage i).isUnderWay = true →
      p.isUnderWay = true) :
    Swept work (s.go i p) := by
  refine h.go (fun {j l} hj => ?_) fun {k l} hl => ?_
  · by_cases hne : j = i
    · exact .inr ⟨hne, handle l (hne ▸ hj)⟩
    · exact .inl ⟨hj, hne⟩
  · obtain ⟨j, hj⟩ := h.user hl
    by_cases hne : j = i
    · subst hne
      obtain ⟨key, hkey, hsame, hstage⟩ := hj
      exact .inr ⟨key, hkey, hsame, underWay key hkey hstage⟩
    · exact .inl ⟨j, hj, hne⟩

/-- A compile that goes on from a stage with a handle to another one. -/
theorem go_of_hasHandle (h : Swept work s) (hp : p.hasHandle = true) : Swept work (s.go i p) :=
  h.go_of_le (fun _ _ => hp) fun _ _ _ => Stage.isUnderWay_of_hasHandle hp

/-- A compile that needs no lock, or that did not come yet, goes on. -/
theorem go_of_not_underWay (h : Swept work s)
    (hi : keyOf work i = none ∨ (s.stage i).isUnderWay = false) (ht : Tied work s) :
    Swept work (s.go i p) := by
  refine h.go_of_le (fun l hl => ?_) fun key hkey hstage => ?_
  · have hstage := Stage.isUnderWay_of_hasHandle (h.handle hl)
    obtain ⟨key, hkey, -⟩ := ht.lock hl
    simp [hkey, hstage] at hi
  · simp [hkey, hstage] at hi

theorem take (h : Swept work s) (hi : s.stage i = .coming) (hk : keyOf work i = some k) :
    Swept work (s.go i .carrying (s.locks.take i k)) := by
  have hcoming : (s.stage i).isUnderWay = false := by rw [hi]; rfl
  refine h.go (fun {j l} hj => ?_) fun {k' l} hl => ?_
  · rcases OutputLocks.mem_handles_take hj with hold | ⟨rfl, -⟩
    · refine .inl ⟨hold, ?_⟩
      rintro rfl
      rw [Stage.isUnderWay_of_hasHandle (h.handle hold)] at hcoming
      cases hcoming
    · exact .inr ⟨rfl, rfl⟩
  · rcases OutputLocks.eq_some_or_same_of_lock?_take hl with hl | hsame
    · obtain ⟨j, hj⟩ := h.user hl
      exact .inl ⟨j, hj, hj.ne hcoming⟩
    · exact .inr ⟨k, hk, hsame, rfl⟩

theorem ask (h : Swept work s) : Swept work (s.go i .waiting (s.locks.ask i)) := by
  have hgo := h.go_of_hasHandle (i := i) (p := .waiting) rfl
  exact ⟨fun hl => hgo.handle (by simpa using hl), fun hl => hgo.user (by simpa using hl)⟩

/-- A compile gives up its handle, but not the duty to clean the table. -/
theorem leave (h : Swept work s) : Swept work (s.go i .left (s.locks.leave i)) := by
  refine h.go (fun {j l} hj => .inl (OutputLocks.mem_handles_leave.1 hj)) fun {k l} hl => ?_
  obtain ⟨j, hj⟩ := h.user hl
  by_cases hne : j = i
  · subst hne
    obtain ⟨key, hkey, hsame, -⟩ := hj
    exact .inr ⟨key, hkey, hsame, rfl⟩
  · exact .inl ⟨j, hj, hne⟩

/-- The release removes the entry of its path, or somebody else has a handle on the lock in it. Who
has a handle on the lock of an entry is on the path of the entry. -/
theorem release (h : Swept work s) (ht : Tied work s) (hn : s.locks.Numbered)
    (hi : s.stage i = .left) (hk : keyOf work i = some k) :
    Swept work (s.go i .ended (s.locks.release k)) := by
  have hne {j l : ℕ} (hj : (j, l) ∈ s.locks.handles) : j ≠ i := by
    rintro rfl
    have := h.handle hj
    rw [hi] at this
    cases this
  refine h.go (fun {j l} hj => ?_) fun {k' l} hl => .inl ?_
  · rw [OutputLocks.handles_release] at hj
    exact .inl ⟨hj, hne hj⟩
  · obtain ⟨hl, hheld⟩ := OutputLocks.lock?_of_lock?_release hl
    obtain ⟨j, hj⟩ := h.user hl
    by_cases hji : j = i
    · subst hji
      obtain ⟨key, hkey, hsame, -⟩ := hj
      rw [hk, Option.some_inj] at hkey
      obtain ⟨j, hj⟩ := hheld (hkey ▸ hsame)
      obtain ⟨key', hkey', hlock⟩ := ht.lock hj
      exact ⟨j, ⟨key', hkey', hn.same_of_lock? hlock hl,
        Stage.isUnderWay_of_hasHandle (h.handle hj)⟩, hne hj⟩
    · exact ⟨j, hj, hji⟩

/-- **Every step of every compile preserves the invariant**, if no compile is given up. -/
theorem step (h : Swept work s) (ht : Tied work s) (hn : s.locks.Numbered)
    (hst : Step work False s t) : Swept work t := by
  cases hst with
  | reject hi | enterFree hi => exact h.go_of_not_underWay (.inr (by rw [hi]; rfl)) ht
  | take hi hk => exact h.take hi hk
  | ask => exact h.ask
  | enter | finish => exact h.go_of_hasHandle rfl
  | leave => exact h.leave
  | release hi hk => exact h.release ht hn hi hk
  | finishFree _ hk => exact h.go_of_not_underWay (.inl hk) ht
  | drop hd => exact hd.elim

end Swept

theorem Reachable.swept (hs : Reachable work False s) : Swept work s := by
  induction hs with
  | start => exact .start
  | step hs h ih => exact ih.step hs.tied hs.numbered h

/-- **The table holds no garbage**, in any state that any interleaving reaches. Every entry has a
compile on its path that took its handle and did not release yet; a compile from its handle up to
the end of its hold has a handle on the very lock that is in the table for its path; and while no
compile on a path is under way, the table is empty. -/
theorem table_underWay (hs : Reachable work False s) :
    (∀ e ∈ s.locks.table, ∃ i key, keyOf work i = some key ∧ key.same e.1 = true ∧
      (s.stage i).isUnderWay = true) ∧
    (∀ i key, keyOf work i = some key → (s.stage i).hasHandle = true →
      ∃ l, s.locks.lockOf? i = some l ∧ s.locks.lock? key = some l) ∧
    ((∀ i key, keyOf work i = some key → (s.stage i).isUnderWay = false) →
      s.locks.table = []) := by
  have huser : ∀ e ∈ s.locks.table, ∃ i, s.Uses work i e.1 := fun e he =>
    (OutputLocks.exists_lock?_of_mem he).elim fun _ hl => hs.swept.user hl
  refine ⟨huser, fun i key hkey hi => ?_, fun hidle => ?_⟩
  · obtain ⟨l, hl⟩ := hs.tied.handle hkey hi
    obtain ⟨l, hl⟩ := OutputLocks.exists_lockOf? hl
    exact ⟨l, hl, (hs.tied.lockOf?_eq hkey hi).symm.trans hl⟩
  · refine List.eq_nil_iff_forall_not_mem.2 fun e he => ?_
    obtain ⟨i, key, hkey, -, hi⟩ := huser e he
    rw [hidle i key hkey] at hi
    cases hi

/-- Compile 2 took its handle while compile 0 was in the compiler, so the release of compile 0 left
the entry to it. Compile 2 has left since, and after its release the table is empty. -/
theorem table_underWay_threeCompiles :
    ∃ s t, Reachable threeCompiles False s ∧ Reachable threeCompiles False t ∧
      s.stage 0 = .ended ∧ s.locks.table ≠ [] ∧
      (∀ e ∈ s.locks.table, ∃ i key, keyOf threeCompiles i = some key ∧ key.same e.1 = true ∧
        (s.stage i).isUnderWay = true) ∧
      t.stage 2 = .ended ∧ t.locks.table = [] := by
  have h₁ : Reachable threeCompiles False _ := Reachable.start.step (.take (i := 0) rfl rfl)
  have h₂ := h₁.step (.ask (i := 0) rfl)
  have h₃ := h₂.step (.enter (i := 0) rfl rfl
    (State.free_of_not_holds (by rintro (_ | j) <;> rfl) 0))
  have h₄ := h₃.step (.take (i := 2) rfl rfl)
  have h₅ := h₄.step (.finish (i := 0) rfl)
  have h₆ := h₅.step (.leave (i := 0) rfl rfl)
  have h₇ := h₆.step (.release (i := 0) rfl rfl)
  have h₈ := h₇.step (.ask (i := 2) rfl)
  have h₉ := h₈.step (.enter (i := 2) rfl rfl
    (State.free_of_not_holds (by rintro (_ | _ | _ | j) <;> rfl) 0))
  have h₁₀ := h₉.step (.finish (i := 2) rfl)
  have h₁₁ := h₁₀.step (.leave (i := 2) rfl rfl)
  have h₁₂ := h₁₁.step (.release (i := 2) rfl rfl)
  refine ⟨_, _, h₁₁, h₁₂, rfl, by decide, (table_underWay h₁₁).1, rfl,
    (table_underWay h₁₂).2.2 ?_⟩
  rintro (_ | _ | _ | j) key hkey
  · rfl
  · rfl
  · rfl
  · cases hkey

/-! ## The schedule -/

/-- **The schedule leaves an empty table.** -/
theorem table_run (limit : Option ℕ) (jobs : List Job) :
    (Schedule.run limit jobs).locks.table = [] := by
  have hs : Reachable (workOf jobs) False (.ofSchedule (Schedule.run limit jobs)) :=
    reachable_run limit jobs _
  refine List.eq_nil_iff_forall_not_mem.2 fun e he => ?_
  obtain ⟨l, hl⟩ := OutputLocks.exists_lock?_of_mem he
  obtain ⟨i, key, hkey, -, hi⟩ := hs.swept.user hl
  obtain ⟨w, hw, -⟩ := Option.bind_eq_some_iff.1 hkey
  obtain ⟨job, hjob, -⟩ := Option.bind_eq_some_iff.1 hw
  obtain ⟨left, hphase⟩ := (Schedule.done_run limit jobs).exists_phase_eq hjob
  rw [State.ofSchedule] at hi
  dsimp only at hi
  split at hi
  · rw [hphase] at hi
    cases hi
  · cases hi

end LiveBuild.Interleaving
