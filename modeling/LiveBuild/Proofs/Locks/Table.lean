import LiveBuild.Locks.Table
import Mathlib.Data.List.Nodup

/-!
# The table of output locks under its atomic actions

What each action does to the lock of a path and to the handles.

* `lock?_congr`: the lock of a path depends only on the components of the path;
* `lock?_take`, `lock?_take_of_eq_some`: taking a handle makes the entry of its path and changes
  no entry that exists;
* `lock?_release_of_mem`: a lock on which somebody has a handle stays in the table, whatever is
  released;
* `eq_some_or_same_of_lock?_take`, `lock?_of_lock?_release`: where an entry comes from that is in
  the table after a handle was taken, or after a release;
* `mem_handles_take`, `mem_handles_leave`: who has a handle after a step;
* `mem_queue_ask`, `mem_queue_leave`: who is in a queue after a step;
* `AgreeOff`: what an action of one compile leaves as it is for all the others;
* `Numbered`: no two entries have the same lock, so that paths with one lock are the same
  (`Numbered.same_of_lock?`).
-/

namespace LiveBuild.OutputLocks

variable {s : OutputLocks} {i j l : ℕ} {k k' : Path}

/-! ## The lock of a path -/

theorem lock?_congr (h : k.same k' = true) : s.lock? k = s.lock? k' := by
  have hc := Path.same_iff.1 h
  simp only [lock?, Path.same, hc]

/-- The path of an entry has a lock, though perhaps that of an entry before it. -/
theorem exists_lock?_of_mem {e : Path × ℕ} (he : e ∈ s.table) : ∃ l, s.lock? e.1 = some l := by
  cases hl : s.lock? e.1 with
  | some l => exact ⟨l, rfl⟩
  | none =>
    rw [lock?, Option.map_eq_none_iff, List.find?_eq_none] at hl
    exact absurd (Path.same_iff.2 rfl) (hl e he)

theorem lock?_append {e : Path × ℕ} :
    { s with table := s.table ++ [e] }.lock? k =
      (s.lock? k).or (if e.1.same k then some e.2 else none) := by
  simp only [lock?, List.find?_append, List.find?_singleton]
  cases s.table.find? (·.1.same k) <;> cases e.1.same k <;> rfl

/-- Taking a handle leaves an entry that exists as it is. -/
theorem lock?_take_of_eq_some (h : s.lock? k' = some l) : (s.take i k).lock? k' = some l := by
  rw [take]
  split
  · exact h
  · exact lock?_append.trans (by rw [h]; rfl)

/-- After a handle was taken, the path has a lock, and the handle is on it. -/
theorem lock?_take : ∃ l, (s.take i k).lock? k = some l ∧
    (s.take i k).handles = s.handles ++ [(i, l)] := by
  rw [take]
  split
  next l h => exact ⟨l, h, rfl⟩
  next h =>
    refine ⟨s.next, lock?_append.trans ?_, rfl⟩
    rw [h, Path.same_iff.2 rfl]
    rfl

/-- The paths with the components of a released path lose their entry, and no others do. -/
theorem lock?_filter (k k' : Path) :
    { s with table := s.table.filter fun e => !e.1.same k }.lock? k' =
      if k.same k' then none else s.lock? k' := by
  simp only [lock?, List.find?_filter]
  split
  next h =>
    rw [Option.map_eq_none_iff, List.find?_eq_none]
    intro e _
    simp [Path.same, Path.same_iff.1 h]
  next h =>
    congr 2
    funext e
    have hne : e.1.same k' = true → e.1.same k = false := fun h' => by
      rw [Bool.eq_false_iff]
      exact fun h'' => h (Path.same_iff.2 ((Path.same_iff.1 h'').symm.trans (Path.same_iff.1 h')))
    cases h' : e.1.same k'
    · simp
    · simp [hne h']

/-- A lock on which somebody has a handle stays in the table. -/
theorem lock?_release_of_mem (h : s.lock? k' = some l) (hl : (j, l) ∈ s.handles) :
    (s.release k).lock? k' = some l := by
  rw [release]
  split
  next l' hk =>
    split
    next => exact h
    next hno =>
      rw [lock?_filter, if_neg ?_, h]
      intro hs
      have : l' = l := Option.some_inj.1 (hk.symm.trans ((lock?_congr hs).trans h))
      exact hno (List.any_eq_true.2 ⟨(j, l), hl, by simp [this]⟩)
  next => exact h

/-- A path has a lock after a handle was taken because it had one, or because the handle is on the
lock of this path. -/
theorem eq_some_or_same_of_lock?_take (h : (s.take i k).lock? k' = some l) :
    s.lock? k' = some l ∨ k.same k' = true := by
  rw [take] at h
  split at h
  · exact .inl h
  · rcases Option.or_eq_some_iff.1 (lock?_append.symm.trans h) with h | ⟨-, h⟩
    · exact .inl h
    · exact .inr (Option.ite_none_right_eq_some.1 h).1

/-- An entry that is left by a release was there before, and if its path is the one that was
released, somebody has a handle on its lock. -/
theorem lock?_of_lock?_release (h : (s.release k).lock? k' = some l) :
    s.lock? k' = some l ∧ (k.same k' = true → ∃ j, (j, l) ∈ s.handles) := by
  rw [release] at h
  split at h
  next l' hk =>
    split at h
    next hany =>
      refine ⟨h, fun hsame => ?_⟩
      obtain rfl : l' = l := Option.some_inj.1 (hk.symm.trans ((lock?_congr hsame).trans h))
      obtain ⟨⟨j, l⟩, hj, hl⟩ := List.any_eq_true.1 hany
      obtain rfl : l = l' := by simpa using hl
      exact ⟨j, hj⟩
    next =>
      rw [lock?_filter] at h
      split at h
      · cases h
      next hsame => exact ⟨h, fun h' => absurd h' hsame⟩
  next hk =>
    refine ⟨h, fun hsame => ?_⟩
    rw [← lock?_congr hsame, hk] at h
    cases h

@[simp] theorem lock?_ask : (s.ask i).lock? k = s.lock? k := by
  rw [ask]
  split <;> rfl

/-! ## Handles -/

theorem mem_handles_take (h : (j, l) ∈ (s.take i k).handles) :
    (j, l) ∈ s.handles ∨ j = i ∧ (s.take i k).lock? k = some l := by
  obtain ⟨l', hl', hh⟩ := lock?_take (s := s) (i := i) (k := k)
  rw [hh, List.mem_append, List.mem_singleton] at h
  refine h.imp_right fun h => ?_
  obtain ⟨rfl, rfl⟩ := Prod.mk.inj h
  exact ⟨rfl, hl'⟩

@[simp] theorem handles_ask : (s.ask i).handles = s.handles := by
  rw [ask]
  split <;> rfl

theorem mem_handles_leave : (j, l) ∈ (s.leave i).handles ↔ (j, l) ∈ s.handles ∧ j ≠ i := by
  simp [leave]

@[simp] theorem handles_release : (s.release k).handles = s.handles := by
  rw [release]
  split
  · split <;> rfl
  · rfl

/-- The lock of a compile is one on which it has a handle. -/
theorem mem_handles_of_lockOf? (h : s.lockOf? i = some l) : (i, l) ∈ s.handles := by
  obtain ⟨e, he, rfl⟩ := Option.map_eq_some_iff.1 h
  have hi : e.1 = i := by simpa using List.find?_some he
  exact hi ▸ List.mem_of_find?_eq_some he

/-- A compile with a handle has a lock. -/
theorem exists_lockOf? (h : (i, l) ∈ s.handles) : ∃ l', s.lockOf? i = some l' := by
  cases hf : s.handles.find? (·.1 == i) with
  | none => exact absurd (List.find?_eq_none.1 hf _ h) (by simp)
  | some e => exact ⟨e.2, by rw [lockOf?, hf]; rfl⟩

theorem exists_lockOf?_take : ∃ l, (s.take i k).lockOf? i = some l := by
  obtain ⟨l, -, hhandles⟩ := lock?_take (s := s) (i := i) (k := k)
  exact exists_lockOf? (l := l) (by simp [hhandles])

/-- A handle that is taken changes nothing for the others. -/
theorem lockOf?_take_of_ne (h : j ≠ i) : (s.take i k).lockOf? j = s.lockOf? j := by
  obtain ⟨l, -, hhandles⟩ := lock?_take (s := s) (i := i) (k := k)
  simp [lockOf?, hhandles, List.find?_append, h.symm]

@[simp] theorem lockOf?_ask : (s.ask i).lockOf? j = s.lockOf? j := by
  rw [lockOf?, handles_ask, lockOf?]

@[simp] theorem lockOf?_release : (s.release k).lockOf? j = s.lockOf? j := by
  rw [lockOf?, handles_release, lockOf?]

theorem lockOf?_leave_of_ne (h : j ≠ i) : (s.leave i).lockOf? j = s.lockOf? j := by
  simp only [lockOf?, leave, List.find?_filter]
  congr 2
  funext e
  by_cases he : e.1 = j <;> simp [he, h]

/-! ## Queues -/

@[simp] theorem queue_take : (s.take i k).queue = s.queue := by
  rw [take]
  split <;> rfl

@[simp] theorem queue_release : (s.release k).queue = s.queue := by
  rw [release]
  split
  · split <;> rfl
  · rfl

theorem mem_queue_ask :
    (j, l) ∈ (s.ask i).queue ↔ (j, l) ∈ s.queue ∨ j = i ∧ s.lockOf? i = some l := by
  rw [ask]
  split
  next l' h => simp [h, eq_comm]
  next h => simp [h]

theorem mem_queue_leave : (j, l) ∈ (s.leave i).queue ↔ (j, l) ∈ s.queue ∧ j ≠ i := by
  simp [leave]

/-- A lock that somebody asked for has an owner, who asked for it too. -/
theorem exists_owner? (h : (i, l) ∈ s.queue) : ∃ j, s.owner? l = some j ∧ (j, l) ∈ s.queue := by
  cases hf : s.queue.find? (·.2 == l) with
  | none => exact absurd (List.find?_eq_none.1 hf _ h) (by simp)
  | some e =>
    have hl : e.2 = l := by simpa using List.find?_some hf
    exact ⟨e.1, by rw [owner?, hf]; rfl, hl ▸ List.mem_of_find?_eq_some hf⟩

theorem owns_iff : s.owns i = true ↔ ∃ l, s.lockOf? i = some l ∧ s.owner? l = some i := by
  rw [owns]
  cases s.lockOf? i <;> simp

/-- Who asks for a lock that has an owner comes after the owner. -/
theorem owner?_ask (h : s.owner? l = some j) : (s.ask i).owner? l = some j := by
  rw [ask]
  split
  · obtain ⟨e, he, rfl⟩ := Option.map_eq_some_iff.1 h
    simp only [owner?, List.find?_append, he, Option.some_or, Option.map_some]
  · exact h

/-- An owner remains the owner when somebody else leaves. -/
theorem owner?_leave_of_ne (hji : j ≠ i) (h : s.owner? l = some j) :
    (s.leave i).owner? l = some j := by
  obtain ⟨e, he, rfl⟩ := Option.map_eq_some_iff.1 h
  obtain ⟨hl, before, after, hqueue, hbefore⟩ := List.find?_eq_some_iff_append.1 he
  have hfind : (s.leave i).queue.find? (·.2 == l) = some e := by
    rw [leave, List.find?_filter, List.find?_eq_some_iff_append]
    refine ⟨by simp [hji, hl], before, after, hqueue, fun a ha => ?_⟩
    have hne : a.2 ≠ l := by simpa using hbefore a ha
    simp [hne]
  rw [owner?, hfind, Option.map_some]

/-! ## What an action of one compile leaves to the others -/

/-- Two tables are the same for all compiles but one. -/
structure AgreeOff (i : ℕ) (s t : OutputLocks) : Prop where
  queue : ∀ {j l}, j ≠ i → ((j, l) ∈ t.queue ↔ (j, l) ∈ s.queue)
  lockOf? : ∀ {j}, j ≠ i → t.lockOf? j = s.lockOf? j
  owner? : ∀ {j l}, j ≠ i → s.owner? l = some j → t.owner? l = some j

namespace AgreeOff

variable {t u : OutputLocks}

theorem refl (i : ℕ) (s : OutputLocks) : s.AgreeOff i s :=
  ⟨fun _ => Iff.rfl, fun _ => rfl, fun _ h => h⟩

theorem trans (h : s.AgreeOff i t) (h' : t.AgreeOff i u) : s.AgreeOff i u :=
  ⟨fun hji => (h'.queue hji).trans (h.queue hji),
    fun hji => (h'.lockOf? hji).trans (h.lockOf? hji),
    fun hji ho => h'.owner? hji (h.owner? hji ho)⟩

theorem owns (h : s.AgreeOff i t) (hji : j ≠ i) (ho : s.owns j = true) : t.owns j = true := by
  obtain ⟨l, hl, ho⟩ := owns_iff.1 ho
  exact owns_iff.2 ⟨l, (h.lockOf? hji).trans hl, h.owner? hji ho⟩

theorem take (i : ℕ) (k : Path) (s : OutputLocks) : s.AgreeOff i (s.take i k) :=
  ⟨fun _ => by rw [queue_take], fun hji => lockOf?_take_of_ne hji,
    fun _ ho => by rwa [OutputLocks.owner?, queue_take]⟩

theorem ask (i : ℕ) (s : OutputLocks) : s.AgreeOff i (s.ask i) :=
  ⟨fun hji => mem_queue_ask.trans (or_iff_left fun h => hji h.1), fun _ => lockOf?_ask,
    fun _ ho => owner?_ask ho⟩

theorem leave (i : ℕ) (s : OutputLocks) : s.AgreeOff i (s.leave i) :=
  ⟨fun hji => mem_queue_leave.trans (and_iff_left hji), fun hji => lockOf?_leave_of_ne hji,
    fun hji ho => owner?_leave_of_ne hji ho⟩

theorem release (i : ℕ) (k : Path) (s : OutputLocks) : s.AgreeOff i (s.release k) :=
  ⟨fun _ => by rw [queue_release], fun _ => lockOf?_release,
    fun _ ho => by rwa [OutputLocks.owner?, queue_release]⟩

end AgreeOff

/-! ## Numbers of locks -/

/-- No two entries have the same lock, and the next lock is a new one. -/
structure Numbered (s : OutputLocks) : Prop where
  lt_next : ∀ e ∈ s.table, e.2 < s.next
  nodup : (s.table.map (·.2)).Nodup

namespace Numbered

theorem empty : Numbered .empty := ⟨nofun, List.nodup_nil⟩

/-- Two paths that have one lock are the same path. -/
theorem same_of_lock? (h : s.Numbered) (hk : s.lock? k = some l) (hk' : s.lock? k' = some l) :
    k.same k' = true := by
  obtain ⟨e, he, hel⟩ := Option.map_eq_some_iff.1 hk
  obtain ⟨e', he', hel'⟩ := Option.map_eq_some_iff.1 hk'
  obtain rfl : e = e' := List.inj_on_of_nodup_map h.nodup (List.mem_of_find?_eq_some he)
    (List.mem_of_find?_eq_some he') (hel.trans hel'.symm)
  have hsame : e.1.same k = true := by simpa using List.find?_some he
  have hsame' : e.1.same k' = true := by simpa using List.find?_some he'
  exact Path.same_iff.2 ((Path.same_iff.1 hsame).symm.trans (Path.same_iff.1 hsame'))

theorem take (h : s.Numbered) (i : ℕ) (k : Path) : (s.take i k).Numbered := by
  rw [OutputLocks.take]
  split
  · exact ⟨h.lt_next, h.nodup⟩
  · refine ⟨fun e he => ?_, ?_⟩
    · rcases List.mem_append.1 he with he | he
      · exact Nat.lt_succ_of_lt (h.lt_next e he)
      · obtain rfl := List.mem_singleton.1 he
        exact Nat.lt_succ_self _
    · rw [List.map_append]
      refine List.nodup_append'.2 ⟨h.nodup, List.nodup_singleton _, ?_⟩
      refine List.disjoint_singleton.2 fun hmem => ?_
      obtain ⟨e, he, hnext⟩ := List.mem_map.1 hmem
      exact Nat.ne_of_lt (h.lt_next e he) hnext

theorem ask (h : s.Numbered) (i : ℕ) : (s.ask i).Numbered := by
  rw [OutputLocks.ask]
  split
  · exact ⟨h.lt_next, h.nodup⟩
  · exact h

theorem leave (h : s.Numbered) (i : ℕ) : (s.leave i).Numbered := ⟨h.lt_next, h.nodup⟩

theorem release (h : s.Numbered) (k : Path) : (s.release k).Numbered := by
  rw [OutputLocks.release]
  split
  · split
    · exact h
    · exact ⟨fun e he => h.lt_next e (List.mem_filter.1 he).1,
        h.nodup.sublist (List.filter_sublist.map _)⟩
  · exact h

end Numbered

/-! ## The order of a queue -/

theorem mem_queue_of_owner? (h : s.owner? l = some j) : (j, l) ∈ s.queue := by
  obtain ⟨⟨j', l'⟩, he, rfl⟩ := Option.map_eq_some_iff.1 h
  obtain rfl : l' = l := by simpa using List.find?_some he
  exact List.mem_of_find?_eq_some he

section

variable {r : ℕ × ℕ → ℕ × ℕ → Prop}

/-- A queue stays in order when somebody asks who comes after all that are in it. -/
theorem pairwise_queue_ask (h : s.queue.Pairwise r) (hi : ∀ e ∈ s.queue, ∀ l, r e (i, l)) :
    (s.ask i).queue.Pairwise r := by
  rw [ask]
  split
  next l _ =>
    refine List.pairwise_append.2 ⟨h, List.pairwise_singleton _ _, fun e he e' he' => ?_⟩
    rw [List.mem_singleton.1 he']
    exact hi e he l
  next => exact h

/-- The owner of a lock is before everybody else who asked for it. -/
theorem eq_or_before_of_owner? (h : s.queue.Pairwise r) (ho : s.owner? l = some j)
    (hi : (i, l) ∈ s.queue) : i = j ∨ r (j, l) (i, l) := by
  obtain ⟨⟨j', l'⟩, he, rfl⟩ := Option.map_eq_some_iff.1 ho
  obtain ⟨hl, before, after, hqueue, hbefore⟩ := List.find?_eq_some_iff_append.1 he
  obtain rfl : l' = l := by simpa using hl
  rw [hqueue] at h hi
  rcases List.mem_append.1 hi with hi | hi
  · have hne := hbefore _ hi
    simp at hne
  · rcases List.mem_cons.1 hi with hi | hi
    · exact .inl (congrArg Prod.fst hi)
    · exact .inr ((List.pairwise_cons.1 (List.pairwise_append.1 h).2.1).1 _ hi)

end

end LiveBuild.OutputLocks
