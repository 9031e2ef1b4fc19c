import LiveBuild.Proofs.Locks.Simulation
import Mathlib.Data.Prod.Lex

/-!
# Compiles enter the compiler on time

A compile enters the compiler when it arrives, or when the last compile that asked before it for the
same lock is over, if that is later. `Punctual` says so of all compiles of a state, and it is
preserved by a turn (`Punctual.turn`) and by a move of the clock (`Punctual.tick`), so it holds
throughout a run (`punctual_run`).

* `rank`, `Precedes`: the order of asking. Who arrives earlier asks earlier; of those that arrive at
  the same time, who looks for its source file in fewer turns does, and ties are broken by number;
* `InTurn`: compiles that arrived and did not ask yet have had a turn in each round, so that they
  ask in this order (`InTurn.rank_le`);
* `Entry`: a time of entry is the latest of the arrival and of the times at which those before left;
* `OnTime`: what the time of a phase has to be. One that waits has somebody before it who is not
  over, or was over just now;
* `not_isActive_of_owns`, `exists_isActive_of_not_owns`: the owner of a lock is the first of those
  who are not over. The queue is sorted by rank, and locks and paths correspond.
-/

namespace LiveBuild.Schedule

open Interleaving (Reachable Tied keyOf workOf)

variable {limit : Option ℕ} {jobs : List Job} {job : Job} {w : Work} {s t : State} {i j k l e : ℕ}
  {p : Phase} {busy : Option ℕ} {drops : Prop}

/-! ## The order of asking -/

/-- The time at which a job arrives. -/
def arrivalOf (jobs : List Job) (i : ℕ) : ℕ := (jobs[i]?.map (·.arrival)).getD 0

/-- The number of turns in which a job looks for its source file. -/
def looksOf (jobs : List Job) (i : ℕ) : ℕ := (jobs[i]?.map (·.looks)).getD 0

/-- The place of a job in the order of asking. -/
def rank (jobs : List Job) (i : ℕ) : ℕ ×ₗ ℕ ×ₗ ℕ :=
  toLex (arrivalOf jobs i, toLex (looksOf jobs i, i))

/-- A job asks before another one that needs the same lock. -/
structure Precedes (jobs : List Job) (j i : ℕ) : Prop where
  rank_lt : rank jobs j < rank jobs i
  sameKey : ∃ key key', keyOf (workOf jobs) j = some key ∧ keyOf (workOf jobs) i = some key' ∧
    key.same key' = true

theorem rank_lt_iff : rank jobs j < rank jobs i ↔ arrivalOf jobs j < arrivalOf jobs i ∨
    arrivalOf jobs j = arrivalOf jobs i ∧
      (looksOf jobs j < looksOf jobs i ∨ looksOf jobs j = looksOf jobs i ∧ j < i) := by
  rw [rank, rank, Prod.Lex.toLex_lt_toLex, Prod.Lex.toLex_lt_toLex]

theorem eq_of_rank_eq (h : rank jobs j = rank jobs i) : j = i :=
  congrArg (fun r => (ofLex (ofLex r).2).2) h

theorem Precedes.ne (h : Precedes jobs j i) : j ≠ i := by
  rintro rfl
  exact lt_irrefl _ h.rank_lt

theorem Precedes.lt_length (h : Precedes jobs j i) : j < jobs.length := by
  obtain ⟨key, -, hkey, -⟩ := h.sameKey
  obtain ⟨job, -, hjob, -⟩ := Interleaving.hasKey_of_keyOf hkey
  exact (List.getElem?_eq_some_iff.1 hjob).1

/-- Of two jobs that precede a third one, the one with the lower rank precedes the other one. -/
theorem Precedes.of_rank_lt (hj : Precedes jobs j i) (hk : Precedes jobs k i)
    (h : rank jobs j < rank jobs k) : Precedes jobs j k := by
  obtain ⟨key, key', hkey, hkey', hsame⟩ := hj.sameKey
  obtain ⟨key₁, key₂, hkey₁, hkey₂, hsame₁⟩ := hk.sameKey
  obtain rfl := Option.some_inj.1 (hkey'.symm.trans hkey₂)
  refine ⟨h, key, key₁, hkey, hkey₁, ?_⟩
  exact Path.same_iff.2 ((Path.same_iff.1 hsame).trans (Path.same_iff.1 hsame₁).symm)

/-! ## Times -/

/-- The events of a compile, each with its time. -/
def State.trace (s : State) (i : ℕ) : List (ℕ × EventKind) :=
  (s.events.filter (·.task = i)).map fun e => (e.time, e.kind)

/-- The event with which a compile leaves the compiler. -/
def Ending.event (ending : Ending) : EventKind := if ending = .answered then .leave else .dropped

/-- The compile did not ask yet. -/
def Phase.IsComing : Phase → Prop
  | coming _ _ => True
  | _ => False

theorem Phase.isComing_iff : p.IsComing ↔ ∃ arrival looks, p = .coming arrival looks := by
  cases p <;> simp [IsComing]

/-- A compile enters the compiler at the time `e`: it arrived, all that precede it are over, and
this is the first such time. -/
structure Entry (jobs : List Job) (phase : ℕ → Phase) (i e : ℕ) : Prop where
  arrivalOf_le : arrivalOf jobs i ≤ e
  finished : ∀ {j}, Precedes jobs j i → ∃ left ending, phase j = .ended left ending ∧ left ≤ e
  attained : e = arrivalOf jobs i ∨ ∃ j ending, Precedes jobs j i ∧ phase j = .ended e ending

/-- A compile is in a phase at the right time. -/
def OnTime (limit : Option ℕ) (jobs : List Job) (s : State) (i : ℕ) : Phase → Prop
  | .coming _ _ => s.trace i = []
  | .waiting => s.trace i = [] ∧ arrivalOf jobs i ≤ s.now ∧
    ∃ j, Precedes jobs j i ∧ ((s.phase j).IsActive ∨ ∃ ending, s.phase j = .ended s.now ending)
  | .inside entered _ => s.trace i = [(entered, .enter)] ∧ Entry jobs s.phase i entered
  | .ended left ending => left ≤ s.now ∧ ∀ w, workOf jobs i = some w → ∃ entered,
    left = entered + hold limit w.delay ∧ Entry jobs s.phase i entered ∧
    s.trace i = [(entered, .enter), (left, ending.event)]

/-- All compiles are on time. Nothing is said about the phase of `busy`, whose turn it is. -/
structure Punctual (limit : Option ℕ) (jobs : List Job) (busy : Option ℕ) (s : State) : Prop where
  onTime : ∀ {j}, j < jobs.length → busy ≠ some j → OnTime limit jobs s j (s.phase j)
  /-- Who did not ask comes after all those who did. -/
  arrived : ∀ {j k}, k < jobs.length → rank jobs j < rank jobs k → (s.phase j).IsComing →
    (s.phase k).IsComing ∧ busy ≠ some k
  /-- Compiles ask in order. -/
  queue : s.locks.queue.Pairwise fun x y => rank jobs x.1 < rank jobs y.1

namespace State

@[simp] theorem trace_record_self (kind : EventKind) :
    (s.record i kind).trace i = s.trace i ++ [(s.now, kind)] := by
  simp [trace, record]

theorem trace_record_of_ne (h : j ≠ i) (kind : EventKind) :
    (s.record i kind).trace j = s.trace j := by
  simp [trace, record, h.symm]

theorem trace_leave_self (w : Work) (entered : ℕ) :
    ∃ ending, (s.leave i w entered).phases = s.phases.set i (.ended s.now ending) ∧
      (s.leave i w entered).trace i = s.trace i ++ [(s.now, ending.event)] :=
  ⟨_, rfl, trace_record_self _⟩

theorem trace_leave_of_ne (h : j ≠ i) (w : Work) (entered : ℕ) :
    (s.leave i w entered).trace j = s.trace j := trace_record_of_ne h _

end State

/-! ## Whose turn is next -/

/-- Nobody who is ready is passed over in a round, and before a new round nobody is left who is
ready in the old one. -/
theorem State.order_of_next? (h : s.next? = some i) (hready : s.isReady j = true) :
    s.cursor ≤ i ∧ (j < s.cursor ∨ i ≤ j) ∨ i < s.cursor ∧ j < s.cursor ∧ i ≤ j := by
  have hmem : j ∈ (List.range s.phases.length).filter s.isReady :=
    List.mem_filter.2 ⟨List.mem_range.2 (lt_of_turns_pos (turns_pos_of_isReady hready)), hready⟩
  have hsorted : ((List.range s.phases.length).filter s.isReady).Pairwise (· < ·) :=
    List.pairwise_lt_range.filter _
  rw [next?] at h
  rcases (Option.orElse_eq_some _ _ _).1 h with h | ⟨hover, h⟩
  · obtain ⟨hi, before, after, hlist, hbefore⟩ := List.find?_eq_some_iff_append.1 h
    refine .inl ⟨of_decide_eq_true hi, ?_⟩
    rw [hlist] at hmem hsorted
    rcases List.mem_append.1 hmem with hmem | hmem
    · exact .inl (by simpa using hbefore j hmem)
    · rcases List.mem_cons.1 hmem with rfl | hmem
      · exact .inr le_rfl
      · exact .inr ((List.pairwise_cons.1 (List.pairwise_append.1 hsorted).2.1).1 j hmem).le
  · have hold {k : ℕ} (hk : k ∈ (List.range s.phases.length).filter s.isReady) : k < s.cursor := by
      simpa using List.find?_eq_none.1 hover k hk
    refine .inr ⟨hold (List.mem_of_head? h), hold hmem, ?_⟩
    obtain ⟨after, hlist⟩ := List.head?_eq_some_iff.1 h
    rw [hlist] at hmem hsorted
    rcases List.mem_cons.1 hmem with rfl | hmem
    · exact le_rfl
    · exact ((List.pairwise_cons.1 hsorted).1 j hmem).le

namespace State

theorem enter_clock (i : ℕ) (w : Work) :
    (s.enter limit i w).now = s.now ∧ (s.enter limit i w).cursor = s.cursor := by
  rw [enter]
  split <;> exact ⟨rfl, rfl⟩

theorem proceed_clock (i : ℕ) (work : Option Work) :
    (s.proceed limit i work).now = s.now ∧ (s.proceed limit i work).cursor = s.cursor := by
  cases work with
  | none => exact ⟨rfl, rfl⟩
  | some w =>
    rw [proceed]
    cases w.key with
    | none => exact enter_clock i w
    | some key =>
      dsimp only
      split
      · exact enter_clock (s := { s with locks := (s.locks.take i key).ask i }) i w
      · exact ⟨rfl, rfl⟩

/-- A turn takes no time, and who has the next one is decided apart from it. -/
theorem turn_clock (limit : Option ℕ) (s : State) (i : ℕ) (job : Job) :
    (s.turn limit i job).now = s.now ∧ (s.turn limit i job).cursor = s.cursor := by
  rw [turn]
  split
  · exact ⟨rfl, rfl⟩
  · exact proceed_clock i _
  · exact enter_clock i _
  · exact ⟨rfl, rfl⟩
  · exact ⟨rfl, rfl⟩

/-- A compile that is still to ask after its turn looked for its source file. -/
theorem coming_of_turn (h : Sound limit jobs none s) (hi : i < s.phases.length)
    (hjob : jobs[i]? = some job) (hready : s.isReady i = true) {arrival looks : ℕ}
    (ht : (s.turn limit i job).phase i = .coming arrival looks) :
    s.phase i = .coming arrival (looks + 1) := by
  obtain ⟨p, hphases, hp⟩ := turn_phases h hjob hready
  obtain rfl := (phase_self_of_phases hphases hi).symm.trans ht
  cases hphase : s.phase i with
  | coming arrival' looks' =>
    rw [hphase] at hp
    cases looks' with
    | zero => exact absurd hp (by simp [Phase.turns])
    | succ looks' =>
      have hlook : (s.turn limit i job).phases = s.phases.set i (.coming arrival' looks') := by
        rw [turn, hphase]
        rfl
      obtain ⟨rfl, rfl⟩ := Phase.coming.inj ((phase_self_of_phases hlook hi).symm.trans ht)
      rfl
  | waiting | inside | ended =>
    rw [hphase] at hp
    exact absurd hp (by simp [Phase.turns])

end State

theorem State.isReady_of_coming {arrival looks : ℕ} (h : s.phase i = .coming arrival looks) :
    s.isReady i = true ↔ arrival ≤ s.now := by
  rw [isReady, h, decide_eq_true_iff]

theorem State.phase_start {j : ℕ} (hj : j < jobs.length) : (State.start 0 .empty jobs).phase j =
    .coming (arrivalOf jobs j) (looksOf jobs j) := by
  simp [State.phase, State.start, arrivalOf, looksOf, hj]

/-- The number of turns that a compile has had at this time, if it was ready all the time. -/
def turnsHad (round cursor i : ℕ) : ℕ := if i < cursor then round + 1 else round

theorem turnsHad_self (round cursor i : ℕ) :
    turnsHad (turnsHad round cursor i) (i + 1) i = turnsHad round cursor i + 1 :=
  if_pos (Nat.lt_succ_self i)

/-- The turn of a compile is no turn of another one, also if it begins a new round. -/
theorem turnsHad_of_ne {round cursor : ℕ} (hji : j ≠ i)
    (horder : cursor ≤ i ∧ (j < cursor ∨ i ≤ j) ∨ i < cursor ∧ j < cursor ∧ i ≤ j) :
    turnsHad (turnsHad round cursor i) (i + 1) j = turnsHad round cursor j := by
  simp only [turnsHad]
  split_ifs <;> omega

/-- Compiles that did not ask yet are to arrive, or they arrived just now and have had their turn in
each of the `round` rounds that are over, and in this one if it is past them. -/
structure InTurn (jobs : List Job) (round : ℕ) (s : State) : Prop where
  arrival : ∀ {j arrival looks}, s.phase j = .coming arrival looks → arrival = arrivalOf jobs j
  looks : ∀ {j arrival looks}, s.phase j = .coming arrival looks →
    s.now < arrival ∧ looks = looksOf jobs j ∨
      s.now = arrival ∧ looks + turnsHad round s.cursor j = looksOf jobs j

namespace InTurn

variable {round : ℕ}

theorem now_le (h : InTurn jobs round s) {arrival looks : ℕ}
    (hi : s.phase i = .coming arrival looks) : s.now ≤ arrival := by
  rcases h.looks hi with h | h <;> omega

/-- **The compile that asks is the first of those that did not ask.** -/
theorem rank_le (h : InTurn jobs round s) (hnext : s.next? = some i) {a b looks : ℕ}
    (hi : s.phase i = .coming a 0) (hj : s.phase j = .coming b looks) :
    ¬ rank jobs j < rank jobs i := by
  have hle := (State.isReady_of_coming hi).1 (State.isReady_of_next? hnext).2
  have harrival := h.arrival hi
  have harrival' := h.arrival hj
  rw [rank_lt_iff]
  rcases h.looks hj with ⟨hlater, -⟩ | ⟨hnow, hlooks⟩
  · omega
  · have horder := State.order_of_next? hnext ((State.isReady_of_coming hj).2 hnow.ge)
    have hlooks' := (h.looks hi).resolve_left fun hlater => by omega
    simp only [turnsHad] at hlooks hlooks'
    split at hlooks <;> split at hlooks' <;> omega

/-- A turn in which a compile looks for its source file, or after which it asked. -/
theorem turn (h : InTurn jobs round s) (hnext : s.next? = some i) (hnow : t.now = s.now)
    (hcursor : t.cursor = i + 1) (hother : ∀ {j}, j ≠ i → t.phase j = s.phase j)
    (hself : ∀ {arrival looks}, t.phase i = .coming arrival looks →
      s.phase i = .coming arrival (looks + 1)) :
    InTurn jobs (turnsHad round s.cursor i) t := by
  refine ⟨fun {j arrival looks} hj => ?_, fun {j arrival looks} hj => ?_⟩
  · by_cases hji : j = i
    · subst hji
      exact h.arrival (hself hj)
    · exact h.arrival ((hother hji).symm.trans hj)
  · rw [hnow, hcursor]
    by_cases hji : j = i
    · subst hji
      have hle := (State.isReady_of_coming (hself hj)).1 (State.isReady_of_next? hnext).2
      have hlooks := (h.looks (hself hj)).resolve_left fun hlater => by omega
      rw [turnsHad_self]
      exact .inr ⟨hlooks.1, by omega⟩
    · rw [hother hji] at hj
      refine (h.looks hj).imp_right fun ⟨hnow, hlooks⟩ => ⟨hnow, ?_⟩
      have horder := State.order_of_next? hnext ((State.isReady_of_coming hj).2 hnow.ge)
      rwa [turnsHad_of_ne hji horder]

/-- The clock moves when nobody is ready, so that nobody who arrived is still to ask. -/
theorem tick (h : InTurn jobs round s) (hnext : s.next? = none) {time : ℕ}
    (htime : s.wakeTimes.min? = some time) : InTurn jobs 0 { s with now := time, cursor := 0 } where
  arrival := h.arrival
  looks {j arrival looks} hj := by
    change s.phase j = .coming arrival looks at hj
    have hwakes : time ≤ arrival :=
      (List.min?_eq_some_iff.1 htime).2 arrival (State.mem_wakeTimes.2 ⟨j, .inl ⟨looks, hj⟩⟩)
    have hlater : ¬ arrival ≤ s.now := fun hle => by
      have := State.isSome_next? ((State.isReady_of_coming hj).2 hle)
      rw [hnext] at this
      cases this
    have hlooks := ((h.looks hj).resolve_right fun hnow => hlater hnow.1.ge).2
    rw [turnsHad, if_neg (Nat.not_lt_zero j)]
    exact hwakes.lt_or_eq.imp (⟨·, hlooks⟩) (⟨·, hlooks⟩)

theorem step (h : InTurn jobs round s) (hsound : Sound limit jobs none s)
    (ht : s.step? limit jobs = some t) : ∃ round', InTurn jobs round' t := by
  rw [State.step?] at ht
  cases hnext : s.next? with
  | none =>
    rw [hnext] at ht
    obtain ⟨time, htime, rfl⟩ := Option.map_eq_some_iff.1 ht
    exact ⟨0, h.tick hnext htime⟩
  | some i =>
    obtain ⟨hi, hready⟩ := State.isReady_of_next? hnext
    have hlt : i < jobs.length := hsound.length ▸ hi
    have hjob : jobs[i]? = some jobs[i] := List.getElem?_eq_getElem hlt
    simp only [hnext, hjob] at ht
    obtain rfl := Option.some_inj.1 ht
    have hcursor := hsound.withCursor (i + 1)
    obtain ⟨p, hphases, -⟩ := State.turn_phases hcursor hjob hready
    obtain ⟨hnow, hgoesOn⟩ := State.turn_clock limit { s with cursor := i + 1 } i jobs[i]
    exact ⟨_, h.turn hnext hnow hgoesOn (fun hji => State.phase_of_phases hphases hji)
      (State.coming_of_turn hcursor hi hjob hready)⟩

theorem start (jobs : List Job) : InTurn jobs 0 (State.start 0 .empty jobs) := by
  have hphase {j arrival looks : ℕ}
      (hj : (State.start 0 .empty jobs).phase j = .coming arrival looks) :
      arrivalOf jobs j = arrival ∧ looksOf jobs j = looks := by
    have hlt : j < (State.start 0 .empty jobs).phases.length :=
      State.lt_of_turns_pos (by rw [hj]; exact Nat.succ_pos _)
    rw [State.phase_start (by simpa [State.start] using hlt)] at hj
    exact Phase.coming.inj hj
  refine ⟨fun hj => (hphase hj).1.symm, fun {j arrival looks} hj => ?_⟩
  have hlooks : looks + turnsHad 0 0 j = looksOf jobs j := (hphase hj).2.symm
  exact (Nat.zero_le arrival).lt_or_eq.imp (⟨·, hlooks⟩) (⟨·, hlooks⟩)

end InTurn

/-! ## Who owns a lock -/

/-- A compile that needs a lock, and waits for it or is in the compiler, is in the queue. -/
theorem Sound.mem_queue_of_isActive (h : Sound limit jobs busy s) (hj : busy ≠ some j)
    (hactive : (s.phase j).IsActive) (hkey : HasKey jobs j) : ∃ l, (j, l) ∈ s.locks.queue := by
  cases hphase : s.phase j with
  | waiting => exact h.waiting hj hphase
  | inside =>
    have howns := h.owns hj (by rw [hphase]; trivial) hkey
    obtain ⟨l, -, howner⟩ := OutputLocks.owns_iff.1 howns
    exact ⟨l, OutputLocks.mem_queue_of_owner? howner⟩
  | coming | ended =>
    rw [hphase] at hactive
    cases hactive

section

variable (h : Sound limit jobs (some i) s)
  (ha : Reachable (workOf jobs) drops ((Interleaving.State.ofSchedule s).go i .waiting s.locks))
  (hqueue : s.locks.queue.Pairwise fun x y => rank jobs x.1 < rank jobs y.1)

include h ha in
/-- A compile is in the queue of the lock that the table has for its path. -/
theorem lock?_of_mem_queue (hj : (j, l) ∈ s.locks.queue) :
    ∃ key, keyOf (workOf jobs) j = some key ∧ s.locks.lock? key = some l :=
  ha.tied.lock (OutputLocks.mem_handles_of_lockOf? (h.queue hj).1)

include h ha hqueue in
theorem not_isActive_of_owns (howns : s.locks.owns i = true) (hj : Precedes jobs j i) :
    ¬ (s.phase j).IsActive := by
  intro hactive
  obtain ⟨l, -, howner⟩ := OutputLocks.owns_iff.1 howns
  obtain ⟨key, key', hkey, hkey', hsame⟩ := hj.sameKey
  obtain ⟨l', hl'⟩ := h.mem_queue_of_isActive (fun h => hj.ne (Option.some_inj.1 h).symm) hactive
    (Interleaving.hasKey_of_keyOf hkey)
  obtain ⟨_, hi, hlock⟩ := lock?_of_mem_queue h ha (OutputLocks.mem_queue_of_owner? howner)
  obtain ⟨_, hj', hlock'⟩ := lock?_of_mem_queue h ha hl'
  obtain rfl := Option.some_inj.1 (hkey'.symm.trans hi)
  obtain rfl := Option.some_inj.1 (hkey.symm.trans hj')
  rw [OutputLocks.lock?_congr hsame] at hlock'
  obtain rfl := Option.some_inj.1 (hlock.symm.trans hlock')
  rcases OutputLocks.eq_or_before_of_owner? hqueue howner hl' with hji | hlt
  · exact hj.ne hji
  · exact lt_asymm hj.rank_lt hlt

include h ha hqueue in
theorem exists_isActive_of_not_owns (hl : (i, l) ∈ s.locks.queue)
    (howns : s.locks.owns i ≠ true) : ∃ j, Precedes jobs j i ∧ (s.phase j).IsActive := by
  obtain ⟨j, howner, hj⟩ := OutputLocks.exists_owner? hl
  have hji : j ≠ i := by
    rintro rfl
    exact howns (OutputLocks.owns_iff.2 ⟨l, (h.queue hl).1, howner⟩)
  obtain ⟨key, hkey, hlock⟩ := lock?_of_mem_queue h ha hj
  obtain ⟨key', hkey', hlock'⟩ := lock?_of_mem_queue h ha hl
  have hsame : key.same key' = true := ha.numbered.same_of_lock? hlock hlock'
  have hlt : rank jobs j < rank jobs i :=
    (OutputLocks.eq_or_before_of_owner? hqueue howner hl).resolve_left hji.symm
  exact ⟨j, ⟨hlt, key, key', hkey, hkey', hsame⟩,
    (h.queue hj).2.2 fun h => hji (Option.some_inj.1 h).symm⟩

end

/-! ## Turns -/

/-- The turn of another compile leaves those as they are who are over. -/
theorem Entry.of_phases (h : Entry jobs s.phase j e) (hi : 0 < (s.phase i).turns)
    (ht : t.phases = s.phases.set i p) : Entry jobs t.phase j e := by
  have hended {k left : ℕ} {ending : Ending} (hk : s.phase k = .ended left ending) :
      t.phase k = .ended left ending := by
    rw [State.phase_of_phases ht ?_, hk]
    rintro rfl
    rw [hk] at hi
    exact absurd hi (lt_irrefl 0)
  refine ⟨h.arrivalOf_le, fun hk => ?_, h.attained.imp_right ?_⟩
  · obtain ⟨left, ending, hphase, hle⟩ := h.finished hk
    exact ⟨left, ending, hended hphase, hle⟩
  · rintro ⟨k, ending, hk, hphase⟩
    exact ⟨k, ending, hk, hended hphase⟩

/-- The turn of another compile, in which it may leave the compiler, leaves those on time who
are. -/
theorem OnTime.of_phases (h : OnTime limit jobs s j (s.phase j)) (hji : j ≠ i)
    (hi : 0 < (s.phase i).turns) (hphases : t.phases = s.phases.set i p)
    (hp : (s.phase i).IsActive → p.IsActive ∨ ∃ ending, p = .ended s.now ending)
    (hnow : t.now = s.now) (htrace : t.trace j = s.trace j) :
    OnTime limit jobs t j (t.phase j) := by
  rw [State.phase_of_phases hphases hji]
  cases hphase : s.phase j with
  | coming =>
    rw [hphase] at h
    exact htrace.trans h
  | waiting =>
    rw [hphase] at h
    obtain ⟨hempty, hle, k, hk, hbefore⟩ := h
    refine ⟨htrace.trans hempty, hnow ▸ hle, k, hk, ?_⟩
    rw [hnow]
    by_cases hki : k = i
    · subst hki
      rw [State.phase_self_of_phases hphases (State.lt_of_turns_pos hi)]
      rcases hbefore with hactive | ⟨ending, hended⟩
      · exact hp hactive
      · rw [hended] at hi
        exact absurd hi (lt_irrefl 0)
    · rwa [State.phase_of_phases hphases hki]
  | inside entered =>
    rw [hphase] at h
    exact ⟨htrace.trans h.1, h.2.of_phases hi hphases⟩
  | ended left ending =>
    rw [hphase] at h
    refine ⟨hnow ▸ h.1, fun w hw => ?_⟩
    obtain ⟨entered, hleft, hentry, htraces⟩ := h.2 w hw
    exact ⟨entered, hleft, hentry.of_phases hi hphases, htrace.trans htraces⟩

namespace Punctual

variable {round : ℕ}

/-- The invariant does not look at the cursor. -/
theorem withCursor (h : Punctual limit jobs none s) (cursor : ℕ) :
    Punctual limit jobs none { s with cursor } :=
  ⟨fun {j} hj hne => by
    have hon := h.onTime hj hne
    change OnTime limit jobs { s with cursor } j (s.phase j)
    cases hphase : s.phase j <;> rw [hphase] at hon <;> exact hon, h.arrived, h.queue⟩

/-- The turn of a compile goes on, in the same phase. -/
theorem touch (h : Punctual limit jobs (some i) s) (hi : 0 < (s.phase i).turns)
    (hphases : t.phases = s.phases) (hnow : t.now = s.now)
    (htrace : ∀ {j}, j ≠ i → t.trace j = s.trace j)
    (hqueue : t.locks.queue.Pairwise fun x y => rank jobs x.1 < rank jobs y.1) :
    Punctual limit jobs (some i) t := by
  have hphase : t.phase = s.phase := by
    funext j
    rw [State.phase, State.phase, hphases]
  have hset : t.phases = s.phases.set i (s.phase i) := by
    rw [State.phase_of_lt (State.lt_of_turns_pos hi), List.set_getElem_self, hphases]
  refine ⟨fun {j} hj hji => ?_, fun hk hlt hcoming => ?_, hqueue⟩
  · have hne : j ≠ i := fun h => hji (congrArg some h.symm)
    exact (h.onTime hj hji).of_phases hne hi hset .inl hnow (htrace hne)
  · rw [hphase] at hcoming ⊢
    exact h.arrived hk hlt hcoming

/-- The turn of a compile ends, with a phase that it is in on time. -/
theorem finish (h : Punctual limit jobs (some i) s) (hi : 0 < (s.phase i).turns)
    (hphases : t.phases = s.phases.set i p) (hnow : t.now = s.now)
    (htrace : ∀ {j}, j ≠ i → t.trace j = s.trace j)
    (hqueue : t.locks.queue.Pairwise fun x y => rank jobs x.1 < rank jobs y.1)
    (hp : p.IsActive ∨ ∃ ending, p = .ended s.now ending) (hon : OnTime limit jobs t i p) :
    Punctual limit jobs none t := by
  have hself : t.phase i = p := State.phase_self_of_phases hphases (State.lt_of_turns_pos hi)
  have hother {j : ℕ} (hji : j ≠ i) : t.phase j = s.phase j := State.phase_of_phases hphases hji
  refine ⟨fun {j} hj _ => ?_, fun {j k} hk hlt hcoming => ⟨?_, nofun⟩, hqueue⟩
  · by_cases hji : j = i
    · subst hji
      rwa [hself]
    · have hon' := h.onTime hj fun h => hji (Option.some_inj.1 h).symm
      exact hon'.of_phases hji hi hphases (fun _ => hp) hnow (htrace hji)
  · have hji : j ≠ i := by
      rintro rfl
      rw [hself] at hcoming
      rcases hp with hp | ⟨ending, rfl⟩
      · cases p <;> trivial
      · exact hcoming
    rw [hother hji] at hcoming
    obtain ⟨hk, hki⟩ := h.arrived hk hlt hcoming
    rwa [hother fun h => hki (congrArg some h.symm)]

/-- A compile that was on time in the compiler leaves it. -/
theorem leave (h : Punctual limit jobs (some i) s) (hi : 0 < (s.phase i).turns)
    (hw : workOf jobs i = some w) {entered : ℕ} (htrace : s.trace i = [(entered, .enter)])
    (hentry : Entry jobs s.phase i entered) (hnow : s.now = entered + hold limit w.delay) :
    Punctual limit jobs none (s.leave i w entered) := by
  obtain ⟨ending, hphases, htraces⟩ := State.trace_leave_self (s := s) (i := i) w entered
  refine h.finish hi hphases rfl (fun hji => State.trace_leave_of_ne hji w entered) ?_
    (.inr ⟨ending, rfl⟩) ⟨le_rfl, fun w' hw' => ?_⟩
  · cases hkey : w.key with
    | none =>
      rw [State.leave_locks_of_none hkey]
      exact h.queue
    | some key =>
      rw [State.leave_locks_of_some hkey, OutputLocks.queue_release]
      exact h.queue.filter _
  · obtain rfl := Option.some_inj.1 (hw.symm.trans hw')
    refine ⟨entered, hnow, hentry.of_phases hi hphases, ?_⟩
    rw [htraces, htrace]
    rfl

/-- A compile enters the compiler on time. -/
theorem enter (h : Punctual limit jobs (some i) s) (hi : 0 < (s.phase i).turns)
    (hw : workOf jobs i = some w) (htrace : s.trace i = []) (hentry : Entry jobs s.phase i s.now) :
    Punctual limit jobs none (s.enter limit i w) := by
  have hother {j : ℕ} (hji : j ≠ i) : (s.record i .enter).trace j = s.trace j :=
    State.trace_record_of_ne hji .enter
  have hself : (s.record i .enter).trace i = [(s.now, .enter)] := by simp [htrace]
  rw [State.enter]
  split
  next h0 =>
    have hrecord : Punctual limit jobs (some i) (s.record i .enter) :=
      h.touch hi rfl rfl hother h.queue
    exact hrecord.leave hi hw hself hentry (by rw [h0]; rfl)
  next =>
    refine h.finish hi rfl rfl hother h.queue (.inl trivial) ⟨hself, ?_⟩
    exact hentry.of_phases hi rfl

/-- A compile may enter now if it arrived, and if nobody before it waits or is in the compiler. -/
theorem entry_now (h : Punctual limit jobs (some i) s) (hi : i < jobs.length)
    (harrival : arrivalOf jobs i ≤ s.now)
    (hfree : ∀ {j}, Precedes jobs j i → ¬ (s.phase j).IsActive)
    (hattained : s.now = arrivalOf jobs i ∨
      ∃ j ending, Precedes jobs j i ∧ s.phase j = .ended s.now ending) :
    Entry jobs s.phase i s.now := by
  refine ⟨harrival, fun {j} hj => ?_, hattained⟩
  have hfree := hfree hj
  cases hphase : s.phase j with
  | coming => exact absurd rfl (h.arrived hi hj.rank_lt (by rw [hphase]; trivial)).2
  | waiting | inside =>
    rw [hphase] at hfree
    exact absurd trivial hfree
  | ended left ending =>
    have hon := h.onTime hj.lt_length fun h => hj.ne (Option.some_inj.1 h).symm
    rw [hphase] at hon
    exact ⟨left, ending, rfl, hon.1⟩

/-- A compile asks for its lock after all that are in a queue. -/
theorem ask (h : Punctual limit jobs (some i) s) (hsound : Sound limit jobs none s)
    {arrival looks : ℕ} (hi : s.phase i = .coming arrival looks) (key : Path) :
    Punctual limit jobs (some i) { s with locks := (s.locks.take i key).ask i } := by
  refine h.touch (by rw [hi]; exact Nat.succ_pos _) rfl rfl (fun _ => rfl) ?_
  refine OutputLocks.pairwise_queue_ask (by rw [OutputLocks.queue_take]; exact h.queue) ?_
  rintro ⟨j, l⟩ hj l'
  rw [OutputLocks.queue_take] at hj
  obtain ⟨-, ⟨job, -, hjob, -⟩, hactive⟩ := hsound.queue hj
  have hactive := hactive nofun
  rcases lt_trichotomy (rank jobs j) (rank jobs i) with hlt | heq | hlt
  · exact hlt
  · rw [eq_of_rank_eq heq, hi] at hactive
    cases hactive
  · have hj := (List.getElem?_eq_some_iff.1 hjob).1
    have hcoming := (h.arrived hj hlt (by rw [hi]; trivial)).1
    cases hphase : s.phase j <;> rw [hphase] at hcoming hactive <;> contradiction

/-- A compile looks for its source file, and is still to ask. -/
theorem look (h : Punctual limit jobs none s) (hi : i < s.phases.length) {arrival looks looks' : ℕ}
    (hcoming : s.phase i = .coming arrival looks) :
    Punctual limit jobs none (s.move i (.coming arrival looks')) := by
  have hself : (s.move i (.coming arrival looks')).phase i = .coming arrival looks' :=
    State.phase_self_of_phases rfl hi
  have hother {j : ℕ} (hji : j ≠ i) : (s.move i (.coming arrival looks')).phase j = s.phase j :=
    State.phase_of_phases rfl hji
  have hiff {j : ℕ} : ((s.move i (.coming arrival looks')).phase j).IsComing ↔
      (s.phase j).IsComing := by
    by_cases hji : j = i
    · rw [hji, hself, hcoming]
      exact Iff.rfl
    · rw [hother hji]
  refine ⟨fun {j} hj _ => ?_, fun hk hlt hj => ⟨?_, nofun⟩, h.queue⟩
  · have hon := h.onTime hj nofun
    by_cases hji : j = i
    · subst hji
      rw [hcoming] at hon
      rw [hself]
      exact hon
    · have hturns : 0 < (s.phase i).turns := by
        rw [hcoming]
        exact Nat.succ_pos _
      refine hon.of_phases hji hturns rfl (fun hactive => ?_) rfl rfl
      rw [hcoming] at hactive
      cases hactive
  · exact hiff.2 (h.arrived hk hlt (hiff.1 hj)).1

theorem proceed (h : Punctual limit jobs (some i) s) (hsound : Sound limit jobs none s)
    (ha : Reachable (workOf jobs) drops (.ofSchedule s)) (hi : i < s.phases.length) {looks : ℕ}
    (hcoming : s.phase i = .coming s.now looks) (hjob : jobs[i]? = some job)
    (hnow : s.now = arrivalOf jobs i) (htrace : s.trace i = []) :
    Punctual limit jobs none (s.proceed limit i job.work) := by
  have hturns : 0 < (s.phase i).turns := by
    rw [hcoming]
    exact Nat.succ_pos _
  have hlt : i < jobs.length := (List.getElem?_eq_some_iff.1 hjob).1
  have hwork := Interleaving.workOf_eq hjob
  cases hw : job.work with
  | none =>
    refine h.finish hturns rfl rfl (fun _ => rfl) h.queue (.inr ⟨_, rfl⟩)
      ⟨le_rfl, fun w hw' => ?_⟩
    rw [hwork, hw] at hw'
    cases hw'
  | some w =>
    rw [hw] at hwork
    rw [State.proceed]
    cases hkey : w.key with
    | none =>
      refine h.enter hturns hwork htrace (h.entry_now hlt hnow.ge (fun hj => ?_) (.inl hnow))
      obtain ⟨-, key', -, hkey', -⟩ := hj.sameKey
      rw [Interleaving.keyOf_eq hjob hw, hkey] at hkey'
      cases hkey'
    | some key =>
      have hasked := h.ask hsound hcoming key
      have hsound' := hsound.ask hcoming hjob hw hkey
      have hstage : (Interleaving.State.ofSchedule s).stage i = .coming := by
        rw [Interleaving.State.stage_ofSchedule hi, hcoming, Interleaving.Stage.ofPhase]
      have htaken := ha.step (.take hstage ((Interleaving.keyOf_eq hjob hw).trans hkey))
      have ha' := htaken.step (.ask Interleaving.State.go_stage)
      rw [Interleaving.State.go_go] at ha'
      dsimp only
      split
      next howns =>
        refine hasked.enter hturns hwork htrace
          (hasked.entry_now hlt hnow.ge (fun hj => ?_) (.inl hnow))
        exact not_isActive_of_owns hsound' ha' hasked.queue howns hj
      next howns =>
        obtain ⟨l, hl⟩ : ∃ l, (s.locks.take i key).lockOf? i = some l :=
          OutputLocks.exists_lockOf?_take
        obtain ⟨j, hj, hactive⟩ := exists_isActive_of_not_owns hsound' ha' hasked.queue
          (OutputLocks.mem_queue_ask.2 (.inr ⟨rfl, hl⟩)) howns
        refine hasked.finish hturns rfl rfl (fun _ => rfl) hasked.queue (.inl trivial)
          ⟨htrace, hnow.ge, j, hj, .inl ?_⟩
        rwa [State.phase_of_phases rfl hj.ne]

/-! ## Steps -/

/-- The turn of a compile begins that does not look for its source file. Nobody who was before it in
the order of asking is to ask. -/
theorem begin (h : Punctual limit jobs none s) (hturn : InTurn jobs round s)
    (hnext : s.next? = some i)
    (hasks : ∀ {arrival looks}, s.phase i = .coming arrival looks → looks = 0) :
    Punctual limit jobs (some i) { s with cursor := i + 1 } where
  onTime hj _ := (h.withCursor (i + 1)).onTime hj nofun
  arrived {j k} hk hlt hcoming := by
    refine ⟨(h.arrived hk hlt hcoming).1, ?_⟩
    intro hki
    obtain rfl := Option.some_inj.1 hki
    obtain ⟨a, looks, ha⟩ := Phase.isComing_iff.1 (h.arrived hk hlt hcoming).1
    obtain ⟨b, looks', hb⟩ := Phase.isComing_iff.1 hcoming
    obtain rfl := hasks ha
    exact hturn.rank_le hnext ha hb hlt
  queue := h.queue

/-- **A turn keeps all compiles on time.** -/
theorem turn (h : Punctual limit jobs none s) (hturn : InTurn jobs round s)
    (hsound : Sound limit jobs none s) (ha : Reachable (workOf jobs) drops (.ofSchedule s))
    (hnext : s.next? = some i) (hjob : jobs[i]? = some job) :
    Punctual limit jobs none ({ s with cursor := i + 1 }.turn limit i job) := by
  have hsound' := hsound.withCursor (i + 1)
  obtain ⟨hi, hready⟩ := State.isReady_of_next? hnext
  have hturns : 0 < (s.phase i).turns := State.turns_pos_of_isReady hready
  have hlt : i < jobs.length := hsound.length ▸ hi
  have hon := h.onTime hlt nofun
  have hsuits := hsound.suits nofun hjob
  have hphase' : State.phase { s with cursor := i + 1 } i = s.phase i := rfl
  rw [State.isReady] at hready
  rw [State.turn, hphase']
  cases hphase : s.phase i with
  | coming arrival looks =>
    rw [hphase] at hon hready
    obtain rfl : arrival = s.now :=
      le_antisymm (of_decide_eq_true hready) (hturn.now_le hphase)
    cases looks with
    | zero =>
      have hbegin := h.begin hturn hnext fun h => (Phase.coming.inj (hphase.symm.trans h)).2.symm
      exact hbegin.proceed hsound' ha hi hphase hjob (hturn.arrival hphase) hon
    | succ looks => exact (h.withCursor (i + 1)).look hi hphase
  | waiting =>
    rw [hphase] at hon hready hsuits
    obtain ⟨htrace, harrival, j, hj, hbefore⟩ := hon
    obtain ⟨w, hw⟩ := Option.isSome_iff_exists.1 hsuits
    rw [← Interleaving.State.ofSchedule_go_self hi hphase] at ha
    have hfree {k : ℕ} (hk : Precedes jobs k i) : ¬ (s.phase k).IsActive :=
      not_isActive_of_owns (hsound.begin i) ha h.queue hready hk
    obtain ⟨ending, hended⟩ := hbefore.resolve_left (hfree hj)
    have hbegin := h.begin hturn hnext fun hcoming => by cases hphase.symm.trans hcoming
    rw [hw]
    exact hbegin.enter hturns ((Interleaving.workOf_eq hjob).trans hw) htrace
      (hbegin.entry_now hlt harrival hfree (.inr ⟨j, ending, hj, hended⟩))
  | inside entered wakes =>
    rw [hphase] at hon hready hsuits
    obtain ⟨w, hw, rfl, hnow⟩ := hsuits
    have hbegin := h.begin hturn hnext fun hcoming => by cases hphase.symm.trans hcoming
    rw [hw]
    exact hbegin.leave hturns ((Interleaving.workOf_eq hjob).trans hw) hon.1 hon.2
      (Nat.le_antisymm hnow (of_decide_eq_true hready))
  | ended =>
    rw [hphase] at hready
    cases hready

theorem now_le_of_mem_wakeTimes (hturn : InTurn jobs round s) (hsound : Sound limit jobs none s)
    {time : ℕ} (htime : time ∈ s.wakeTimes) : s.now ≤ time := by
  obtain ⟨i, ⟨looks, hi⟩ | ⟨entered, hi⟩⟩ := State.mem_wakeTimes.1 htime
  · exact hturn.now_le hi
  · have hlt : i < s.phases.length := State.lt_of_turns_pos (by rw [hi]; exact Nat.one_pos)
    rw [hsound.length] at hlt
    have hsuits := hsound.suits nofun (List.getElem?_eq_getElem hlt)
    rw [hi] at hsuits
    obtain ⟨w, -, -, hle⟩ := hsuits
    exact hle

/-- The clock moves when nobody is ready, so that somebody before each compile that waits is still
to leave the compiler. -/
theorem tick (h : Punctual limit jobs none s) (hturn : InTurn jobs round s)
    (hsound : Sound limit jobs none s) (ha : Reachable (workOf jobs) drops (.ofSchedule s))
    (hnext : s.next? = none) {time : ℕ} (htime : s.wakeTimes.min? = some time) :
    Punctual limit jobs none { s with now := time, cursor := 0 } where
  onTime {j} hj _ := by
    have hon := h.onTime hj nofun
    have hle : s.now ≤ time :=
      now_le_of_mem_wakeTimes hturn hsound (List.min?_eq_some_iff.1 htime).1
    change OnTime limit jobs { s with now := time, cursor := 0 } j (s.phase j)
    cases hphase : s.phase j with
    | coming =>
      rw [hphase] at hon
      exact hon
    | waiting =>
      rw [hphase] at hon
      obtain ⟨l, hl⟩ := hsound.waiting nofun hphase
      have hj : j < s.phases.length := State.lt_of_turns_pos (by rw [hphase]; exact Nat.two_pos)
      rw [← Interleaving.State.ofSchedule_go_self hj hphase] at ha
      have howns : s.locks.owns j ≠ true := fun howns => by
        have hready : s.isReady j = true := by rwa [State.isReady, hphase]
        have := State.isSome_next? hready
        rw [hnext] at this
        cases this
      obtain ⟨k, hk, hactive⟩ :=
        exists_isActive_of_not_owns (hsound.begin j) ha h.queue hl howns
      exact ⟨hon.1, hon.2.1.trans hle, k, hk, .inl hactive⟩
    | inside =>
      rw [hphase] at hon
      exact hon
    | ended =>
      rw [hphase] at hon
      exact ⟨hon.1.trans hle, hon.2⟩
  arrived := h.arrived
  queue := h.queue

theorem step (h : Punctual limit jobs none s) (hturn : InTurn jobs round s)
    (hsound : Sound limit jobs none s) (ha : Reachable (workOf jobs) drops (.ofSchedule s))
    (ht : s.step? limit jobs = some t) : Punctual limit jobs none t := by
  rw [State.step?] at ht
  cases hnext : s.next? with
  | none =>
    rw [hnext] at ht
    obtain ⟨time, htime, rfl⟩ := Option.map_eq_some_iff.1 ht
    exact h.tick hturn hsound ha hnext htime
  | some i =>
    have hlt : i < jobs.length := hsound.length ▸ (State.isReady_of_next? hnext).1
    have hjob : jobs[i]? = some jobs[i] := List.getElem?_eq_getElem hlt
    simp only [hnext, hjob] at ht
    obtain rfl := Option.some_inj.1 ht
    exact h.turn hturn hsound ha hnext hjob

/-- **Every step of a run keeps all compiles on time.** -/
theorem steps (h : Punctual limit jobs none s) (hturn : InTurn jobs round s)
    (hsound : Sound limit jobs none s) (ha : Reachable (workOf jobs) drops (.ofSchedule s))
    (fuel : ℕ) : Punctual limit jobs none (s.steps limit jobs fuel) := by
  induction fuel generalizing s round with
  | zero => exact h
  | succ fuel ih =>
    rw [State.steps]
    split
    next t ht =>
      obtain ⟨round', hturn'⟩ := hturn.step hsound ht
      exact ih (h.step hturn hsound ha ht) hturn' (hsound.step ht)
        (Interleaving.reachable_step hsound ht ha)
    next => exact h

theorem start (limit : Option ℕ) (jobs : List Job) :
    Punctual limit jobs none (State.start 0 .empty jobs) := by
  refine ⟨fun {j} hj _ => ?_, fun {j k} hk _ _ => ⟨?_, fun h => by cases h⟩, .nil⟩
  · rw [State.phase_start hj]
    rfl
  · rw [State.phase_start hk]
    trivial

end Punctual

/-- **At the end of a run all compiles were on time.** -/
theorem punctual_run (limit : Option ℕ) (jobs : List Job) :
    Punctual limit jobs none (run limit jobs) := by
  have ha : Reachable (workOf jobs) False (.ofSchedule (State.start 0 .empty jobs)) :=
    Interleaving.reachable_run limit jobs 0
  exact (Punctual.start limit jobs).steps (.start jobs) (Sound.start 0 rfl jobs) ha _

end LiveBuild.Schedule
