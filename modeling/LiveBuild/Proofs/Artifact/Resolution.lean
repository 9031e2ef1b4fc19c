import LiveBuild.Artifact.Resolution
import Mathlib.Data.List.Basic

/-!
# What an invocation comes to

Resolution by conditions on the lists of an artifact, instead of an order in which they are
searched.

* `Selects`: the member that is meant and the arguments that it is given. A property goes before
  every method (`select?_candidates_eq_some_iff`).
* `Fails`, `Calls`: an invocation either fails before anything runs, or stands for one call; which
  of the two, and how, is what `Resolution.call?` computes (`call?_eq_error_iff`,
  `call?_eq_ok_iff`).
* `Answers`: the answer to an invocation, the state that it leaves, and the calls that were made;
* `Misfits`: the members that are meant do not fit the arguments or the target. The kind of failure
  that is reported tells these invocations apart from those whose type or member is missing, and
  from those whose call failed (`exists_fails_kind_iff`, `exists_error_kind_iff`).

An artifact that keeps a record of its calls, `Artifact.recorded`, makes the calls visible.
-/

namespace LiveBuild

variable {σ : Type}

/-- The artifact with a record of its calls, in order. -/
def Artifact.recorded (a : Artifact σ) : Artifact (σ × List Artifact.Call) where
  types := a.types
  membersOf := a.membersOf
  run c s := ((a.run c s.1).1, (a.run c s.1).2, s.2 ++ [c])

namespace Resolution

/-- The member has the name and the staticness that are asked for. -/
def Means (i : Invocation) (m : Member) : Prop :=
  m.name = i.memberName ∧ m.isStatic = i.isStatic

instance (i : Invocation) : DecidablePred (Means i) := fun _ => inferInstanceAs (Decidable (_ ∧ _))

/-- The first member of a list for which `p` holds. -/
def IsFirst (p : Member → Prop) (members : List Member) (m : Member) : Prop :=
  p m ∧ ∃ before after, members = before ++ m :: after ∧ ∀ m' ∈ before, ¬ p m'

/-- The member that an invocation means, with the arguments that it is given. -/
inductive Selects (i : Invocation) (members : List Member) : Member → List Value → Prop
  /-- The first property is taken, and given no arguments. -/
  | property {m} (h : IsFirst (fun m => Means i m ∧ m.kind = .property) members m) :
    Selects i members m []
  /-- Without a property, the first method that takes as many arguments as there are. -/
  | method {m} (hno : ∀ m ∈ members, Means i m → m.kind ≠ .property)
    (h : IsFirst (fun m => Means i m ∧ ∃ n, m.kind = .method n ∧ n.toNat = i.arguments.length)
      members m) :
    Selects i members m i.arguments

/-- The invocation fails before anything runs. -/
inductive Fails (a : Artifact σ) (i : Invocation) : Failure → Prop
  | typeNotFound (ht : i.typeName ∉ a.types) : Fails a i (.typeNotFound i.typeName)
  | memberNotFound (ht : i.typeName ∈ a.types)
    (hm : ∀ m ∈ a.membersOf i.typeName, ¬ Means i m) :
    Fails a i (.memberNotFound i.typeName i.memberName i.isStatic)
  | wrongArity (ht : i.typeName ∈ a.types) (hm : ∃ m ∈ a.membersOf i.typeName, Means i m)
    (hs : ∀ m args, ¬ Selects i (a.membersOf i.typeName) m args) :
    Fails a i (.wrongArity i.memberName
      (((a.membersOf i.typeName).filter (Means i)).filterMap (·.arity?)) i.arguments.length)
  | noTarget {m args} (ht : i.typeName ∈ a.types)
    (hs : Selects i (a.membersOf i.typeName) m args) (hi : i.isStatic = false)
    (hv : i.target = none) : Fails a i (.noTarget i.typeName)
  | wrongTarget {m args v t} (ht : i.typeName ∈ a.types)
    (hs : Selects i (a.membersOf i.typeName) m args) (hi : i.isStatic = false)
    (hv : i.target = some v) (hn : v.typeName? = some t) (hne : t ≠ i.typeName) :
    Fails a i (.wrongTarget t i.typeName)

/-- The type and the name are there, but no member that is meant takes that many arguments, or the
one that is selected needs another target. -/
inductive Misfits (a : Artifact σ) (i : Invocation) : Prop
  | arguments (ht : i.typeName ∈ a.types) (hm : ∃ m ∈ a.membersOf i.typeName, Means i m)
    (hs : ∀ m args, ¬ Selects i (a.membersOf i.typeName) m args)
  | target {m args} (ht : i.typeName ∈ a.types) (hs : Selects i (a.membersOf i.typeName) m args)
    (hi : i.isStatic = false)
    (hv : ∀ v, i.target = some v → ∃ t, v.typeName? = some t ∧ t ≠ i.typeName)

/-- The call that an invocation stands for: a target is passed to instance members only. -/
inductive Calls (a : Artifact σ) (i : Invocation) : Artifact.Call → Prop
  | static {m args} (ht : i.typeName ∈ a.types)
    (hs : Selects i (a.membersOf i.typeName) m args) (hi : i.isStatic = true) :
    Calls a i ⟨i.typeName, m, none, args⟩
  | ofInstance {m args v} (ht : i.typeName ∈ a.types)
    (hs : Selects i (a.membersOf i.typeName) m args) (hi : i.isStatic = false)
    (hv : i.target = some v) (hn : ∀ t, v.typeName? = some t → t = i.typeName) :
    Calls a i ⟨i.typeName, m, some v, args⟩

/-- The answer to an invocation in a state, the state that it leaves, and the calls on the way:
none if it fails by itself, and one otherwise. -/
inductive Answers (a : Artifact σ) (i : Invocation) (s : σ) :
    Except Failure (Option Value) → σ → List Artifact.Call → Prop
  | failed {f} (h : Fails a i f) : Answers a i s (.error f) s []
  | returned {c v t} (h : Calls a i c) (hr : a.run c s = (.returned v, t)) :
    Answers a i s (.ok v) t [c]
  | refused {c msg t} (h : Calls a i c) (hr : a.run c s = (.mismatch msg, t)) :
    Answers a i s (.error (.refused msg)) t [c]
  | threw {c msg t} (h : Calls a i c) (hr : a.run c s = (.threw msg, t)) :
    Answers a i s (.error (.threw msg)) t [c]
  | panicked {c msg t} (h : Calls a i c) (hr : a.run c s = (.panicked msg, t)) :
    Answers a i s (.error (.threw msg)) t [c]

variable {a : Artifact σ} {i : Invocation} {members : List Member} {m : Member}
  {args : List Value}

/-! ## The selected member -/

theorem candidates_eq_filter : candidates members i = members.filter (Means i) := by
  rw [candidates]
  congr 1
  funext m
  rw [Bool.eq_iff_iff, decide_eq_true_iff, Means]
  simp

theorem find?_candidates_eq_some_iff {p : Member → Bool} {q : Member → Prop}
    (h : ∀ m, p m = true ↔ q m) :
    (candidates members i).find? p = some m ↔ IsFirst (fun m => Means i m ∧ q m) members m := by
  have h' : ∀ m, p m = false ↔ ¬ q m := fun m => by rw [← h, Bool.not_eq_true]
  simp only [candidates_eq_filter, List.find?_filter, List.find?_eq_some_iff_append, IsFirst]
  simp [h, h', imp_iff_not_or]

theorem find?_candidates_eq_none_iff {p : Member → Bool} {q : Member → Prop}
    (h : ∀ m, p m = true ↔ q m) :
    (candidates members i).find? p = none ↔ ∀ m ∈ members, Means i m → ¬ q m := by
  simp [candidates_eq_filter, h]

theorem isProperty_iff (m : Member) : m.isProperty = true ↔ m.kind = .property := by
  rw [Member.isProperty, beq_iff_eq]

theorem takes_iff (n : ℕ) (m : Member) :
    takes n m = true ↔ ∃ k, m.kind = .method k ∧ k.toNat = n := by
  rw [takes, Member.arity?]
  cases m.kind <;> simp

theorem select?_candidates_eq_some_iff :
    select? (candidates members i) i.arguments = some (m, args) ↔ Selects i members m args := by
  rw [select?]
  constructor
  · intro h
    split at h
    next p hp =>
      obtain ⟨rfl, rfl⟩ := Prod.mk.inj (Option.some_inj.1 h)
      exact .property ((find?_candidates_eq_some_iff isProperty_iff).1 hp)
    next hp =>
      obtain ⟨m', hm', hmk⟩ := Option.map_eq_some_iff.1 h
      obtain ⟨rfl, rfl⟩ := Prod.mk.inj hmk
      exact .method ((find?_candidates_eq_none_iff isProperty_iff).1 hp)
        ((find?_candidates_eq_some_iff (takes_iff _)).1 hm')
  · intro h
    cases h with
    | property h => rw [(find?_candidates_eq_some_iff isProperty_iff).2 h]
    | method hno h =>
      rw [(find?_candidates_eq_none_iff isProperty_iff).2 hno,
        (find?_candidates_eq_some_iff (takes_iff _)).2 h]
      rfl

theorem select?_candidates_eq_none_iff :
    select? (candidates members i) i.arguments = none ↔ ∀ m args, ¬ Selects i members m args := by
  simp [Option.eq_none_iff_forall_ne_some, ← select?_candidates_eq_some_iff]

theorem Selects.means (h : Selects i members m args) : m ∈ members ∧ Means i m := by
  cases h with
  | property h | method _ h =>
    obtain ⟨⟨hm, -⟩, before, after, rfl, -⟩ := h
    exact ⟨by simp, hm⟩

/-! ## Failures and calls -/

theorem candidates_eq_nil_iff : candidates members i = [] ↔ ∀ m ∈ members, ¬ Means i m := by
  simp [candidates_eq_filter]

theorem candidates_ne_nil (hm : m ∈ members) (hi : Means i m) : candidates members i ≠ [] :=
  fun h => candidates_eq_nil_iff.1 h m hm hi

theorem call?_of_selects (ht : i.typeName ∈ a.types)
    (hs : Selects i (a.membersOf i.typeName) m args) :
    call? a i = if i.isStatic then .ok ⟨i.typeName, m, none, args⟩
      else (target? i).map fun v => ⟨i.typeName, m, some v, args⟩ := by
  obtain ⟨hm, hi⟩ := hs.means
  have hselect := select?_candidates_eq_some_iff.2 hs
  simp only [call?, List.contains_eq_mem, ht, decide_true, Bool.not_true, Bool.false_eq_true,
    if_false, List.isEmpty_iff, candidates_ne_nil hm hi, hselect, hi.2]

theorem call?_of_fails {f : Failure} (h : Fails a i f) : call? a i = .error f := by
  cases h with
  | typeNotFound ht => simp [call?, ht]
  | memberNotFound ht hm => simp [call?, ht, candidates_eq_nil_iff.2 hm]
  | wrongArity ht hm hs =>
    obtain ⟨m, hm, hi⟩ := hm
    have hselect := select?_candidates_eq_none_iff.2 hs
    simp only [call?, List.contains_eq_mem, ht, decide_true, Bool.not_true, Bool.false_eq_true,
      if_false, List.isEmpty_iff, candidates_ne_nil hm hi, hselect]
    rw [candidates_eq_filter]
  | noTarget ht hs hi hv =>
    rw [call?_of_selects ht hs, hi, target?, hv]
    rfl
  | wrongTarget ht hs hi hv hn hne =>
    rw [call?_of_selects ht hs, hi, target?, hv]
    simp [hn, hne, Except.map]

theorem call?_of_calls {c : Artifact.Call} (h : Calls a i c) : call? a i = .ok c := by
  cases h with
  | static ht hs hi =>
    rw [call?_of_selects ht hs, hi]
    rfl
  | @ofInstance m args v ht hs hi hv hn =>
    rw [call?_of_selects ht hs, hi, target?, hv]
    cases hv' : v.typeName? with
    | none => simp [hv', Except.map]
    | some t => simp [hv', hn t hv', Except.map]

/-- Every invocation fails or stands for a call. -/
theorem fails_or_calls (a : Artifact σ) (i : Invocation) :
    (∃ f, Fails a i f) ∨ ∃ c, Calls a i c := by
  by_cases ht : i.typeName ∈ a.types
  swap
  · exact .inl ⟨_, .typeNotFound ht⟩
  by_cases hm : ∃ m ∈ a.membersOf i.typeName, Means i m
  swap
  · exact .inl ⟨_, .memberNotFound ht fun m hm' hi => hm ⟨m, hm', hi⟩⟩
  by_cases hs : ∃ m args, Selects i (a.membersOf i.typeName) m args
  swap
  · exact .inl ⟨_, .wrongArity ht hm fun m args h => hs ⟨m, args, h⟩⟩
  obtain ⟨m, args, hs⟩ := hs
  cases hi : i.isStatic with
  | true => exact .inr ⟨_, .static ht hs hi⟩
  | false =>
    cases hv : i.target with
    | none => exact .inl ⟨_, .noTarget ht hs hi hv⟩
    | some v =>
      by_cases hn : ∀ t, v.typeName? = some t → t = i.typeName
      · exact .inr ⟨_, .ofInstance ht hs hi hv hn⟩
      · push Not at hn
        obtain ⟨t, hn, hne⟩ := hn
        exact .inl ⟨_, .wrongTarget ht hs hi hv hn hne⟩

theorem call?_eq_error_iff {f : Failure} : call? a i = .error f ↔ Fails a i f := by
  refine ⟨fun h => ?_, call?_of_fails⟩
  rcases fails_or_calls a i with ⟨f', hf⟩ | ⟨c, hc⟩
  · rw [call?_of_fails hf, Except.error.injEq] at h
    exact h ▸ hf
  · rw [call?_of_calls hc] at h
    cases h

theorem call?_eq_ok_iff {c : Artifact.Call} : call? a i = .ok c ↔ Calls a i c := by
  refine ⟨fun h => ?_, call?_of_calls⟩
  rcases fails_or_calls a i with ⟨f, hf⟩ | ⟨c', hc⟩
  · rw [call?_of_fails hf] at h
    cases h
  · rw [call?_of_calls hc, Except.ok.injEq] at h
    exact h ▸ hc

/-! ## Answers -/

/-- Keeping a record changes neither the answer nor the state of the artifact. -/
theorem invoke_eq_recorded (a : Artifact σ) (i : Invocation) (s : σ) (log : List Artifact.Call) :
    invoke a i s =
      ((invoke a.recorded i (s, log)).1, (invoke a.recorded i (s, log)).2.1) := by
  simp only [invoke, show call? a.recorded i = call? a i from rfl]
  cases call? a i <;> rfl

variable {s : σ} {log : List Artifact.Call}

theorem invoke_recorded_of_fails {f : Failure} (h : Fails a i f) :
    invoke a.recorded i (s, log) = (.error f, s, log) := by
  simp only [invoke, show call? a.recorded i = call? a i from rfl, call?_of_fails h]

theorem invoke_recorded_of_calls {c : Artifact.Call} (h : Calls a i c) :
    invoke a.recorded i (s, log) = (outcome (a.run c s).1, (a.run c s).2, log ++ [c]) := by
  simp only [invoke, show call? a.recorded i = call? a i from rfl, call?_of_calls h]
  rfl

/-- A call that is made answers the invocation. -/
theorem Calls.answers {c : Artifact.Call} (h : Calls a i c) (s : σ) :
    Answers a i s (outcome (a.run c s).1) (a.run c s).2 [c] := by
  rcases hr : a.run c s with ⟨r, t⟩
  cases r with
  | returned v => exact .returned h hr
  | mismatch msg => exact .refused h hr
  | threw msg => exact .threw h hr
  | panicked msg => exact .panicked h hr

theorem answers_iff {answer : Except Failure (Option Value)} {t : σ}
    {calls : List Artifact.Call} :
    Answers a i s answer t calls ↔
      invoke a.recorded i (s, log) = (answer, t, log ++ calls) := by
  constructor
  · intro h
    cases h with
    | failed h => rw [invoke_recorded_of_fails h, List.append_nil]
    | returned h hr | refused h hr | threw h hr | panicked h hr =>
      rw [invoke_recorded_of_calls h, hr]
      rfl
  · intro h
    rcases fails_or_calls a i with ⟨f, hf⟩ | ⟨c, hc⟩
    · rw [invoke_recorded_of_fails hf] at h
      simp only [Prod.mk.injEq, List.self_eq_append_right] at h
      obtain ⟨rfl, rfl, rfl⟩ := h
      exact .failed hf
    · rw [invoke_recorded_of_calls hc] at h
      simp only [Prod.mk.injEq, List.append_cancel_left_eq] at h
      obtain ⟨rfl, rfl, rfl⟩ := h
      exact hc.answers s

/-! ## Kinds of failures -/

/-- The kinds of failures before anything runs, and what they stand for. -/
theorem exists_fails_kind_iff (a : Artifact σ) (i : Invocation) (kind : FailureKind) :
    (∃ f, Fails a i f ∧ f.kind = kind) ↔
      (kind = .typeNotFound ∧ i.typeName ∉ a.types) ∨
      (kind = .memberNotFound ∧ i.typeName ∈ a.types ∧
        ∀ m ∈ a.membersOf i.typeName, ¬ Means i m) ∨
      (kind = .arityMismatch ∧ Misfits a i) := by
  constructor
  · rintro ⟨f, hf, rfl⟩
    cases hf with
    | typeNotFound ht => exact .inl ⟨rfl, ht⟩
    | memberNotFound ht hm => exact .inr (.inl ⟨rfl, ht, hm⟩)
    | wrongArity ht hm hs => exact .inr (.inr ⟨rfl, .arguments ht hm hs⟩)
    | noTarget ht hs hi hv =>
      refine .inr (.inr ⟨rfl, .target ht hs hi fun v hv' => ?_⟩)
      cases hv.symm.trans hv'
    | @wrongTarget m args v t ht hs hi hv hn hne =>
      refine .inr (.inr ⟨rfl, .target ht hs hi fun v' hv' => ?_⟩)
      obtain rfl := Option.some_inj.1 (hv.symm.trans hv')
      exact ⟨t, hn, hne⟩
  · rintro (⟨rfl, ht⟩ | ⟨rfl, ht, hm⟩ | ⟨rfl, hfit⟩)
    · exact ⟨_, .typeNotFound ht, rfl⟩
    · exact ⟨_, .memberNotFound ht hm, rfl⟩
    · cases hfit with
      | arguments ht hm hs => exact ⟨_, .wrongArity ht hm hs, rfl⟩
      | target ht hs hi hv =>
        cases hv' : i.target with
        | none => exact ⟨_, .noTarget ht hs hi hv', rfl⟩
        | some v =>
          obtain ⟨t, hn, hne⟩ := hv v hv'
          exact ⟨_, .wrongTarget ht hs hi hv' hn hne, rfl⟩

/-- The kinds of failures of a call, and what they stand for. -/
theorem exists_outcome_kind_iff (r : Artifact.Reply) (kind : FailureKind) :
    (∃ f, outcome r = .error f ∧ f.kind = kind) ↔
      (kind = .arityMismatch ∧ ∃ msg, r = .mismatch msg) ∨
      (kind = .invocationThrew ∧ ∃ msg, r = .threw msg ∨ r = .panicked msg) := by
  cases r <;> simp [outcome, Failure.kind, eq_comm]

/-- An invocation fails by itself, or its call does. -/
theorem invoke_eq_error_iff {f : Failure} : (invoke a i s).1 = .error f ↔
    Fails a i f ∨ ∃ c, Calls a i c ∧ outcome (a.run c s).1 = .error f := by
  simp only [← call?_eq_error_iff, ← call?_eq_ok_iff, invoke]
  cases call? a i <;> simp

theorem invoke_eq_ok_iff {v : Option Value} : (invoke a i s).1 = .ok v ↔
    ∃ c, Calls a i c ∧ (a.run c s).1 = .returned v := by
  have houtcome (r : Artifact.Reply) : outcome r = .ok v ↔ r = .returned v := by
    cases r <;> simp [outcome]
  simp only [← call?_eq_ok_iff, invoke]
  cases call? a i <;> simp [houtcome]

theorem exists_error_kind_iff {kind : FailureKind} :
    (∃ f, (invoke a i s).1 = .error f ∧ f.kind = kind) ↔ (∃ f, Fails a i f ∧ f.kind = kind) ∨
      ∃ c, Calls a i c ∧ ∃ f, outcome (a.run c s).1 = .error f ∧ f.kind = kind := by
  simp only [invoke_eq_error_iff, or_and_right, exists_or]
  refine or_congr_right ⟨?_, ?_⟩
  · rintro ⟨f, ⟨c, hc, hf⟩, hk⟩
    exact ⟨c, hc, f, hf, hk⟩
  · rintro ⟨c, hc, f, hf, hk⟩
    exact ⟨f, ⟨c, hc, hf⟩, hk⟩

/-- A member that failed is reported with a text. -/
theorem detail_threw_not_blank (msg : String) :
    (Failure.threw msg).detail.toList.all Text.isBlank = false := by
  change (Failure.orGeneral msg).toList.all Text.isBlank = false
  unfold Failure.orGeneral
  split
  next => decide
  next h => exact Bool.eq_false_iff.2 h

/-- **Resolution is sound and complete.** Every invocation has exactly one answer, which is the one
that its conditions describe, and the calls that were made are those of the description. The kind of
a failure tells what is wrong: the type, the member, or its arguments or target, which the member
may find itself; or that the member failed. -/
theorem answers_iff_invoke (a : Artifact σ) (i : Invocation) (s : σ) (log : List Artifact.Call) :
    (∃ answer t calls, Answers a i s answer t calls) ∧
    (∀ answer t calls, Answers a i s answer t calls ↔
      invoke a.recorded i (s, log) = (answer, t, log ++ calls)) ∧
    invoke a i s = ((invoke a.recorded i (s, log)).1, (invoke a.recorded i (s, log)).2.1) ∧
    ((∃ f, (invoke a i s).1 = .error f ∧ f.kind = .typeNotFound) ↔ i.typeName ∉ a.types) ∧
    ((∃ f, (invoke a i s).1 = .error f ∧ f.kind = .memberNotFound) ↔
      i.typeName ∈ a.types ∧ ∀ m ∈ a.membersOf i.typeName, ¬ Means i m) ∧
    ((∃ f, (invoke a i s).1 = .error f ∧ f.kind = .arityMismatch) ↔
      Misfits a i ∨ ∃ c, Calls a i c ∧ ∃ msg, (a.run c s).1 = .mismatch msg) ∧
    ((∃ f, (invoke a i s).1 = .error f ∧ f.kind = .invocationThrew) ↔
      ∃ c, Calls a i c ∧ ∃ msg, (a.run c s).1 = .threw msg ∨ (a.run c s).1 = .panicked msg) ∧
    (∀ v, (invoke a i s).1 = .ok v ↔ ∃ c, Calls a i c ∧ (a.run c s).1 = .returned v) ∧
    ∀ msg, (Failure.threw msg).detail.toList.all Text.isBlank = false := by
  refine ⟨?_, fun _ _ _ => answers_iff, invoke_eq_recorded a i s log, ?_, ?_, ?_, ?_,
    fun _ => invoke_eq_ok_iff, detail_threw_not_blank⟩
  · rcases fails_or_calls a i with ⟨f, hf⟩ | ⟨c, hc⟩
    · exact ⟨_, _, _, .failed hf⟩
    · exact ⟨_, _, _, hc.answers s⟩
  all_goals
    rw [exists_error_kind_iff, exists_fails_kind_iff]
    simp [exists_outcome_kind_iff]

end Resolution

end LiveBuild
