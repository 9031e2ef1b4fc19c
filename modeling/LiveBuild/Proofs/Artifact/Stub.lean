import LiveBuild.Artifact.Stub
import LiveBuild.Proofs.Artifact.Resolution

/-!
# Which body an invocation runs

A member of an artifact in memory is looked up twice. Resolution finds its description, by name,
staticness and arity; the artifact then finds the body, by the whole description. Descriptions may
be repeated, and still both end at one place (`exists_runs`): what makes resolution take a
description depends on nothing else, so that no earlier entry has the same one.

* `Stub.IsMeant`: the entry that an invocation means, in the order of the definitions;
* `Stub.Runs`: the invocation runs that body, and is not refused on the way;
* `Stub.History`: what a sequence of invocations comes to; each runs one body once, or none.
  `exists_history` is the main statement.

A body that is watched leaves a mark when it runs (`Stub.logged`), and one that is tampered with
ends in another way (`Stub.altered`). Both are a change of all bodies that leaves the descriptions
as they are (`Stub.mapBodies`).
-/

namespace LiveBuild

/-- The invocations one after the other, with their answers. -/
def Resolution.invokeAll {σ : Type} (a : Artifact σ) :
    List Invocation → σ → List (Except Failure (Option Value)) × σ
  | [], t => ([], t)
  | i :: rest, t =>
    let (answer, t) := invoke a i t
    let (answers, t) := invokeAll a rest t
    (answer :: answers, t)

namespace Stub

open Resolution

/-! ## First members of a list -/

section FirstAt

variable {α β : Type} {p q : α → Prop} {xs : List α} {k : ℕ} {x : α}

/-- The first member of a list for which `p` holds is `x`, at the place `k`. -/
structure FirstAt (p : α → Prop) (xs : List α) (k : ℕ) (x : α) : Prop where
  getElem?_eq : xs[k]? = some x
  holds : p x
  first : ∀ j < k, ∀ y, xs[j]? = some y → ¬ p y

theorem firstAt_append {before : List α} (hx : p x) (hbefore : ∀ y ∈ before, ¬ p y)
    (after : List α) : FirstAt p (before ++ x :: after) before.length x where
  getElem?_eq := by simp
  holds := hx
  first j hj y hy := by
    rw [List.getElem?_append_left hj] at hy
    exact hbefore y (List.mem_of_getElem? hy)

theorem FirstAt.find?_eq_some (h : FirstAt p xs k x) {b : α → Bool} (hb : ∀ y, b y = true ↔ p y) :
    xs.find? b = some x := by
  obtain ⟨hk, hx⟩ := List.getElem?_eq_some_iff.1 h.getElem?_eq
  refine List.find?_eq_some_iff_getElem.2 ⟨(hb x).2 h.holds, k, hk, hx, fun j hj => ?_⟩
  have hfirst : ¬ p xs[j] := h.first j hj _ (List.getElem?_eq_getElem _)
  simpa [← hb] using hfirst

/-- The member stays the first for a narrower property that it has. -/
theorem FirstAt.of_imp (h : FirstAt p xs k x) (hx : q x) (hq : ∀ y, q y → p y) :
    FirstAt q xs k x :=
  ⟨h.getElem?_eq, hx, fun j hj y hy hqy => h.first j hj y hy (hq y hqy)⟩

theorem FirstAt.mapIdx (h : FirstAt p xs k x) {f : ℕ → α → β} {r : β → Prop}
    (hr : ∀ j y, r (f j y) ↔ p y) : FirstAt r (xs.mapIdx f) k (f k x) where
  getElem?_eq := by rw [List.getElem?_mapIdx, h.getElem?_eq, Option.map_some]
  holds := (hr k x).2 h.holds
  first j hj z hz := by
    rw [List.getElem?_mapIdx] at hz
    obtain ⟨y, hy, rfl⟩ := Option.map_eq_some_iff.1 hz
    rw [hr]
    exact h.first j hj y hy

theorem exists_firstAt (hx : x ∈ xs) (hp : p x) : ∃ k y, FirstAt p xs k y := by
  classical
  have hsome : (xs.find? fun y => decide (p y)).isSome := by
    simpa using ⟨x, hx, hp⟩
  obtain ⟨y, hy⟩ := Option.isSome_iff_exists.1 hsome
  obtain ⟨hpy, before, after, rfl, hbefore⟩ := List.find?_eq_some_iff_append.1 hy
  exact ⟨_, y, firstAt_append (by simpa using hpy) (by simpa using hbefore) after⟩

end FirstAt

variable {σ τ : Type}

/-! ## Places -/

/-- The place of a body: the number of its class and its number in the class. -/
structure Place where
  classIndex : ℕ
  entryIndex : ℕ
  deriving DecidableEq, Repr

/-- In the first class with the name that is asked for, the first property with the name and the
staticness that are asked for; without such a property, the first method that takes as many
arguments as there are. -/
structure IsMeant (s : Stub σ) (i : Invocation) (p : Place) (e : Entry σ) : Prop where
  exists_class : ∃ c, FirstAt (·.name = i.typeName) s.classes p.classIndex c ∧
    (FirstAt (fun e => Means i e.info ∧ e.info.kind = .property) c.entries p.entryIndex e ∨
      (∀ e ∈ c.entries, Means i e.info → e.info.kind ≠ .property) ∧
        FirstAt (fun e => Means i e.info ∧ ∃ n, e.info.kind = .method n ∧
          n.toNat = i.arguments.length) c.entries p.entryIndex e)

/-- The entry is the one that the artifact finds by the description in a call. -/
structure IsFound (s : Stub σ) (c : Artifact.Call) (p : Place) (e : Entry σ) : Prop where
  exists_class : ∃ cl, FirstAt (·.name = c.typeName) s.classes p.classIndex cl ∧
    FirstAt (·.info = c.member) cl.entries p.entryIndex e

/-- The invocation stands for a call, the call is not refused, and the body that it runs is the one
that is meant. -/
structure Runs (s : Stub σ) (i : Invocation) (c : Artifact.Call) (p : Place) (e : Entry σ) :
    Prop where
  calls : Calls s.artifact i c
  meant : s.IsMeant i p e
  found : s.IsFound c p e
  targeted : c.member.isStatic = true ∨ c.target.isSome = true

variable {s : Stub σ} {i : Invocation} {c : Artifact.Call} {p : Place} {e : Entry σ}

theorem IsFound.lookup?_eq (h : s.IsFound c p e) : s.lookup? c.typeName c.member = some e := by
  obtain ⟨cl, hclass, hentry⟩ := h.exists_class
  rw [lookup?, class?, hclass.find?_eq_some fun _ => beq_iff_eq, Option.bind_some]
  exact hentry.find?_eq_some fun _ => beq_iff_eq

theorem IsFound.run_eq (h : s.IsFound c p e)
    (htarget : c.member.isStatic = true ∨ c.target.isSome = true) (t : σ) :
    s.run c t = e.body c.target c.arguments t := by
  have hgo : (!c.member.isStatic && c.target.isNone) = false := by
    rcases htarget with h | h <;> simp [h, ← Option.not_isSome]
  simp only [run, h.lookup?_eq, hgo, Bool.false_eq_true, if_false]

/-! ## Both searches end at one place -/

/-- The first description with a property belongs to the first entry with it. -/
theorem exists_firstAt_of_isFirst {q : Member → Prop} {entries : List (Entry σ)} {m : Member}
    (h : IsFirst q (entries.map (·.info)) m) :
    ∃ k e, e.info = m ∧ FirstAt (fun e => q e.info) entries k e := by
  obtain ⟨hm, before, after, hsplit, hbefore⟩ := h
  obtain ⟨l, l', rfl, rfl, hl'⟩ := List.map_eq_append_iff.1 hsplit
  obtain ⟨e, l', rfl, rfl, -⟩ := List.map_eq_cons_iff.1 hl'
  have hl : ∀ y ∈ l, ¬ q y.info := fun y hy => hbefore y.info (List.mem_map_of_mem hy)
  exact ⟨l.length, e, rfl, firstAt_append (p := fun e => q e.info) hm hl l'⟩

/-- What resolution takes, the artifact finds. The entry is the first that fits the invocation, and
every entry with its description fits, so that it is the first with its description. -/
theorem exists_isMeant_isFound {m : Member} {args : List Value} (ht : i.typeName ∈ s.artifact.types)
    (hs : Selects i (s.artifact.membersOf i.typeName) m args) :
    ∃ p e, s.IsMeant i p e ∧ ∀ target, s.IsFound ⟨i.typeName, m, target, args⟩ p e := by
  obtain ⟨cl, hcl, hname⟩ := List.mem_map.1 ht
  obtain ⟨k, cl, hclass⟩ := exists_firstAt (p := (·.name = i.typeName)) hcl hname
  have hmembers : s.artifact.membersOf i.typeName = cl.entries.map (·.info) := by
    have hfind : s.class? i.typeName = some cl := hclass.find?_eq_some fun _ => beq_iff_eq
    simp only [artifact, membersOf, hfind]
  rw [hmembers] at hs
  cases hs with
  | property h =>
    obtain ⟨j, e, rfl, hentry⟩ := exists_firstAt_of_isFirst h
    refine ⟨⟨k, j⟩, e, ⟨cl, hclass, .inl hentry⟩, fun _ => ⟨cl, hclass, ?_⟩⟩
    exact hentry.of_imp rfl fun y hy => by
      simpa only [show y.info = e.info from hy] using hentry.holds
  | method hno h =>
    obtain ⟨j, e, rfl, hentry⟩ := exists_firstAt_of_isFirst h
    have hno' : ∀ e ∈ cl.entries, Means i e.info → e.info.kind ≠ .property :=
      fun e he => hno e.info (List.mem_map_of_mem he)
    refine ⟨⟨k, j⟩, e, ⟨cl, hclass, .inr ⟨hno', hentry⟩⟩, fun _ => ⟨cl, hclass, ?_⟩⟩
    exact hentry.of_imp rfl fun y hy => by
      simpa only [show y.info = e.info from hy] using hentry.holds

/-- **A call runs the body that is meant**, and the artifact does not refuse it. -/
theorem exists_runs (hc : Calls s.artifact i c) : ∃ p e, s.Runs i c p e := by
  cases hc with
  | static ht hs hi =>
    obtain ⟨p, e, hmeant, hfound⟩ := exists_isMeant_isFound ht hs
    exact ⟨p, e, .static ht hs hi, hmeant, hfound _, .inl (hs.means.2.2.trans hi)⟩
  | ofInstance ht hs hi hv hn =>
    obtain ⟨p, e, hmeant, hfound⟩ := exists_isMeant_isFound ht hs
    exact ⟨p, e, .ofInstance ht hs hi hv hn, hmeant, hfound _, .inr rfl⟩

theorem fails_or_runs (s : Stub σ) (i : Invocation) :
    (∃ f, Fails s.artifact i f) ∨ ∃ c p e, s.Runs i c p e := by
  rcases fails_or_calls s.artifact i with hf | ⟨c, hc⟩
  · exact .inl hf
  · exact .inr ⟨c, exists_runs hc⟩

/-! ## Changes of all bodies -/

/-- Every body is replaced, which may depend on its place. -/
def mapBodies (s : Stub σ) (f : Place → Body σ → Body τ) : Stub τ :=
  ⟨s.classes.mapIdx fun k c =>
    ⟨c.name, c.entries.mapIdx fun j e => ⟨e.info, f ⟨k, j⟩ e.body⟩⟩⟩

/-- Each body leaves its place in a log when it runs. -/
def logged (s : Stub σ) : Stub (σ × List Place) :=
  s.mapBodies fun p body target args t =>
    ((body target args t.1).1, ((body target args t.1).2, t.2 ++ [p]))

/-- Each body does what it does, but ends in another way. -/
def altered (s : Stub σ) (alter : Place → σ → Artifact.Reply → Artifact.Reply) : Stub σ :=
  s.mapBodies fun p body target args t =>
    (alter p t (body target args t).1, (body target args t).2)

/-- The descriptions in an artifact. -/
def outline (s : Stub σ) : List (String × List Member) :=
  s.classes.map fun c => (c.name, c.entries.map (·.info))

theorem outline_mapBodies (s : Stub σ) (f : Place → Body σ → Body τ) :
    (s.mapBodies f).outline = s.outline := by
  refine List.ext_getElem? fun k => ?_
  have hentries (c : Class σ) : (c.entries.mapIdx fun j e =>
      (⟨e.info, f ⟨k, j⟩ e.body⟩ : Entry τ)).map (·.info) = c.entries.map (·.info) := by
    refine List.ext_getElem? fun j => ?_
    simp [Function.comp_def]
  simp [outline, mapBodies, Function.comp_def, hentries]

theorem membersOf_eq (s : Stub σ) (name : String) :
    s.membersOf name = ((s.outline.find? (·.1 == name)).map (·.2)).getD [] := by
  rw [outline, List.find?_map, Option.map_map, membersOf, class?]
  simp only [Function.comp_def]
  cases s.classes.find? fun c => c.name == name <;> rfl

/-- Resolution sees the descriptions only. -/
theorem call?_eq_of_outline_eq {s : Stub σ} {s' : Stub τ} (h : s.outline = s'.outline)
    (i : Invocation) : call? s.artifact i = call? s'.artifact i := by
  have htypes : s.artifact.types = s'.artifact.types := by
    simpa [outline, artifact, Function.comp_def] using congrArg (List.map Prod.fst) h
  have hmembers : s.artifact.membersOf i.typeName = s'.artifact.membersOf i.typeName := by
    simp only [artifact, membersOf_eq, h]
  simp only [call?, htypes, hmembers]

variable {f : Place → Body σ → Body τ}

theorem IsFound.mapBodies (h : s.IsFound c p e) :
    (s.mapBodies f).IsFound c p ⟨e.info, f p e.body⟩ := by
  obtain ⟨cl, hclass, hentry⟩ := h.exists_class
  exact ⟨_, hclass.mapIdx fun _ _ => Iff.rfl, hentry.mapIdx fun _ _ => Iff.rfl⟩

/-! ## One invocation -/

theorem invoke_of_fails {x : Failure} (h : Fails s.artifact i x) (t : τ) :
    invoke (s.mapBodies f).artifact i t = (.error x, t) := by
  have hcall : call? (s.mapBodies f).artifact i = .error x :=
    (call?_eq_of_outline_eq (outline_mapBodies s f) i).trans (call?_of_fails h)
  simp only [invoke, hcall]

/-- The invocation runs the body that is meant, whatever the bodies are. -/
theorem Runs.invoke_mapBodies (h : s.Runs i c p e) (t : τ) :
    invoke (s.mapBodies f).artifact i t =
      (outcome (f p e.body c.target c.arguments t).1, (f p e.body c.target c.arguments t).2) := by
  have hcall : call? (s.mapBodies f).artifact i = .ok c :=
    (call?_eq_of_outline_eq (outline_mapBodies s f) i).trans (call?_of_calls h.calls)
  have hrun : (s.mapBodies f).artifact.run c t = f p e.body c.target c.arguments t :=
    h.found.mapBodies.run_eq h.targeted t
  simp only [invoke, hcall, hrun]

/-! ## Sequences of invocations -/

/-- What invocations come to, one after the other: the answers, the state that is left, and the
places of the bodies that ran. -/
inductive History (s : Stub σ) :
    List Invocation → σ → List (Except Failure (Option Value)) → σ → List Place → Prop
  | nil {t} : History s [] t [] t []
  /-- An invocation that fails by itself runs no body, and leaves the state as it is. -/
  | failed {i rest t x answers t' places} (h : Fails s.artifact i x)
    (hrest : History s rest t answers t' places) :
    History s (i :: rest) t (.error x :: answers) t' places
  /-- Every other runs one body once, whose reply is the answer. -/
  | ran {i c p e rest t answers t' places} (h : s.Runs i c p e)
    (hrest : History s rest (e.body c.target c.arguments t).2 answers t' places) :
    History s (i :: rest) t (outcome (e.body c.target c.arguments t).1 :: answers) t' (p :: places)

theorem history_invokeAll (s : Stub σ) (is : List Invocation) (t : σ) :
    ∃ places,
      s.History is t (invokeAll s.artifact is t).1 (invokeAll s.artifact is t).2 places := by
  induction is generalizing t with
  | nil => exact ⟨[], .nil⟩
  | cons i rest ih =>
    rcases fails_or_runs s i with ⟨x, hx⟩ | ⟨c, p, e, hrun⟩
    · obtain ⟨places, hrest⟩ := ih t
      refine ⟨places, ?_⟩
      simp only [invokeAll, invoke, call?_of_fails hx]
      exact .failed hx hrest
    · obtain ⟨places, hrest⟩ := ih (e.body c.target c.arguments t).2
      refine ⟨p :: places, ?_⟩
      have hbody : s.artifact.run c t = e.body c.target c.arguments t :=
        hrun.found.run_eq hrun.targeted t
      simp only [invokeAll, invoke, call?_of_calls hrun.calls, hbody]
      exact .ran hrun hrest

section

variable {is : List Invocation} {t t' : σ} {answers : List (Except Failure (Option Value))}
  {places : List Place}

/-- The log grows by the places of the bodies that ran. -/
theorem History.invokeAll_logged (h : s.History is t answers t' places) (log : List Place) :
    invokeAll s.logged.artifact is (t, log) = (answers, t', log ++ places) := by
  unfold logged
  induction h generalizing log with
  | nil => simp only [invokeAll, List.append_nil]
  | failed h _ ih => simp only [invokeAll, invoke_of_fails h, ih]
  | ran h _ ih =>
    simp only [invokeAll, h.invoke_mapBodies, ih, List.append_assoc, List.singleton_append]

/-- However the bodies end, they leave the same state. -/
theorem History.invokeAll_altered (h : s.History is t answers t' places)
    (alter : Place → σ → Artifact.Reply → Artifact.Reply) :
    (invokeAll (s.altered alter).artifact is t).2 = t' := by
  induction h with
  | nil => rfl
  | failed h _ ih => simpa only [invokeAll, altered, invoke_of_fails h] using ih
  | ran h _ ih => simpa only [invokeAll, altered, h.invoke_mapBodies] using ih

end

/-- **Both searches agree on the body, through every sequence of invocations.** Each invocation runs
the body that is meant, once, or fails before and runs none. The bodies may do to the state whatever
they like; how they end makes no difference to what is answered later. -/
theorem exists_history (s : Stub σ) (is : List Invocation) (t : σ) :
    ∃ answers t' places, s.History is t answers t' places ∧
      invokeAll s.artifact is t = (answers, t') ∧
      (∀ log, invokeAll s.logged.artifact is (t, log) = (answers, t', log ++ places)) ∧
      ∀ alter later, invokeAll s.artifact later (invokeAll (s.altered alter).artifact is t).2 =
        invokeAll s.artifact later t' := by
  obtain ⟨places, h⟩ := history_invokeAll s is t
  refine ⟨_, _, places, h, rfl, h.invokeAll_logged, fun alter later => ?_⟩
  rw [h.invokeAll_altered alter]

/-- A class is defined twice, and the first has a property beside a method of one name, and a method
of the type itself. -/
def overlapping : Stub Unit where
  classes := [
    ⟨"T", [⟨(Member.method "f" 0 true).hidden, fun _ _ t => (.panicked "", t)⟩,
      .instanceMethod "f" 1 fun v _ t => (.returned (some v), t),
      .instanceProperty "f" fun _ t => (.threw "no", t),
      .staticMethod "f" 0 fun _ t => (.returned none, t)]⟩,
    ⟨"T", [.staticMethod "g" 0 fun _ t => (.returned none, t)]⟩]

example : (invokeAll overlapping.logged.artifact [.static "T" "f", .static "T" "g",
    .ofInstance "T" "f" (.int 1), .static "T" "f"] ((), [])).2.2 = [⟨0, 0⟩, ⟨0, 2⟩, ⟨0, 0⟩] := by
  decide +kernel

end Stub

end LiveBuild
