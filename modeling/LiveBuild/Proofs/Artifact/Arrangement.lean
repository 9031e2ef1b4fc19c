import LiveBuild.Proofs.Artifact.Stub
import Mathlib.Data.List.Forall2
import Mathlib.Data.List.Nodup
import Mathlib.Data.List.Perm.Basic

/-!
# Order and visibility of members

Neither the order in which the members of a class are defined nor their visibility has an influence
on what an invocation comes to. `invoke_of_matches` is the main statement.

A member without its visibility, `Member.published`, is a name, a kind and a staticness. What
resolution asks of a member depends on nothing else, and if no two members of a class agree in all
three, then at most one can be asked for; so the first one in any order is the same
(`Selects.of_perm`). The lookup of its body goes by the whole description, visibility included, and
ends at a member with the same three (`Runs.of_matches`).

* `Stub.Matches`: the classes are the same up to the order and the visibility of their members;
* `Stub.IsUnambiguous`: no two members of a class agree in name, kind and staticness;
* `Stub.Corresponds`: two places hold the same member with the same body;
* `Resolution.Agrees`: two answers are the same up to the order of the arities in a failure.
-/

namespace LiveBuild

variable {σ : Type}

/-! ## Members without their visibility -/

namespace Member

/-- The member as if it were public. -/
def published (m : Member) : Member := { m with visibility := .isPublic }

theorem published_eq_iff {m m' : Member} : m.published = m'.published ↔
    m.name = m'.name ∧ m.kind = m'.kind ∧ m.isStatic = m'.isStatic := by
  simp [published]

end Member

/-! ## Answers -/

/-- Two failures are the same, but for the order in which arities are listed. -/
inductive Failure.Agrees : Failure → Failure → Prop
  | refl (f : Failure) : Agrees f f
  | wrongArity {arities arities'} (name : String) (h : arities.Perm arities') (supplied : ℕ) :
    Agrees (.wrongArity name arities supplied) (.wrongArity name arities' supplied)

theorem Failure.Agrees.kind_eq {f f' : Failure} (h : f.Agrees f') : f.kind = f'.kind := by
  cases h <;> rfl

namespace Resolution

/-- Two answers are the same value, or failures that are the same but for the order of arities. -/
inductive Agrees : Except Failure (Option Value) → Except Failure (Option Value) → Prop
  | ok (v : Option Value) : Agrees (.ok v) (.ok v)
  | error {f f'} (h : f.Agrees f') : Agrees (.error f) (.error f')

/-- Answers that agree are both values, and then the same, or failures of one kind. -/
theorem Agrees.mapError_kind {answer answer' : Except Failure (Option Value)}
    (h : Agrees answer answer') : answer.mapError (·.kind) = answer'.mapError (·.kind) := by
  cases h with
  | ok v => rfl
  | error h => exact congrArg Except.error h.kind_eq

theorem Agrees.refl (answer : Except Failure (Option Value)) : Agrees answer answer := by
  cases answer with
  | ok v => exact .ok v
  | error f => exact .error (.refl f)

/-! ## The member that is meant -/

variable {i : Invocation} {members members' : List Member} {m : Member} {args : List Value}

/-- In a list without repetitions, the one member that can have a property is the first with it. -/
theorem isFirst_of_unique {p : Member → Prop} (hn : (members.map Member.published).Nodup)
    (hp : ∀ x y, p x → p y → x.published = y.published) (hm : m ∈ members) (hpm : p m) :
    IsFirst p members m := by
  obtain ⟨before, after, rfl⟩ := List.append_of_mem hm
  refine ⟨hpm, before, after, rfl, fun x hx hpx => ?_⟩
  rw [List.map_append, List.map_cons] at hn
  have hnot : m.published ∉ before.map Member.published := fun h =>
    (List.nodup_append.1 hn).2.2 _ h _ List.mem_cons_self rfl
  exact hnot (hp x m hpx hpm ▸ List.mem_map_of_mem hx)

theorem exists_mem_of_perm
    (h : (members.map Member.published).Perm (members'.map Member.published)) (hm : m ∈ members) :
    ∃ m' ∈ members', m'.published = m.published :=
  List.mem_map.1 (h.subset (List.mem_map_of_mem hm))

/-- What is asked of a property leaves one description. -/
theorem published_eq_of_property {x y : Member} (hx : Means i x ∧ x.kind = .property)
    (hy : Means i y ∧ y.kind = .property) : x.published = y.published :=
  Member.published_eq_iff.2
    ⟨hx.1.1.trans hy.1.1.symm, hx.2.trans hy.2.symm, hx.1.2.trans hy.1.2.symm⟩

/-- What is asked of a method leaves one description. -/
theorem published_eq_of_method {x y : Member}
    (hx : Means i x ∧ ∃ n, x.kind = .method n ∧ n.toNat = i.arguments.length)
    (hy : Means i y ∧ ∃ n, y.kind = .method n ∧ n.toNat = i.arguments.length) :
    x.published = y.published := by
  obtain ⟨⟨hxname, hxstatic⟩, n, hxkind, hn⟩ := hx
  obtain ⟨⟨hyname, hystatic⟩, k, hykind, hk⟩ := hy
  obtain rfl : n = k := UInt64.toNat_inj.1 (hn.trans hk.symm)
  exact Member.published_eq_iff.2
    ⟨hxname.trans hyname.symm, hxkind.trans hykind.symm, hxstatic.trans hystatic.symm⟩

/-- Members of one description are asked for by the same invocations. -/
theorem means_of_published_eq {m' : Member} (h : m'.published = m.published) (hm : Means i m) :
    Means i m' := by
  obtain ⟨hname, -, hstatic⟩ := Member.published_eq_iff.1 h
  exact ⟨hname.trans hm.1, hstatic.trans hm.2⟩

theorem kind_eq_of_published_eq {m' : Member} (h : m'.published = m.published) :
    m'.kind = m.kind := (Member.published_eq_iff.1 h).2.1

/-- **The same member is meant in every order and with every visibility.** -/
theorem Selects.of_perm (h : (members.map Member.published).Perm (members'.map Member.published))
    (hn : (members.map Member.published).Nodup) (hs : Selects i members m args) :
    ∃ m', m'.published = m.published ∧ Selects i members' m' args := by
  have hn' : (members'.map Member.published).Nodup := h.nodup_iff.1 hn
  have hmem := hs.means.1
  obtain ⟨m', hm', heq⟩ := exists_mem_of_perm h hmem
  refine ⟨m', heq, ?_⟩
  cases hs with
  | property hfirst =>
    have hp : Means i m' ∧ m'.kind = .property :=
      ⟨means_of_published_eq heq hfirst.1.1, (kind_eq_of_published_eq heq).trans hfirst.1.2⟩
    exact .property (isFirst_of_unique hn' (fun _ _ => published_eq_of_property) hm' hp)
  | method hno hfirst =>
    obtain ⟨⟨hmeans, n, hkind, hlength⟩, -⟩ := hfirst
    have hp : Means i m' ∧ ∃ n, m'.kind = .method n ∧ n.toNat = i.arguments.length :=
      ⟨means_of_published_eq heq hmeans, n, (kind_eq_of_published_eq heq).trans hkind, hlength⟩
    refine .method (fun x hx hmeans' hproperty => ?_)
      (isFirst_of_unique hn' (fun _ _ => published_eq_of_method) hm' hp)
    -- a property among the others would be a property here
    obtain ⟨y, hy, hyx⟩ := exists_mem_of_perm h.symm hx
    exact hno y hy (means_of_published_eq hyx hmeans')
      ((kind_eq_of_published_eq hyx).trans hproperty)

/-- The arities of the candidates are the same, in some order. -/
theorem perm_arities (h : (members.map Member.published).Perm (members'.map Member.published)) :
    ((members.filter (Means i)).filterMap (·.arity?)).Perm
      ((members'.filter (Means i)).filterMap (·.arity?)) := by
  have hpublished (ms : List Member) : (ms.filter (Means i)).filterMap (·.arity?) =
      ((ms.map Member.published).filter (Means i)).filterMap (·.arity?) := by
    rw [List.filter_map, List.filterMap_map]
    rfl
  rw [hpublished members, hpublished members']
  exact (h.filter _).filterMap _

end Resolution

namespace Stub

open Resolution

/-! ## Classes that match -/

section

variable {α β : Type} {r : α → β → Prop} {p : α → Prop} {xs : List α} {ys : List β} {k j : ℕ}
  {x y : α}

theorem exists_getElem?_of_forall₂ (h : List.Forall₂ r xs ys) (hx : xs[k]? = some x) :
    ∃ y, ys[k]? = some y ∧ r x y := by
  induction h generalizing k with
  | nil => simp at hx
  | @cons a b _ _ hab _ ih =>
    cases k with
    | zero => exact ⟨b, rfl, Option.some_inj.1 hx ▸ hab⟩
    | succ k => exact ih hx

theorem FirstAt.unique (h : FirstAt p xs k x) (h' : FirstAt p xs j y) : k = j ∧ x = y := by
  have hkj : k = j := by
    rcases Nat.lt_trichotomy k j with hlt | heq | hgt
    · exact absurd h.holds (h'.first k hlt x h.getElem?_eq)
    · exact heq
    · exact absurd h'.holds (h.first j hgt y h'.getElem?_eq)
  subst hkj
  exact ⟨rfl, Option.some_inj.1 (h.getElem?_eq.symm.trans h'.getElem?_eq)⟩

end

/-- The entry as if its member were public. -/
def Entry.published (e : Entry σ) : Entry σ := ⟨e.info.published, e.body⟩

/-- Two classes have the same name and the same members with the same bodies, in some order and with
any visibility. -/
structure Class.Matches (c c' : Class σ) : Prop where
  name_eq : c.name = c'.name
  perm : (c.entries.map Entry.published).Perm (c'.entries.map Entry.published)

/-- Two artifacts have the same classes in the same order, each up to the order and the visibility
of its members. -/
def Matches (s s' : Stub σ) : Prop := List.Forall₂ Class.Matches s.classes s'.classes

/-- No two members of a class agree in name, kind and staticness. -/
def IsUnambiguous (s : Stub σ) : Prop :=
  ∀ c ∈ s.classes, (c.entries.map (·.info.published)).Nodup

/-- The entry at a place. -/
def entryAt (s : Stub σ) (p : Place) : Option (Entry σ) :=
  (s.classes[p.classIndex]?).bind (·.entries[p.entryIndex]?)

/-- Two places are in classes of the same number, and hold the same member with the same body, but
for the visibility. -/
structure Corresponds (s s' : Stub σ) (p p' : Place) : Prop where
  classIndex_eq : p.classIndex = p'.classIndex
  exists_entry : ∃ e e', s.entryAt p = some e ∧ s'.entryAt p' = some e' ∧
    e.published = e'.published

variable {s s' : Stub σ} {i : Invocation} {c : Artifact.Call} {p p' : Place} {e e' : Entry σ}

namespace Class.Matches

variable {cl cl' : Class σ}

theorem symm (h : cl.Matches cl') : cl'.Matches cl := ⟨h.name_eq.symm, h.perm.symm⟩

theorem perm_published (h : cl.Matches cl') :
    (cl.entries.map (·.info.published)).Perm (cl'.entries.map (·.info.published)) := by
  simpa only [List.map_map, Function.comp_def, Entry.published] using h.perm.map (·.info)

/-- The members that two classes agree in have the same bodies. -/
theorem published_eq (h : cl.Matches cl') (hn : (cl.entries.map (·.info.published)).Nodup)
    (he : e ∈ cl.entries) (he' : e' ∈ cl'.entries)
    (heq : e.info.published = e'.info.published) : e.published = e'.published := by
  have hmem : e.published ∈ cl'.entries.map Entry.published :=
    h.perm.subset (List.mem_map_of_mem he)
  obtain ⟨x, hx, hxe⟩ := List.mem_map.1 hmem
  have hinfo : x.info.published = e'.info.published := (congrArg Entry.info hxe).trans heq
  have hn' : (cl'.entries.map (·.info.published)).Nodup := h.perm_published.nodup_iff.1 hn
  rw [← hxe, List.inj_on_of_nodup_map hn' hx he' hinfo]

end Class.Matches

namespace Matches

theorem symm (h : s.Matches s') : s'.Matches s := by
  unfold Matches at h ⊢
  exact h.flip.imp fun _ _ => Class.Matches.symm

theorem types_eq (h : s.Matches s') : s.artifact.types = s'.artifact.types := by
  obtain ⟨classes⟩ := s
  obtain ⟨classes'⟩ := s'
  change classes.map (·.name) = classes'.map (·.name)
  change List.Forall₂ Class.Matches classes classes' at h
  induction h with
  | nil => rfl
  | cons hc _ ih => rw [List.map_cons, List.map_cons, hc.name_eq, ih]

/-- The first classes of a name match, and stand at one place. -/
theorem exists_firstAt {name : String} {k : ℕ} {cl : Class σ} (h : s.Matches s')
    (hc : FirstAt (·.name = name) s.classes k cl) :
    ∃ cl', FirstAt (·.name = name) s'.classes k cl' ∧ cl.Matches cl' := by
  obtain ⟨cl', hk, hcl⟩ := exists_getElem?_of_forall₂ h hc.getElem?_eq
  refine ⟨cl', ⟨hk, hcl.name_eq.symm.trans hc.holds, fun j hj y hy hname => ?_⟩, hcl⟩
  obtain ⟨x, hx, hxy⟩ := exists_getElem?_of_forall₂ h.symm hy
  exact hc.first j hj x hx (hxy.name_eq.symm.trans hname)

end Matches

theorem IsUnambiguous.of_matches (hs : s.IsUnambiguous) (h : s.Matches s') :
    s'.IsUnambiguous := by
  intro cl' hcl'
  obtain ⟨k, hk⟩ := List.getElem?_of_mem hcl'
  obtain ⟨cl, hcl, hmatch⟩ := exists_getElem?_of_forall₂ h.symm hk
  exact hmatch.perm_published.nodup_iff.2 (hs cl (List.mem_of_getElem? hcl))

theorem membersOf_of_firstAt {name : String} {k : ℕ} {cl : Class σ}
    (hc : FirstAt (·.name = name) s.classes k cl) :
    s.artifact.membersOf name = cl.entries.map (·.info) := by
  have hfind : s.class? name = some cl := hc.find?_eq_some fun _ => beq_iff_eq
  simp only [artifact, membersOf, hfind]

/-- The members of a type match, and none of them is described twice. -/
theorem Matches.membersOf {name : String} (h : s.Matches s') (hs : s.IsUnambiguous)
    (ht : name ∈ s.artifact.types) :
    ((s.artifact.membersOf name).map Member.published).Perm
        ((s'.artifact.membersOf name).map Member.published) ∧
      ((s.artifact.membersOf name).map Member.published).Nodup := by
  obtain ⟨cl, hcl, hname⟩ := List.mem_map.1 ht
  obtain ⟨k, cl, hclass⟩ := Stub.exists_firstAt (p := (·.name = name)) hcl hname
  obtain ⟨cl', hclass', hmatch⟩ := h.exists_firstAt hclass
  rw [membersOf_of_firstAt hclass, membersOf_of_firstAt hclass', List.map_map, List.map_map]
  exact ⟨hmatch.perm_published, hs cl (List.mem_of_getElem? hclass.getElem?_eq)⟩

/-! ## Failures, calls and bodies -/

variable {f : Failure}

/-- Both artifacts fail alike. -/
theorem fails_of_matches (h : s.Matches s') (hs : s.IsUnambiguous) (hf : Fails s.artifact i f) :
    ∃ f', Fails s'.artifact i f' ∧ f.Agrees f' := by
  have htypes := h.types_eq
  cases hf with
  | typeNotFound ht => exact ⟨_, .typeNotFound (htypes ▸ ht), .refl _⟩
  | memberNotFound ht hm =>
    obtain ⟨hperm, -⟩ := h.membersOf hs ht
    refine ⟨_, .memberNotFound (htypes ▸ ht) fun m hm' hmeans => ?_, .refl _⟩
    obtain ⟨x, hx, hxm⟩ := exists_mem_of_perm hperm.symm hm'
    exact hm x hx (means_of_published_eq hxm hmeans)
  | wrongArity ht hm hno =>
    obtain ⟨hperm, hn⟩ := h.membersOf hs ht
    obtain ⟨m, hm, hmeans⟩ := hm
    obtain ⟨m', hm', heq⟩ := exists_mem_of_perm hperm hm
    refine ⟨_, .wrongArity (htypes ▸ ht) ⟨m', hm', means_of_published_eq heq hmeans⟩ ?_,
      .wrongArity _ (perm_arities hperm) _⟩
    intro x args hx
    obtain ⟨y, -, hy⟩ := hx.of_perm hperm.symm (hperm.nodup_iff.1 hn)
    exact hno y args hy
  | noTarget ht hsel hi hv =>
    obtain ⟨hperm, hn⟩ := h.membersOf hs ht
    obtain ⟨m', -, hsel'⟩ := hsel.of_perm hperm hn
    exact ⟨_, .noTarget (htypes ▸ ht) hsel' hi hv, .refl _⟩
  | wrongTarget ht hsel hi hv hname hne =>
    obtain ⟨hperm, hn⟩ := h.membersOf hs ht
    obtain ⟨m', -, hsel'⟩ := hsel.of_perm hperm hn
    exact ⟨_, .wrongTarget (htypes ▸ ht) hsel' hi hv hname hne, .refl _⟩

/-- Both artifacts are called alike. -/
theorem calls_of_matches (h : s.Matches s') (hs : s.IsUnambiguous) (hc : Calls s.artifact i c) :
    ∃ m, m.published = c.member.published ∧
      Calls s'.artifact i { c with member := m } := by
  have htypes := h.types_eq
  cases hc with
  | static ht hsel hi =>
    obtain ⟨hperm, hn⟩ := h.membersOf hs ht
    obtain ⟨m', heq, hsel'⟩ := hsel.of_perm hperm hn
    exact ⟨m', heq, .static (htypes ▸ ht) hsel' hi⟩
  | ofInstance ht hsel hi hv hname =>
    obtain ⟨hperm, hn⟩ := h.membersOf hs ht
    obtain ⟨m', heq, hsel'⟩ := hsel.of_perm hperm hn
    exact ⟨m', heq, .ofInstance (htypes ▸ ht) hsel' hi hv hname⟩

theorem entryAt_eq {cl : Class σ} (hcl : s.classes[p.classIndex]? = some cl)
    (he : cl.entries[p.entryIndex]? = some e) : s.entryAt p = some e := by
  rw [entryAt, hcl, Option.bind_some, he]

/-- **The same body runs**, with the same target and the same arguments. The call is found by its
whole description, and in each artifact one entry has the name, the kind and the staticness. -/
theorem Runs.of_matches (h : s.Matches s') (hs : s.IsUnambiguous) (hr : s.Runs i c p e) :
    ∃ m p' e', s'.Runs i { c with member := m } p' e' ∧ e'.body = e.body ∧
      Corresponds s s' p p' := by
  obtain ⟨m, hm, hcalls⟩ := calls_of_matches h hs hr.calls
  obtain ⟨p', e', hr'⟩ := exists_runs hcalls
  obtain ⟨cl, hcl, hentry⟩ := hr.found.exists_class
  obtain ⟨cl', hcl', hentry'⟩ := hr'.found.exists_class
  obtain ⟨cl'', hcl'', hmatch⟩ := h.exists_firstAt hcl
  obtain ⟨hindex, rfl⟩ := hcl''.unique hcl'
  have hn := hs cl (List.mem_of_getElem? hcl.getElem?_eq)
  have hinfo : e.info.published = e'.info.published := by
    rw [hentry.holds, hentry'.holds, hm]
  have heq : e.published = e'.published :=
    hmatch.published_eq hn (List.mem_of_getElem? hentry.getElem?_eq)
      (List.mem_of_getElem? hentry'.getElem?_eq) hinfo
  refine ⟨m, p', e', hr', (congrArg Entry.body heq).symm, hindex, e, e', ?_, ?_, heq⟩
  · exact entryAt_eq hcl.getElem?_eq hentry.getElem?_eq
  · exact entryAt_eq hcl'.getElem?_eq hentry'.getElem?_eq

/-! ## Invocations -/

/-- What one invocation comes to, and the place of the body that it runs, if it runs one. -/
theorem Runs.invoke_eq (hr : s.Runs i c p e) (t : σ) :
    invoke s.artifact i t =
      (outcome (e.body c.target c.arguments t).1, (e.body c.target c.arguments t).2) := by
  have hbody : s.artifact.run c t = e.body c.target c.arguments t :=
    hr.found.run_eq hr.targeted t
  simp only [invoke, call?_of_calls hr.calls, hbody]

/-- **Neither order nor visibility matters.** Whatever is invoked, both artifacts give the same
value, or failures of one kind that say the same but for the order of the arities; they leave the
same state; and the bodies that they ran on the way, one or none, are the same. -/
theorem invoke_of_matches (h : s.Matches s') (hs : s.IsUnambiguous) (i : Invocation) (t : σ) :
    (invoke s.artifact i t).1.mapError (·.kind) = (invoke s'.artifact i t).1.mapError (·.kind) ∧
    Agrees (invoke s.artifact i t).1 (invoke s'.artifact i t).1 ∧
    (invoke s.artifact i t).2 = (invoke s'.artifact i t).2 ∧
    ∃ places places', List.Forall₂ (Corresponds s s') places places' ∧
      (∀ log, invoke s.logged.artifact i (t, log) =
        ((invoke s.artifact i t).1, (invoke s.artifact i t).2, log ++ places)) ∧
      ∀ log, invoke s'.logged.artifact i (t, log) =
        ((invoke s'.artifact i t).1, (invoke s'.artifact i t).2, log ++ places') := by
  rcases fails_or_runs s i with ⟨f, hf⟩ | ⟨c, p, e, hr⟩
  · obtain ⟨f', hf', hagree⟩ := fails_of_matches h hs hf
    have hinvoke : invoke s.artifact i t = (.error f, t) := by
      simp only [invoke, call?_of_fails hf]
    have hinvoke' : invoke s'.artifact i t = (.error f', t) := by
      simp only [invoke, call?_of_fails hf']
    rw [hinvoke, hinvoke']
    refine ⟨(Agrees.error hagree).mapError_kind, .error hagree, rfl, [], [], .nil, fun log => ?_,
      fun log => ?_⟩
    · rw [logged, invoke_of_fails hf, List.append_nil]
    · rw [logged, invoke_of_fails hf', List.append_nil]
  · obtain ⟨m, p', e', hr', hbody, hplaces⟩ := hr.of_matches h hs
    rw [hr.invoke_eq, hr'.invoke_eq, hbody]
    refine ⟨rfl, .refl _, rfl, [p], [p'], .cons hplaces .nil, fun log => ?_, fun log => ?_⟩
    · rw [logged, hr.invoke_mapBodies]
    · rw [logged, hr'.invoke_mapBodies, hbody]

/-- Two overloads, one of them hidden, and a property that stands after a method of its name. The
second overload counts how often it is run. -/
def overloaded : Stub ℕ where
  classes := [⟨"T", [
    .staticMethod "f" 1 fun _ n => (.returned none, n),
    ⟨(Member.method "f" 2 true).hidden, fun _ _ n => (.returned (some (.int 2)), n + 1)⟩,
    .instanceMethod "p" 0 fun _ _ n => (.panicked "", n),
    .instanceProperty "p" fun v n => (.returned (some v), n)]⟩]

/-- The same members in the reverse order, with other visibilities. -/
def reversed : Stub ℕ where
  classes := [⟨"T", [
    ⟨(Member.property "p" false).hidden, Entry.withTarget fun v _ n => (.returned (some v), n)⟩,
    .instanceMethod "p" 0 fun _ _ n => (.panicked "", n),
    .staticMethod "f" 2 fun _ n => (.returned (some (.int 2)), n + 1),
    ⟨(Member.method "f" 1 true).hidden, fun _ _ n => (.returned none, n)⟩]⟩]

/-- A call of the hidden overload runs it in both orders, and one with three arguments fails in both
with the same arities in two orders. -/
theorem invoke_of_matches_overloaded :
    overloaded.Matches reversed ∧ overloaded.IsUnambiguous ∧
    (invoke overloaded.artifact ⟨"T", "f", true, [.null, .null], none⟩ 0).2 = 1 ∧
    (invoke reversed.artifact ⟨"T", "f", true, [.null, .null], none⟩ 0).2 = 1 ∧
    Agrees (invoke overloaded.artifact ⟨"T", "f", true, [.null, .null, .null], none⟩ 0).1
      (invoke reversed.artifact ⟨"T", "f", true, [.null, .null, .null], none⟩ 0).1 ∧
    (invoke overloaded.artifact ⟨"T", "f", true, [.null, .null, .null], none⟩ 0).1 =
      .error (.wrongArity "f" [1, 2] 3) ∧
    (invoke reversed.artifact ⟨"T", "f", true, [.null, .null, .null], none⟩ 0).1 =
      .error (.wrongArity "f" [2, 1] 3) := by
  have hmatches : overloaded.Matches reversed :=
    .cons ⟨rfl, (List.reverse_perm _).symm⟩ .nil
  have hunambiguous : overloaded.IsUnambiguous := by
    intro c hc
    obtain rfl := List.mem_singleton.1 hc
    decide
  have hcall := invoke_of_matches hmatches hunambiguous ⟨"T", "f", true, [.null, .null], none⟩ 0
  have hfailure :=
    invoke_of_matches hmatches hunambiguous ⟨"T", "f", true, [.null, .null, .null], none⟩ 0
  have hone : (invoke overloaded.artifact ⟨"T", "f", true, [.null, .null], none⟩ 0).2 = 1 := by
    decide +kernel
  exact ⟨hmatches, hunambiguous, hone, hcall.2.2.1.symm.trans hone, hfailure.2.1, rfl, rfl⟩

end Stub

end LiveBuild
