import LiveBuild.Artifact.Library
import LiveBuild.Proofs.Artifact.Resolution
import LiveBuild.Proofs.Value.Distinct

/-!
# What a request says

A request carries the names of a type and of a member, a target or none, and the arguments. It says
neither whether the member is a method or a property, nor its arity, nor whether it is static. All
of this follows from the request and the manifest (`call_of_sends`): two invocations that are sent
as one text stand for calls of one member.

* `Library.Sends`: an invocation is carried to the dispatch function, as the given bytes;
* `Dispatch.Request.Agrees`: what two requests of one text have in common;
* `Resolution.select?_inj`: among the members of one name and one staticness, the number of the
  arguments that are passed decides which member is meant.
-/

namespace LiveBuild

theorem Utf8.encode_injective : Function.Injective encode := by
  intro s t h
  rw [← String.toByteArray_inj, ← String.utf8Encode_toList, ← String.utf8Encode_toList]
  exact congrArg List.toByteArray h

theorem encode_of_cString? {s : String} {bytes : List UInt8} (h : cString? s = .ok bytes) :
    Utf8.encode s = bytes := by
  unfold cString? at h
  split at h
  · cases h
  · exact Except.ok.inj h

/-! ## Requests of one text -/

namespace Dispatch.Request

open Value

variable {r q : Request}

/-- The floating point numbers in a request. -/
def floats (r : Request) : List Binary64 :=
  (r.target.map Value.floats).getD [] ++ itemFloats r.arguments

/-- The requests are told apart by numbers that are not finite, if at all. -/
structure Agrees (r q : Request) : Prop where
  typeName : r.typeName = q.typeName
  member : r.member = q.member
  target : r.target = none ↔ q.target = none
  length : r.arguments.length = q.arguments.length
  eq : (∀ x ∈ r.floats, x.isFinite = true) → r = q

theorem isStrict_toJson (r : Request) : r.toJson.IsStrict := by
  obtain ⟨typeName, member, target, arguments⟩ := r
  refine ⟨trivial, trivial, ?_, Json.areStrict_iff.2 ?_, trivial⟩
  · cases target with
    | none => trivial
    | some v => exact Value.isStrict_toJson v
  · rw [itemsJson_eq]
    exact List.forall_mem_map.2 fun v _ => Value.isStrict_toJson v

theorem agrees_of_toJson_eq (h : r.toJson = q.toJson) : r.Agrees q := by
  obtain ⟨typeName, member, target, arguments⟩ := r
  obtain ⟨typeName', member', target', arguments'⟩ := q
  simp only [toJson, Json.record, Json.ofString, List.map_cons, List.map_nil, Json.obj.injEq,
    List.cons.injEq, Prod.mk.injEq, Json.str.injEq, Json.arr.injEq, Option.some.injEq, true_and,
    and_true] at h
  obtain ⟨rfl, rfl, htarget, harguments⟩ := h
  rw [itemsJson_eq, itemsJson_eq] at harguments
  have heq (hfinite : ∀ x ∈ itemFloats arguments, x.isFinite = true) : arguments = arguments' :=
    eq_of_map_eq (fun v hv w => Value.eq_of_toJson_eq (forall_itemFloats.1 hfinite v hv)) harguments
  have hlength : arguments.length = arguments'.length := by
    simpa using congrArg List.length harguments
  cases target with
  | none =>
    cases target' with
    | none =>
      refine ⟨rfl, rfl, Iff.rfl, hlength, fun hfinite => ?_⟩
      rw [heq fun x hx => hfinite x (List.mem_append_right _ hx)]
    | some v => exact absurd htarget.symm v.toJson_ne_null
  | some v =>
    cases target' with
    | none => exact absurd htarget v.toJson_ne_null
    | some w =>
      refine ⟨rfl, rfl, by simp, hlength, fun hfinite => ?_⟩
      rw [heq fun x hx => hfinite x (List.mem_append_right _ hx),
        Value.eq_of_toJson_eq (fun x hx => hfinite x (List.mem_append_left _ hx)) htarget]

/-- Requests of one text agree. -/
theorem agrees_of_write_eq (h : r.write = q.write) : r.Agrees q :=
  agrees_of_toJson_eq (Json.eq_of_write_eq r.isStrict_toJson q.isStrict_toJson h)

end Dispatch.Request

/-! ## Calls of one member -/

namespace Resolution

variable {σ : Type} {a : Artifact σ} {i j : Invocation} {c d : Artifact.Call}

/-- Among the same candidates, equally many passed arguments mean the same member. -/
theorem select?_inj {members : List Member} {supplied supplied' passed passed' : List Value}
    {m m' : Member} (h : select? members supplied = some (m, passed))
    (h' : select? members supplied' = some (m', passed'))
    (hlength : passed.length = passed'.length) : m = m' := by
  unfold select? at h h'
  cases hp : members.find? (·.isProperty) with
  | some p =>
    -- a property goes before every method, whatever was supplied
    simp only [hp, Option.some.injEq, Prod.mk.injEq] at h h'
    rw [← h.1, ← h'.1]
  | none =>
    -- a method is passed what was supplied, so the numbers of supplied arguments agree
    simp only [hp, Option.map_eq_some_iff, Prod.mk.injEq] at h h'
    obtain ⟨_, hm, rfl, rfl⟩ := h
    obtain ⟨_, hm', rfl, rfl⟩ := h'
    rw [hlength, hm'] at hm
    exact (Option.some_inj.1 hm).symm

theorem Calls.typeName (h : Calls a i c) : c.typeName = i.typeName := by
  cases h <;> rfl

theorem Calls.selects (h : Calls a i c) :
    Selects i (a.membersOf i.typeName) c.member c.arguments := by
  cases h <;> assumption

theorem Calls.target_eq_none_iff (h : Calls a i c) : c.target = none ↔ i.isStatic = true := by
  cases h with
  | static ht hs hi => simp [hi]
  | ofInstance ht hs hi hv hn => simp [hi]

/-- The names, the presence of a target, and the number of the arguments that are passed tell the
member. -/
theorem Calls.member_eq (hc : Calls a i c) (hd : Calls a j d) (htype : c.typeName = d.typeName)
    (hname : c.member.name = d.member.name) (htarget : c.target = none ↔ d.target = none)
    (hlength : c.arguments.length = d.arguments.length) : c.member = d.member := by
  have hsc := hc.selects
  have hsd := hd.selects
  have htypes : i.typeName = j.typeName := by rw [← hc.typeName, ← hd.typeName, htype]
  have hnames : i.memberName = j.memberName := by
    rw [← hsc.means.2.1, ← hsd.means.2.1, hname]
  have hstatic : i.isStatic = j.isStatic := by
    rw [Bool.eq_iff_iff, ← hc.target_eq_none_iff, ← hd.target_eq_none_iff, htarget]
  have hcandidates :
      candidates (a.membersOf i.typeName) i = candidates (a.membersOf j.typeName) j := by
    rw [candidates, candidates, htypes, hnames, hstatic]
  rw [← select?_candidates_eq_some_iff] at hsc hsd
  rw [hcandidates] at hsc
  exact select?_inj hsc hsd hlength

end Resolution

/-! ## Requests of one library -/

namespace Library

open Resolution

variable {σ : Type} {l : Library σ} {i j : Invocation} {s t : Traffic σ} {request : List UInt8}

/-- In the given state, the invocation is carried to the dispatch function, as the given bytes. -/
def Sends (l : Library σ) (i : Invocation) (s : Traffic σ) (request : List UInt8) : Prop :=
  (invoke l.artifact i s).2.requests = s.requests ++ [request]

/-- A call is sent once, or not at all. -/
theorem requests_run (l : Library σ) (c : Artifact.Call) (s : Traffic σ) :
    (l.run c s).2.requests = s.requests ∨
      ∃ request, cString? (requestOf c).write = .ok request ∧
        (l.run c s).2.requests = s.requests ++ [request] := by
  unfold run
  split
  · exact .inl rfl
  · split
    · exact .inl rfl
    next request hrequest =>
      refine .inr ⟨request, hrequest, ?_⟩
      dsimp only
      split
      · rfl
      · split <;> rfl

theorem Sends.exists_calls (h : l.Sends i s request) :
    ∃ c, Calls l.artifact i c ∧ cString? (requestOf c).write = .ok request := by
  unfold Sends invoke at h
  split at h
  · simp at h
  next c hc =>
    change (l.run c s).2.requests = _ at h
    rcases requests_run l c s with hrun | ⟨request', hrequest, hrun⟩
    · simp [hrun] at h
    · rw [hrun, List.append_cancel_left_eq, List.singleton_inj] at h
      exact ⟨c, call?_eq_ok_iff.1 hc, h ▸ hrequest⟩

/-- **A request tells the member.** Two invocations that a library is sent as one text name one type
and stand for calls of one member, and the calls have a target both or neither. If the numbers in
one of the calls are finite, the targets and the arguments are the same too. -/
theorem call_of_sends (hi : l.Sends i s request) (hj : l.Sends j t request) :
    ∃ c d, Resolution.call? l.artifact i = .ok c ∧ Resolution.call? l.artifact j = .ok d ∧
      i.typeName = j.typeName ∧ c.member = d.member ∧ (c.target = none ↔ d.target = none) ∧
      ((∀ x ∈ (requestOf c).floats, x.isFinite = true) →
        c.target = d.target ∧ c.arguments = d.arguments) := by
  obtain ⟨c, hc, hrequest⟩ := hi.exists_calls
  obtain ⟨d, hd, hrequest'⟩ := hj.exists_calls
  have htext : (requestOf c).write = (requestOf d).write := by
    apply Utf8.encode_injective
    rw [encode_of_cString? hrequest, encode_of_cString? hrequest']
  have hagrees := Dispatch.Request.agrees_of_write_eq htext
  have htype : c.typeName = d.typeName := hagrees.typeName
  refine ⟨c, d, call?_of_calls hc, call?_of_calls hd, ?_, ?_, hagrees.target, fun hfinite => ?_⟩
  · rw [← hc.typeName, ← hd.typeName, htype]
  · exact hc.member_eq hd htype hagrees.member hagrees.target hagrees.length
  · have heq := hagrees.eq hfinite
    exact ⟨congrArg Dispatch.Request.target heq, congrArg Dispatch.Request.arguments heq⟩

/-- A library in which a property of instances has the name of a method of instances and of two
methods of the type. -/
def namesakes : Library Unit where
  path := ⟨"lib.so"⟩
  types := [⟨"T", [.method "f" 1 false, .property "f" false, .method "f" 1 true,
    (Member.method "f" 1 true).hidden]⟩]
  dispatch := some fun _ s => (none, s)
  releases := false

/-- How the property is asked for. -/
def askProperty : String :=
  "\x7b\"type_name\":\"T\",\"member\":\"f\"," ++
    "\"target\":\x7b\"kind\":\"float\",\"value\":1.5\x7d,\"arguments\":[]\x7d"

/-- The property is meant with and without an argument, and the target goes with it. -/
theorem call_of_sends_namesakes :
    let target : Value := .float ⟨0x3ff8000000000000⟩
    let withArgument : Invocation := ⟨"T", "f", false, [.int 1], some target⟩
    let without : Invocation := .ofInstance "T" "f" target
    namesakes.Sends withArgument (.start ()) (Utf8.encode askProperty) ∧
      namesakes.Sends without (.start ()) (Utf8.encode askProperty) ∧
      ∃ c d, Resolution.call? namesakes.artifact withArgument = .ok c ∧
        Resolution.call? namesakes.artifact without = .ok d ∧
        c.member = d.member ∧ c.target = d.target ∧ c.arguments = d.arguments := by
  intro target withArgument without
  have hi : namesakes.Sends withArgument (.start ()) (Utf8.encode askProperty) := by
    unfold Sends
    decide +kernel
  have hj : namesakes.Sends without (.start ()) (Utf8.encode askProperty) := by
    unfold Sends
    decide +kernel
  obtain ⟨c, d, hc, hd, -, hmember, -, heq⟩ := call_of_sends hi hj
  have hcall : c = ⟨"T", .property "f" false, some target, []⟩ := Except.ok.inj (hc.symm.trans rfl)
  exact ⟨hi, hj, c, d, hc, hd, hmember, heq (by rw [hcall]; decide +kernel)⟩

end Library

end LiveBuild
