import LiveBuild.Proofs.Artifact.Dispatch
import LiveBuild.Proofs.Json.Control

/-!
# What an exchange with a library comes to

A call to a library is one exchange: the request goes over, an answer comes back or not, and the
answer is given back. `exchange_run` says this of every call and of every dispatch function,
whatever bytes it answers.

* `cString?_request`: the request can always be sent. Its text has no control character
  (`Json.forall_mem_chars`), so that no byte of it is zero, and the refusal before the call never
  happens;
* `Dispatch.Response.IsOf`: the four trees that are answers, each an object with one member;
* `Library.Says`: what the bytes of an answer say;
* `Library.Means`: the reply that belongs to it. What says nothing is a failure of the library, not
  of the arguments.
-/

namespace LiveBuild

/-! ## Requests -/

theorem cString?_eq_ok {s : String} (hs : 0 ∉ Utf8.encode s) :
    cString? s = .ok (Utf8.encode s) := by
  have hnone : (Utf8.encode s).findIdx? (· == 0) = none := by
    rw [List.findIdx?_eq_none_iff]
    rintro b hb
    rw [beq_eq_false_iff_ne]
    rintro rfl
    exact hs hb
  rw [cString?, hnone]

theorem Dispatch.Request.zero_notMem_encode (r : Dispatch.Request) :
    0 ∉ Utf8.encode r.write := by
  refine Utf8.zero_notMem_encode ?_
  rw [write, Json.write, String.toList_ofList]
  exact Json.forall_mem_chars r.toJson r.isStrict_toJson

/-- **Every request can be sent.** -/
theorem cString?_request (r : Dispatch.Request) :
    cString? r.write = .ok (Utf8.encode r.write) :=
  cString?_eq_ok r.zero_notMem_encode

/-! ## Answers -/

namespace Dispatch.Response

/-- The trees of answers. -/
inductive IsOf (levels : ℕ) : Response → Json → Prop
  | noValue : IsOf levels (.ok none) (.obj [(some "ok", .null)])
  | value {j v} (h : Value.ofJson? levels j = some v) :
    IsOf levels (.ok (some v)) (.obj [(some "ok", j)])
  | mismatch {msg} : IsOf levels (.mismatch msg) (.obj [(some "mismatch", .str (some msg))])
  | fault {msg} : IsOf levels (.fault msg) (.obj [(some "fault", .str (some msg))])

theorem value_ofJson?_null (levels : ℕ) : Value.ofJson? levels .null = none := by
  rcases levels with _ | levels
  · rfl
  · rw [Value.ofJson?, Value.ofPart?_succ]
    rfl

/-- **An answer is an object with one member**, and its name tells what it holds. The object takes
up one level of the reader. -/
theorem ofJson?_eq_some_iff {levels : ℕ} {j : Json} {r : Response} :
    ofJson? levels j = some r ↔ 0 < levels ∧ r.IsOf (levels - 1) j := by
  constructor
  · intro h
    unfold ofJson? at h
    split at h
    case h_1 =>
      obtain rfl := Option.some_inj.1 h
      exact ⟨Nat.succ_pos _, .noValue⟩
    case h_2 =>
      obtain ⟨v, hv, rfl⟩ := Option.map_eq_some_iff.1 h
      exact ⟨Nat.succ_pos _, .value hv⟩
    case h_3 =>
      obtain ⟨msg, rfl, rfl⟩ := Option.map_eq_some_iff.1 h
      exact ⟨Nat.succ_pos _, .mismatch⟩
    case h_4 =>
      obtain ⟨msg, rfl, rfl⟩ := Option.map_eq_some_iff.1 h
      exact ⟨Nat.succ_pos _, .fault⟩
    case h_5 => cases h
  · rintro ⟨hpos, h⟩
    obtain ⟨levels, rfl⟩ := Nat.exists_eq_add_one.2 hpos
    cases h with
    | noValue | mismatch | fault => rfl
    | @value j v h =>
      have hne : j ≠ .null := by
        rintro rfl
        rw [value_ofJson?_null] at h
        cases h
      have hread : Value.ofJson? levels j = some v := h
      rw [ofJson?, hread]
      · rfl
      · exact hne

end Dispatch.Response

/-! ## Exchanges -/

namespace Library

variable {σ : Type}

/-- The tree of an answer, if there is an answer and it is JSON. -/
def answerTree? (answer : Option (List UInt8)) : Option Json :=
  answer.bind fun bytes => Json.parse? (Utf8.decodeLossy (untilNul bytes)).toList

/-- An answer says that the call is answered by `r`; it may open all levels but the first. -/
def Says (answer : Option (List UInt8)) (r : Dispatch.Response) : Prop :=
  ∃ j, answerTree? answer = some j ∧ r.IsOf (Json.maxLevels - 1) j

theorem read?_eq_some_iff {bytes : List UInt8} {r : Dispatch.Response} :
    Dispatch.Response.read? (Utf8.decodeLossy (untilNul bytes)) = some r ↔
      Says (some bytes) r := by
  rw [Dispatch.Response.read?, Says, answerTree?, Option.bind_some]
  refine Option.bind_eq_some_iff.trans (exists_congr fun j => and_congr_right fun _ => ?_)
  rw [Dispatch.Response.ofJson?_eq_some_iff]
  exact and_iff_right (by decide)

theorem replyOf_eq_returned_iff {text : String} {v : Option Value} :
    replyOf text = .returned v ↔ Dispatch.Response.read? text = some (.ok v) := by
  unfold replyOf
  split <;> simp [*]

theorem replyOf_eq_mismatch_iff {text msg : String} :
    replyOf text = .mismatch msg ↔ Dispatch.Response.read? text = some (.mismatch msg) := by
  unfold replyOf
  split <;> simp [*]

theorem exists_replyOf_eq_threw_iff {text : String} :
    (∃ msg, replyOf text = .threw msg) ↔
      (∀ v, Dispatch.Response.read? text ≠ some (.ok v)) ∧
        ∀ msg, Dispatch.Response.read? text ≠ some (.mismatch msg) := by
  unfold replyOf
  split <;> simp [*]

/-- The reply that belongs to an answer. -/
structure Means (answer : Option (List UInt8)) (reply : Artifact.Reply) : Prop where
  returned_iff : ∀ v, reply = .returned v ↔ Says answer (.ok v)
  mismatch_iff : ∀ msg, reply = .mismatch msg ↔ Says answer (.mismatch msg)
  /-- Everything else is a failure of the library. -/
  threw_iff : (∃ msg, reply = .threw msg) ↔
    (∀ v, ¬ Says answer (.ok v)) ∧ ∀ msg, ¬ Says answer (.mismatch msg)

/-- Nothing is said by a missing answer. -/
theorem not_says_none (r : Dispatch.Response) : ¬ Says none r := by
  rintro ⟨j, hj, -⟩
  cases hj

theorem means_threw_none (msg : String) : Means none (.threw msg) where
  returned_iff _ := iff_of_false Artifact.Reply.noConfusion (not_says_none _)
  mismatch_iff _ := iff_of_false Artifact.Reply.noConfusion (not_says_none _)
  threw_iff := iff_of_true ⟨msg, rfl⟩ ⟨fun _ => not_says_none _, fun _ => not_says_none _⟩

theorem means_replyOf (bytes : List UInt8) :
    Means (some bytes) (replyOf (Utf8.decodeLossy (untilNul bytes))) where
  returned_iff _ := replyOf_eq_returned_iff.trans read?_eq_some_iff
  mismatch_iff _ := replyOf_eq_mismatch_iff.trans read?_eq_some_iff
  threw_iff := exists_replyOf_eq_threw_iff.trans <| and_congr
    (forall_congr' fun _ => not_congr read?_eq_some_iff)
    (forall_congr' fun _ => not_congr read?_eq_some_iff)

/-- The call went over as one request, which the library answered once. -/
structure Exchanged (l : Library σ) (t : Traffic σ) (request : List UInt8)
    (answer : Option (List UInt8) × σ) (r : Artifact.Reply × Traffic σ) : Prop where
  requests : r.2.requests = t.requests ++ [request]
  inner : r.2.inner = answer.2
  /-- An answer is given back, and only once. -/
  released : r.2.released = t.released + if answer.1.isSome ∧ l.releases then 1 else 0
  means : Means answer.1 r.1

/-- **Every call is one exchange, and its reply is what the answer says.** The request is the text
of the call, without a zero among its bytes, whatever the texts and the numbers in it. The answer is
any bytes, or missing. -/
theorem exchange_run {l : Library σ} {dispatch : List UInt8 → σ → Option (List UInt8) × σ}
    (hl : l.dispatch = some dispatch) (c : Artifact.Call) (t : Traffic σ) :
    let request := Utf8.encode (requestOf c).write
    0 ∉ request ∧ Exchanged l t request (dispatch request t.inner) (l.run c t) := by
  intro request
  refine ⟨(requestOf c).zero_notMem_encode, ?_⟩
  have hrequest : cString? (requestOf c).write = .ok request := cString?_request (requestOf c)
  rcases hanswer : dispatch request t.inner with ⟨answer, inner⟩
  unfold run
  rw [hl, hrequest]
  simp only [hanswer]
  cases answer with
  | none => exact ⟨rfl, rfl, by simp [Traffic.exchange], means_threw_none _⟩
  | some bytes =>
    cases hreleases : l.releases with
    | false => exact ⟨rfl, rfl, by simp [Traffic.exchange, hreleases], means_replyOf bytes⟩
    | true =>
      exact ⟨rfl, rfl, by simp [Traffic.release, Traffic.exchange, hreleases], means_replyOf bytes⟩

/-- The tree of an answer with the null value. -/
def nullAnswer : Json := .obj [(some "ok", Value.null.toJson)]

/-- A library that answers with the null value and takes its answers back. -/
def nullAnswers : Library Unit where
  path := ⟨"lib.so"⟩
  types := []
  dispatch := some fun _ s => (some (Utf8.encode nullAnswer.write), s)
  releases := true

/-- A NUL goes over in a text, and the null value comes back, not no value. -/
theorem exchange_run_nullAnswers :
    let c : Artifact.Call := ⟨"T", .method "f" 1 true, none, [.str "\x00"]⟩
    let r := nullAnswers.run c (.start ())
    nullAnswers.dispatch = some (fun _ s => (some (Utf8.encode nullAnswer.write), s)) ∧
      0 ∉ Utf8.encode (requestOf c).write ∧ r.1 = .returned (some .null) ∧
      r.2.requests.length = 1 ∧ r.2.released = 1 := by
  intro c r
  obtain ⟨hzero, h⟩ := exchange_run (l := nullAnswers) rfl c (.start ())
  refine ⟨rfl, hzero, (h.means.returned_iff (some .null)).2 ?_, ?_, ?_⟩
  · have htext : Utf8.decodeLossy (untilNul (Utf8.encode nullAnswer.write)) = nullAnswer.write := by
      decide +kernel
    have hread : answerTree? (some (Utf8.encode nullAnswer.write)) = some nullAnswer := by
      rw [answerTree?, Option.bind_some, htext, Json.write, String.toList_ofList]
      exact Json.parse?_chars (j := nullAnswer) ⟨Value.isStrict_toJson .null, trivial⟩
    exact ⟨nullAnswer, hread, .value rfl⟩
  · rw [h.requests]
    rfl
  · rw [h.released]
    rfl

end Library

end LiveBuild
