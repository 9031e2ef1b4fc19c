import LiveBuild.Text.Search
import Mathlib.Data.List.Infix

/-!
# What a search finds

* `occurs_iff`: a text occurs if it is a part of the other text without a gap;
* `after?_eq_some_iff`: what follows the first place of a text, which is the one with the least in
  front of it;
* `through?_append_cons`: the text up to a character.
-/

namespace LiveBuild.Text

variable {needle cs pre rest : List Char}

/-- The text stands at a place, and at no place before. -/
structure StandsFirst (needle cs pre rest : List Char) : Prop where
  eq : cs = pre ++ needle ++ rest
  first : ∀ pre' rest', cs = pre' ++ needle ++ rest' → pre.length ≤ pre'.length

/-- The place is the only first one. -/
theorem StandsFirst.unique {pre' rest' : List Char} (h : StandsFirst needle cs pre rest)
    (h' : StandsFirst needle cs pre' rest') : rest = rest' := by
  have hlength : pre.length = pre'.length :=
    le_antisymm (h.first _ _ h'.eq) (h'.first _ _ h.eq)
  have heq := h.eq.symm.trans h'.eq
  rw [List.append_assoc, List.append_assoc] at heq
  exact List.append_cancel_left (List.append_inj heq hlength).2

theorem standsFirst_of_prefix (h : cs = needle ++ rest) : StandsFirst needle cs [] rest :=
  ⟨h, fun _ _ _ => Nat.zero_le _⟩

theorem StandsFirst.cons {c : Char} (h : StandsFirst needle cs pre rest)
    (hno : ¬ needle <+: c :: cs) : StandsFirst needle (c :: cs) (c :: pre) rest := by
  refine ⟨by rw [h.eq]; rfl, fun pre' rest' heq => ?_⟩
  cases pre' with
  | nil => exact absurd ⟨rest', heq.symm⟩ hno
  | cons c' pre' =>
    simp only [List.cons_append, List.cons.injEq] at heq
    exact Nat.succ_le_succ (h.first pre' rest' heq.2)

/-- What a search returns stands behind the first place. -/
theorem exists_standsFirst_of_after? (h : after? needle cs = some rest) :
    ∃ pre, StandsFirst needle cs pre rest := by
  induction cs with
  | nil =>
    rw [after?] at h
    split at h
    next hnil =>
      obtain rfl := Option.some_inj.1 h
      exact ⟨[], standsFirst_of_prefix (by rw [List.isEmpty_iff.1 hnil]; rfl)⟩
    next => cases h
  | cons c cs ih =>
    rw [after?] at h
    split at h
    next hprefix =>
      obtain ⟨rest', heq⟩ := List.isPrefixOf_iff_prefix.1 hprefix
      obtain rfl := Option.some_inj.1 h
      exact ⟨[], standsFirst_of_prefix (by rw [← heq, List.drop_left])⟩
    next hprefix =>
      obtain ⟨pre, hpre⟩ := ih h
      exact ⟨c :: pre, hpre.cons fun hp => hprefix (List.isPrefixOf_iff_prefix.2 hp)⟩

/-- A text is found where it occurs. -/
theorem isSome_after? (h : cs = pre ++ needle ++ rest) : (after? needle cs).isSome := by
  induction cs generalizing pre with
  | nil =>
    obtain ⟨hleft, -⟩ := List.append_eq_nil_iff.1 h.symm
    obtain ⟨-, rfl⟩ := List.append_eq_nil_iff.1 hleft
    rfl
  | cons c cs ih =>
    rw [after?]
    split
    · rfl
    next hprefix =>
      cases pre with
      | nil => exact absurd (List.isPrefixOf_iff_prefix.2 ⟨rest, h.symm⟩) hprefix
      | cons c' pre =>
        simp only [List.cons_append, List.cons.injEq] at h
        exact ih h.2

/-- **A search returns what follows the first place of a text.** -/
theorem after?_eq_some_iff :
    after? needle cs = some rest ↔ ∃ pre, StandsFirst needle cs pre rest := by
  refine ⟨exists_standsFirst_of_after?, fun ⟨pre, hpre⟩ => ?_⟩
  obtain ⟨rest', hrest⟩ := Option.isSome_iff_exists.1 (isSome_after? hpre.eq)
  obtain ⟨pre', hpre'⟩ := exists_standsFirst_of_after? hrest
  rw [hrest, hpre.unique hpre']

/-- A text occurs if it is a part of the other one. -/
theorem occurs_iff : occurs needle cs = true ↔ needle <:+: cs := by
  rw [occurs]
  constructor
  · intro h
    obtain ⟨rest, hrest⟩ := Option.isSome_iff_exists.1 h
    obtain ⟨pre, hpre⟩ := exists_standsFirst_of_after? hrest
    exact ⟨pre, rest, hpre.eq.symm⟩
  · rintro ⟨pre, rest, heq⟩
    exact isSome_after? heq.symm

theorem through?_append_cons {stop : Char} (h : stop ∉ pre) :
    through? stop (pre ++ stop :: rest) = some (pre ++ [stop]) := by
  have htake : (pre ++ stop :: rest).takeWhile (· != stop) = pre := by
    rw [List.takeWhile_append_of_pos fun c hc => by simpa using ne_of_mem_of_not_mem hc h]
    simp
  rw [through?, if_pos (by simp), htake]

/-- What stands behind the first `stop` does not matter. -/
theorem through?_append {stop : Char} (h : stop ∈ cs) (ds : List Char) :
    through? stop (cs ++ ds) = through? stop cs := by
  obtain ⟨pre, rest, rfl, hpre⟩ := List.eq_append_cons_of_mem h
  rw [through?_append_cons hpre, List.append_assoc, List.cons_append, through?_append_cons hpre]

end LiveBuild.Text
