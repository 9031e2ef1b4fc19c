import LiveBuild.Proofs.Value.RoundTrip
import Mathlib.Data.List.Forall2
import Mathlib.Data.List.Perm.Basic
import Mathlib.Data.Option.Basic

/-!
# The parts of a tree that readers look at

A reader of a record looks up the values of the names that it knows. `slot?` is this lookup on an
object as it stands, in which a name may be no text. It does not depend on the order of the members
(`slot?_perm`), nor on members of other names (`slot?_cons_of_ne`), and if the values are replaced
by related ones, so is what it finds (`slot?_rel`).

* `isSound_arr`, `isSound_obj`: the parts of a sound tree are sound on the next level;
* `members?_of_named`, `unique?_named`: an object whose names are texts has members, and a reader's
  lookup among them is `slot?`;
* `mapM_congr_of_forall₂`: two lists that are read alike item by item are read alike.
-/

namespace LiveBuild

theorem mapM_congr_of_forall₂ {α β γ : Type} {f : α → Option γ} {g : β → Option γ} {xs : List α}
    {ys : List β} (h : List.Forall₂ (fun x y => f x = g y) xs ys) : xs.mapM f = ys.mapM g := by
  induction h with
  | nil => rfl
  | cons hx _ ih => rw [List.mapM_cons, List.mapM_cons, hx, ih]

theorem getElem?_replace_of_ne {α : Type} {before after : List α} {i : ℕ} (h : i ≠ before.length)
    (x y : α) : (before ++ x :: after)[i]? = (before ++ y :: after)[i]? := by
  have hset : (before ++ x :: after).set before.length y = before ++ y :: after := by simp
  rw [← hset, List.getElem?_set_ne h.symm]

namespace Json

variable {name : String} {levels : ℕ} {j : Json} {js js' items : List Json}
  {ms ms' : List (Option String × Json)} {m : Option String × Json}

/-! ## Sound trees -/

theorem areSound_iff : areSound levels js = true ↔ ∀ j ∈ js, j.isSound levels = true := by
  induction js with
  | nil => simp [areSound]
  | cons j js ih => simp [areSound, ih]

theorem areSoundMembers_iff : areSoundMembers levels ms = true ↔
    ∀ m ∈ ms, m.1.isSome = true ∧ m.2.isSound levels = true := by
  induction ms with
  | nil => simp [areSoundMembers]
  | cons m ms ih => simp [areSoundMembers, ih]

theorem isSound_arr : (arr items).isSound levels = true ↔
    ∃ l, levels = l + 1 ∧ ∀ j ∈ items, j.isSound l = true := by
  cases levels with
  | zero => simp [isSound]
  | succ l => simp [isSound, areSound_iff]

theorem isSound_obj : (obj ms).isSound levels = true ↔
    ∃ l, levels = l + 1 ∧ ∀ m ∈ ms, m.1.isSome = true ∧ m.2.isSound l = true := by
  cases levels with
  | zero => simp [isSound]
  | succ l => simp [isSound, areSoundMembers_iff]

/-! ## Lookups -/

/-- The tree of a list, unless there are several. -/
def atMostOne : List Json → Option (Option Json)
  | [] => some none
  | [j] => some (some j)
  | _ => none

/-- The value of a name that occurs at most once in an object: `none` if it is repeated, `some none`
if it is missing. -/
def slot? (name : String) (ms : List (Option String × Json)) : Option (Option Json) :=
  atMostOne ((ms.filter (·.1 == some name)).map (·.2))

theorem atMostOne_rel {r : Json → Json → Prop} (h : List.Forall₂ r js js') :
    Option.Rel (Option.Rel r) (atMostOne js) (atMostOne js') := by
  cases h with
  | nil => exact .some .none
  | cons hj hjs =>
    cases hjs with
    | nil => exact .some (.some hj)
    | cons => exact .none

theorem atMostOne_perm (h : js.Perm js') : atMostOne js = atMostOne js' := by
  rcases js with _ | ⟨j, _ | ⟨j₂, js⟩⟩
  · rw [List.nil_perm.1 h]
  · rw [List.singleton_perm.1 h]
  · have hlength := h.length_eq
    rcases js' with _ | ⟨k, _ | ⟨k₂, ks⟩⟩
    · simp at hlength
    · simp at hlength
    · rfl

theorem eq_singleton_of_atMostOne (h : atMostOne js = some (some j)) : js = [j] := by
  rcases js with _ | ⟨k, _ | ⟨k₂, ks⟩⟩
  · cases h
  · cases h
    rfl
  · cases h

/-- The order of the members does not matter. -/
theorem slot?_perm (h : ms.Perm ms') (name : String) : slot? name ms = slot? name ms' :=
  atMostOne_perm ((h.filter _).map _)

/-- A member of another name does not matter. -/
theorem slot?_cons_of_ne (h : m.1 ≠ some name) : slot? name (m :: ms) = slot? name ms := by
  rw [slot?, List.filter_cons_of_neg (by simpa using h), slot?]

/-- The value of a member of another name does not matter. -/
theorem slot?_replace_of_ne {before after : List (Option String × Json)} {key : Option String}
    (h : key ≠ some name) (j j' : Json) :
    slot? name (before ++ (key, j) :: after) = slot? name (before ++ (key, j') :: after) := by
  simp [slot?, h]

/-- What is found under a name is related if all that stands under this name is. -/
theorem slot?_rel {r : Json → Json → Prop}
    (h : List.Forall₂ (fun m m' => m.1 = m'.1 ∧ (m.1 = some name → r m.2 m'.2)) ms ms') :
    Option.Rel (Option.Rel r) (slot? name ms) (slot? name ms') := by
  refine atMostOne_rel ?_
  induction h with
  | nil => exact .nil
  | @cons m m' ms ms' hm _ ih =>
    obtain ⟨hname, hvalue⟩ := hm
    by_cases hkey : m.1 = some name
    · rw [List.filter_cons_of_pos (by simpa using hkey),
        List.filter_cons_of_pos (by simpa using hname ▸ hkey)]
      exact .cons (hvalue hkey) ih
    · rw [List.filter_cons_of_neg (by simpa using hkey),
        List.filter_cons_of_neg (by simpa using hname ▸ hkey)]
      exact ih

/-- What is found stands in the object. -/
theorem mem_of_slot? (h : slot? name ms = some (some j)) : (some name, j) ∈ ms := by
  have hmem : j ∈ (ms.filter (·.1 == some name)).map (·.2) := by
    rw [eq_singleton_of_atMostOne h]
    exact List.mem_singleton_self j
  obtain ⟨⟨key, j⟩, hm, rfl⟩ := List.mem_map.1 hmem
  obtain ⟨hm, hkey⟩ := List.mem_filter.1 hm
  obtain rfl : key = some name := by simpa using hkey
  exact hm

/-! ## Objects whose names are texts -/

/-- The members of an object, if all their names are texts. -/
def named (ms : List (Option String × Json)) : List (String × Json) :=
  ms.map fun m => (m.1.getD "", m.2)

theorem members?_of_named (h : ∀ m ∈ ms, m.1.isSome = true) :
    (obj ms).members? = some (named ms) := by
  rw [members?]
  induction ms with
  | nil => rfl
  | cons m ms ih =>
    obtain ⟨hm, hms⟩ := List.forall_mem_cons.1 h
    obtain ⟨name, hname⟩ := Option.isSome_iff_exists.1 hm
    rw [List.mapM_cons, ih hms, hname, named, named, List.map_cons, hname]
    rfl

theorem unique?_named (h : ∀ m ∈ ms, m.1.isSome = true) (name : String) :
    unique? name (named ms) = slot? name ms := by
  have hvalues : valuesOf name (named ms) = (ms.filter (·.1 == some name)).map (·.2) := by
    rw [valuesOf, named, List.filter_map, List.map_map]
    refine congrArg (List.map _) (List.filter_congr fun m hm => ?_)
    obtain ⟨key, hkey⟩ := Option.isSome_iff_exists.1 (h m hm)
    simp [hkey]
  rw [unique?, hvalues]
  rfl

/-! ## Records -/

theorem slots?_obj (h : ∀ m ∈ ms, m.1.isSome = true) (names : List String) :
    (obj ms).slots? names = names.mapM (slot? · ms) := by
  simp only [slots?, members?_of_named h, unique?_named h, Option.bind_eq_bind, Option.bind_some]

theorem slots?_arr_one (items : List Json) (name : String) :
    (arr items).slots? [name] = if items.length ≤ 1 then some [items[0]?] else none := by
  rcases items with _ | ⟨x, _ | ⟨y, items⟩⟩
  · rfl
  · rfl
  · simp [slots?]

theorem slots?_arr_two (items : List Json) (first second : String) :
    (arr items).slots? [first, second] =
      if items.length ≤ 2 then some [items[0]?, items[1]?] else none := by
  rcases items with _ | ⟨x, _ | ⟨y, _ | ⟨z, items⟩⟩⟩
  · rfl
  · rfl
  · rfl
  · simp [slots?]

/-- The fields of a sound record are sound. -/
theorem isSound_of_mem_slots? {names : List String} {slots : List (Option Json)} {f : Json}
    (h : j.isSound (levels + 1) = true) (hslots : j.slots? names = some slots)
    (hf : some f ∈ slots) : f.isSound levels = true := by
  cases j with
  | null | bool | num | str => cases hslots
  | arr items =>
    obtain ⟨_, hl, hitems⟩ := isSound_arr.1 h
    obtain rfl := Nat.succ.inj hl
    rw [slots?] at hslots
    split_ifs at hslots
    obtain rfl := Option.some_inj.1 hslots
    have hmem : f ∈ items := by simpa using hf
    exact hitems f hmem
  | obj ms =>
    obtain ⟨_, hl, hms⟩ := isSound_obj.1 h
    obtain rfl := Nat.succ.inj hl
    rw [slots?_obj fun m hm => (hms m hm).1] at hslots
    obtain ⟨name, -, hname⟩ := (exists_of_mapM_eq_some hslots).2 _ hf
    exact (hms _ (mem_of_slot? hname)).2

end Json

end LiveBuild
