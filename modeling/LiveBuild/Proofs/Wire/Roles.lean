import LiveBuild.Manifest
import LiveBuild.Proofs.Json.Slots
import Mathlib.Logic.Relation

/-!
# Rearranging a text

Values, the objects among them, members, types and manifests are written as objects whose members
may stand in any order and among others that their readers do not know. What a part of a text stands
for depends on where it stands, and for what stands under the tag of a value also on the tag.

* `Role`: what a part of a text stands for, and `Role.ofMember`, `Role.ofItem`: what its parts stand
  for then. `Role.IsRecord` says of which roles the objects may be rearranged, and `Role.names` which
  names their readers know;
* `Step`: one rearrangement somewhere in a text, of one object: its members are put into another
  order, or one more is added. `Rearranged` is any number of them;
* `Plain`: a text in which no tag of a nested value is spelled as an object that holds an empty
  object under the name of a kind. A rearrangement leaves a plain text plain (`Plain.step`).
-/

namespace LiveBuild.Wire

open Json (slot?)

/-! ## Roles -/

/-- What a part of a text stands for. -/
inductive Role
  /-- A value, on its own or as a part of another one. -/
  | value (nested : Bool)
  /-- What stands under the tag of a value. -/
  | payload (kind : Value.Kind)
  /-- The fields of an object. -/
  | fields
  | member
  | members
  | typeEntry
  | types
  | manifest
  /-- The tag of a nested value. -/
  | tag
  /-- A part in which nothing can be rearranged. -/
  | other
  deriving DecidableEq, Repr

namespace Role

/-- The role of a tag. -/
def ofTag (nested : Bool) : Role := if nested then tag else other

/-- The role of what stands under a tag. -/
def under (tag : Option Json) : Role :=
  match tag >>= Value.Kind.ofJson? true Json.maxLevels with
  | some kind => payload kind
  | none => other

/-- The role of what stands under a name in an object. -/
def ofMember (r : Role) (ms : List (Option String × Json)) (name : String) : Role :=
  match r with
  | value nested =>
    if name = "kind" then ofTag nested
    else if name = "value" then under (slot? "kind" ms).join
    else other
  | payload .object => if name = "fields" then fields else other
  | fields => value true
  | typeEntry => if name = "members" then members else other
  | manifest => if name = "types" then types else other
  | _ => other

/-- The role of an item of an array. -/
def ofItem (r : Role) (items : List Json) (i : ℕ) : Role :=
  match r with
  | value nested => if i = 0 then ofTag nested else if i = 1 then under items.head? else other
  | payload .array => value true
  | payload .object => if i = 1 then fields else other
  | members => member
  | types => typeEntry
  | typeEntry => if i = 1 then members else other
  | manifest => if i = 0 then types else other
  | _ => other

/-- An object of this role stands for a tagged value or for a record. -/
def IsRecord : Role → Prop
  | value _ => True
  | payload .object => True
  | member => True
  | typeEntry => True
  | manifest => True
  | _ => False

/-- The names that a reader of an object knows. An arity means nothing to a property. -/
def names (r : Role) (ms : List (Option String × Json)) : List String :=
  match r with
  | value _ => ["kind", "value"]
  | payload .object => ["type_name", "fields"]
  | member => Member.ownNames ++ "kind" ::
      if (slot? "kind" ms).join >>= Member.kindName? = some "property" then [] else ["arity"]
  | typeEntry => ["name", "members"]
  | manifest => ["types"]
  | _ => []

variable {r : Role} {ms ms' : List (Option String × Json)} {items items' : List Json}
  {name : String}

theorem ofMember_congr (h : slot? "kind" ms = slot? "kind" ms') :
    r.ofMember ms name = r.ofMember ms' name := by
  cases r <;> simp only [ofMember, h]

theorem ofItem_congr (h : items.head? = items'.head?) (i : ℕ) :
    r.ofItem items i = r.ofItem items' i := by
  cases r <;> simp only [ofItem, h]

/-- Nothing can be rearranged under a name that the reader does not know. -/
theorem ofMember_of_notMem (hr : r.IsRecord) (h : name ∉ r.names ms) :
    r.ofMember ms' name = other := by
  cases r with
  | value =>
    simp only [names, List.mem_cons, List.not_mem_nil, or_false, not_or] at h
    simp only [ofMember, h, if_false]
  | payload kind =>
    cases kind with
    | object =>
      simp only [names, List.mem_cons, List.not_mem_nil, or_false, not_or] at h
      simp only [ofMember, h, if_false]
    | null | bool | int | float | str | array => cases hr
  | typeEntry =>
    simp only [names, List.mem_cons, List.not_mem_nil, or_false, not_or] at h
    simp only [ofMember, h, if_false]
  | manifest =>
    simp only [names, List.mem_singleton] at h
    simp only [ofMember, h, if_false]
  | member => rfl
  | fields | members | types | tag | other => cases hr

/-- A name that the reader does not know does not tell what stands under the others. -/
theorem ofMember_cons (h : name ∉ r.names ms) (j : Json) (key : String) :
    r.ofMember ((some name, j) :: ms) key = r.ofMember ms key := by
  cases r with
  | value =>
    refine ofMember_congr (Json.slot?_cons_of_ne fun hname => h ?_)
    rw [Option.some_inj.1 hname]
    exact List.mem_cons_self
  | payload kind => cases kind <;> rfl
  | fields | member | members | typeEntry | types | manifest | tag | other => rfl

end Role

/-! ## Rearrangements -/

/-- One rearrangement of one object, somewhere in a text of the given role. -/
inductive Step : Role → Json → Json → Prop
  /-- The members are put into another order. -/
  | reorder {r ms ms'} (hr : r.IsRecord) (h : ms.Perm ms') : Step r (.obj ms) (.obj ms')
  /-- A member is added that the reader does not know. -/
  | add {r ms name} (hr : r.IsRecord) (h : name ∉ r.names ms) (j : Json) :
    Step r (.obj ms) (.obj ((some name, j) :: ms))
  | member {r before after name j j'}
    (h : Step (r.ofMember (before ++ (some name, j) :: after) name) j j') :
    Step r (.obj (before ++ (some name, j) :: after)) (.obj (before ++ (some name, j') :: after))
  | item {r before after j j'} (h : Step (r.ofItem (before ++ j :: after) before.length) j j') :
    Step r (.arr (before ++ j :: after)) (.arr (before ++ j' :: after))

/-- A text is rearranged, any number of times and at any levels. -/
def Rearranged (r : Role) : Json → Json → Prop := Relation.ReflTransGen (Step r)

/-! ## Plain texts -/

/-- A kind spelled as an object in which an empty object takes the place of null. -/
def IsHollow (j : Json) : Prop := ∃ kind : Value.Kind, j = .obj [(some kind.name, .obj [])]

/-- No tag of a nested value is spelled with an empty object in place of null. -/
inductive Plain : Role → Json → Prop
  | other {j} : Plain .other j
  | intro {r j} (tag : r = .tag → ¬ IsHollow j)
    (member : ∀ ms name c, j = .obj ms → (some name, c) ∈ ms → Plain (r.ofMember ms name) c)
    (item : ∀ items i c, j = .arr items → items[i]? = some c → Plain (r.ofItem items i) c) :
    Plain r j

variable {r : Role} {j j' : Json} {ms : List (Option String × Json)} {items : List Json}

/-- Only a part that stands for something can be rearranged. -/
theorem Step.ne_tag_and_ne_other (h : Step r j j') : r ≠ .tag ∧ r ≠ .other := by
  induction h with
  | @reorder r _ _ hr | @add r _ _ hr =>
    cases r with
    | value | payload | member | typeEntry | manifest => simp
    | fields | members | types | tag | other => cases hr
  | @member r _ _ _ _ _ _ ih | @item r _ _ _ _ _ ih =>
    cases r with
    | tag | other => exact absurd rfl ih.2
    | value | payload | fields | member | members | typeEntry | types | manifest => simp

theorem Step.ne_ofTag (h : Step r j j') (nested : Bool) : r ≠ .ofTag nested := by
  rw [Role.ofTag]
  split
  · exact h.ne_tag_and_ne_other.1
  · exact h.ne_tag_and_ne_other.2

section

variable {before after : List (Option String × Json)} {name : String}

/-- A tag is not rearranged, so the roles of the members of an object stay as they are. -/
theorem Step.ofMember_eq (h : Step (r.ofMember (before ++ (some name, j) :: after) name) j j')
    (key : String) : r.ofMember (before ++ (some name, j) :: after) key =
      r.ofMember (before ++ (some name, j') :: after) key := by
  cases r with
  | value nested =>
    refine Role.ofMember_congr (Json.slot?_replace_of_ne (fun hname => ?_) j j')
    obtain rfl := Option.some_inj.1 hname
    exact h.ne_ofTag nested rfl
  | payload kind => cases kind <;> rfl
  | fields | member | members | typeEntry | types | manifest | tag | other => rfl

end

/-- A tag is not rearranged, so the roles of the items of an array stay as they are. -/
theorem Step.ofItem_eq {before after : List Json}
    (h : Step (r.ofItem (before ++ j :: after) before.length) j j') (i : ℕ) :
    r.ofItem (before ++ j :: after) i = r.ofItem (before ++ j' :: after) i := by
  cases r with
  | value nested =>
    refine Role.ofItem_congr ?_ i
    cases before with
    | nil => exact absurd rfl (h.ne_ofTag nested)
    | cons => rfl
  | payload kind => cases kind <;> rfl
  | fields | member | members | typeEntry | types | manifest | tag | other => rfl

namespace Plain

theorem member_of_mem (h : Plain r (.obj ms)) {name : String} (hmem : (some name, j) ∈ ms) :
    Plain (r.ofMember ms name) j := by
  cases h with
  | other => exact .other
  | intro _ member _ => exact member ms name j rfl hmem

theorem item_of_getElem? (h : Plain r (.arr items)) {i : ℕ} (hi : items[i]? = some j) :
    Plain (r.ofItem items i) j := by
  cases h with
  | other => exact .other
  | intro _ _ item => exact item items i j rfl hi

theorem obj (hr : r ≠ .tag) (h : ∀ name c, (some name, c) ∈ ms → Plain (r.ofMember ms name) c) :
    Plain r (.obj ms) :=
  .intro (fun ht => absurd ht hr) (fun _ name c hj hmem => by cases hj; exact h name c hmem)
    fun _ _ _ hj => by cases hj

theorem arr (hr : r ≠ .tag) (h : ∀ i c, items[i]? = some c → Plain (r.ofItem items i) c) :
    Plain r (.arr items) :=
  .intro (fun ht => absurd ht hr) (fun _ _ _ hj => by cases hj)
    fun _ i c hj hi => by cases hj; exact h i c hi

/-- **A rearrangement leaves a plain text plain.** -/
theorem step (h : Plain r j) (hst : Step r j j') : Plain r j' := by
  induction hst with
  | @reorder r ms ms' hr hperm =>
    refine obj (by rintro rfl; cases hr) fun name c hmem => ?_
    rw [← Role.ofMember_congr (Json.slot?_perm hperm "kind")]
    exact h.member_of_mem (hperm.mem_iff.2 hmem)
  | @add r ms name hr hname j =>
    refine obj (by rintro rfl; cases hr) fun key c hmem => ?_
    rcases List.mem_cons.1 hmem with heq | hmem
    · obtain ⟨hkey, -⟩ := Prod.mk.inj heq
      obtain rfl := Option.some_inj.1 hkey
      rw [Role.ofMember_of_notMem hr hname]
      exact .other
    · rw [Role.ofMember_cons hname]
      exact h.member_of_mem hmem
  | @member r before after name j j' hst ih =>
    refine obj ?_ fun key c hmem => ?_
    · rintro rfl
      exact hst.ne_tag_and_ne_other.2 rfl
    · rw [← hst.ofMember_eq]
      rcases List.mem_append.1 hmem with hmem | hmem
      · exact h.member_of_mem (List.mem_append_left _ hmem)
      · rcases List.mem_cons.1 hmem with heq | hmem
        · obtain ⟨hkey, rfl⟩ := Prod.mk.inj heq
          obtain rfl := Option.some_inj.1 hkey
          exact ih (h.member_of_mem (List.mem_append_right _ List.mem_cons_self))
        · exact h.member_of_mem (List.mem_append_right _ (List.mem_cons_of_mem _ hmem))
  | @item r before after j j' hst ih =>
    refine arr ?_ fun i c hi => ?_
    · rintro rfl
      exact hst.ne_tag_and_ne_other.2 rfl
    · rw [← hst.ofItem_eq]
      by_cases hlen : i = before.length
      · subst hlen
        obtain rfl : j' = c := by simpa using hi
        exact ih (h.item_of_getElem? (by simp))
      · refine h.item_of_getElem? ?_
        rw [getElem?_replace_of_ne hlen j j', hi]

end Plain

end LiveBuild.Wire
