import LiveBuild.Proofs.Value.RoundTrip
import LiveBuild.Proofs.Wire.Roles

/-!
# Texts that are read alike

Two trees agree, in their role, if readers cannot tell them apart (`Agree`). All readers of a role are
meant: what stands under a tag is read in one way if it was set aside and in another way if it was
not. Both are asked to read sound trees only, since a reader may pass over what is not sound, and
whether it does depends on the order of the members.

What a reader makes of a tagged object depends on what it finds under `kind` and `value`
(`untag?_obj`). So two tagged objects agree if what is found under these names agrees
(`agree_value_obj`), and two tagged arrays agree if their items do (`agree_value_arr`). The role of
what stands under the tag is told by the tag. A reader that finds a kind finds the one that tells the
role (`under_of_ofJson?`); a tag that two readers would not read alike agrees with no tag.
-/

namespace LiveBuild.Wire

open Json (slot?)
open Value (ofPart? payload? arrayReader objectReader)

variable {α : Type} {read read' : ℕ → Json → Option α} {r : Role} {j j' : Json}
  {items items' : List Json} {ms ms' : List (Option String × Json)} {l : ℕ} {a a' : Bool}

/-! ## Agreement -/

/-- Two sound trees are read alike, each by its own reader. -/
def Alike (read read' : ℕ → Json → Option α) (j j' : Json) : Prop :=
  ∀ l, j.isSound l = true → j'.isSound l = true → read l j = read' l j'

/-- What a reader makes of a tree under the tag of a kind. -/
def readUnder (kind : Value.Kind) (aside : Bool) (levels : ℕ) (j : Json) : Option Value :=
  payload? (arrayReader aside levels) (objectReader aside levels) (kind, some j)

/-- What a reader makes of the fields of an object. -/
def readFields (aside : Bool) : ℕ → Json → Option (List (String × Value))
  | 0, _ => none
  | levels + 1, j => j.members? >>= fun fields =>
    fields.mapM fun f => (ofPart? aside levels f.2).map (f.1, ·)

/-- Two trees agree if readers cannot tell them apart. A nested value is read alike whether it was
set aside or not, and its tag does not depend on that either. -/
def Agree : Role → Json → Json → Prop
  | .value nested, j, j' =>
    ∀ a a', (nested = false → a = a') → Alike (ofPart? a) (ofPart? a') j j'
  | .payload kind, j, j' => ∀ a a', Alike (readUnder kind a) (readUnder kind a') j j'
  | .fields, j, j' => ∀ a a', Alike (readFields a) (readFields a') j j'
  | .member, j, j' => Alike Member.ofJson? Member.ofJson? j j'
  | .members, j, j' =>
    Alike (fun l j => j.list? l Member.ofJson?) (fun l j => j.list? l Member.ofJson?) j j'
  | .typeEntry, j, j' => Alike TypeEntry.ofJson? TypeEntry.ofJson? j j'
  | .types, j, j' =>
    Alike (fun l j => j.list? l TypeEntry.ofJson?) (fun l j => j.list? l TypeEntry.ofJson?) j j'
  | .manifest, j, j' => Alike Manifest.ofJson? Manifest.ofJson? j j'
  | .tag, j, j' => j = j' ∧ ¬ IsHollow j
  | .other, j, j' => j = j'

/-- The slots of two objects agree, for all names that their reader knows. -/
def SlotsAgree (r : Role) (ms ms' : List (Option String × Json)) : Prop :=
  ∀ name ∈ r.names ms,
    Option.Rel (Option.Rel (Agree (r.ofMember ms name))) (slot? name ms) (slot? name ms')

/-- Two arrays have as many items, and these agree. -/
def ItemsAgree (r : Role) (items items' : List Json) : Prop :=
  ∀ i : ℕ, Option.Rel (Agree (r.ofItem items i)) items[i]? items'[i]?

/-! ## Two sound trees -/

theorem exists_level_obj (h : (Json.obj ms).isSound l = true) (h' : (Json.obj ms').isSound l = true) :
    ∃ k, l = k + 1 ∧ (∀ m ∈ ms, m.1.isSome = true ∧ m.2.isSound k = true) ∧
      ∀ m ∈ ms', m.1.isSome = true ∧ m.2.isSound k = true := by
  obtain ⟨k, rfl, hms⟩ := Json.isSound_obj.1 h
  obtain ⟨_, hk, hms'⟩ := Json.isSound_obj.1 h'
  obtain rfl := Nat.succ.inj hk
  exact ⟨k, rfl, hms, hms'⟩

theorem exists_level_arr (h : (Json.arr items).isSound l = true)
    (h' : (Json.arr items').isSound l = true) :
    ∃ k, l = k + 1 ∧ (∀ j ∈ items, j.isSound k = true) ∧ ∀ j ∈ items', j.isSound k = true := by
  obtain ⟨k, rfl, hitems⟩ := Json.isSound_arr.1 h
  obtain ⟨_, hk, hitems'⟩ := Json.isSound_arr.1 h'
  obtain rfl := Nat.succ.inj hk
  exact ⟨k, rfl, hitems, hitems'⟩

/-! ## Lists -/

theorem forall₂_of_getElem? {β γ : Type} {R : β → γ → Prop} {xs : List β} {ys : List γ}
    (h : ∀ i : ℕ, Option.Rel R xs[i]? ys[i]?) : List.Forall₂ R xs ys := by
  induction xs generalizing ys with
  | nil =>
    cases ys with
    | nil => exact .nil
    | cons => cases h 0
  | cons x xs ih =>
    cases ys with
    | nil => cases h 0
    | cons y ys =>
      have hhead : Option.Rel R (some x) (some y) := h 0
      cases hhead with
      | some hxy => exact .cons hxy (ih fun i => h (i + 1))

theorem forall₂_imp_of_mem {β γ : Type} {R S : β → γ → Prop} {xs : List β} {ys : List γ}
    (h : List.Forall₂ R xs ys) (hRS : ∀ x ∈ xs, ∀ y ∈ ys, R x y → S x y) :
    List.Forall₂ S xs ys := by
  obtain ⟨hlength, hzip⟩ := List.forall₂_iff_zip.1 h
  refine List.forall₂_iff_zip.2 ⟨hlength, fun hxy => ?_⟩
  obtain ⟨hx, hy⟩ := List.of_mem_zip hxy
  exact hRS _ hx _ hy (hzip hxy)

theorem mapM_eq_of_alike (h : List.Forall₂ (Alike read read') items items')
    (hs : ∀ j ∈ items, j.isSound l = true) (hs' : ∀ j ∈ items', j.isSound l = true) :
    items.mapM (read l) = items'.mapM (read' l) :=
  mapM_congr_of_forall₂ (forall₂_imp_of_mem h fun j hj j' hj' halike =>
    halike l (hs j hj) (hs' j' hj'))

theorem Alike.list (h : List.Forall₂ (Alike read read') items items') :
    Alike (fun l j => j.list? l read) (fun l j => j.list? l read') (.arr items) (.arr items') := by
  intro l hs hs'
  obtain ⟨l, rfl, hitems, hitems'⟩ := exists_level_arr hs hs'
  exact mapM_eq_of_alike h hitems hitems'

theorem readUnder_arr (items : List Json) (a : Bool) (l : ℕ) :
    readUnder .array a (l + 1) (.arr items) = (items.mapM (ofPart? a l)).map .array := rfl

theorem ItemsAgree.forall₂ {r' : Role} (h : ItemsAgree r items items')
    (hr : ∀ i, r.ofItem items i = r') : List.Forall₂ (Agree r') items items' :=
  forall₂_of_getElem? fun i => hr i ▸ h i

theorem ItemsAgree.length_eq (h : ItemsAgree r items items') : items.length = items'.length := by
  refine List.Forall₂.length_eq (R := fun _ _ => True) (forall₂_of_getElem? fun i => ?_)
  have hi := h i
  revert hi
  generalize items[i]? = x, items'[i]? = y
  rintro (_ | _)
  · exact .some trivial
  · exact .none

/-! ## Tags -/

section

variable {levels : ℕ} {kind : Value.Kind}

theorem name_of_ofName? {name : String} (h : Value.Kind.ofName? name = some kind) :
    kind.name = name := by
  simpa using List.find?_some h

/-- Whether a tag was set aside matters only to one that holds an empty object. -/
theorem ofJson?_of_not_isHollow (h : ¬ IsHollow j) (a a' : Bool) :
    Value.Kind.ofJson? a levels j = Value.Kind.ofJson? a' levels j := by
  rcases j with _ | _ | _ | _ | _ | ms
  iterate 5 rfl
  rcases ms with _ | ⟨⟨_ | name, j⟩, _ | ⟨_, _⟩⟩
  iterate 3 rfl
  · rcases j with _ | _ | _ | _ | _ | _ | _
    iterate 5 rfl
    · have hname : Value.Kind.ofName? name = none := by
        refine Option.eq_none_iff_forall_ne_some.2 fun kind hkind => h ⟨kind, ?_⟩
        rw [name_of_ofName? hkind]
      cases a <;> cases a' <;> by_cases hl : 0 < levels <;>
        simp [Value.Kind.ofJson?, Json.choice?, Json.isVoid, hl, hname]
    · rfl
  · rfl

theorem choice?_mono {name : String} (h : j.choice? a levels = some name) :
    j.choice? true Json.maxLevels = some name := by
  rcases j with _ | _ | _ | s | _ | ms
  iterate 3 cases h
  · exact h
  · cases h
  · rcases ms with _ | ⟨⟨_ | key, j⟩, _ | ⟨_, _⟩⟩
    iterate 3 cases h
    · simp only [Json.choice?] at h
      split_ifs at h with hvoid
      have hvoid' : j.isVoid true = true := by
        rcases j with _ | _ | _ | _ | _ | _ | _
        iterate 5 first | rfl | simp [Json.isVoid] at hvoid
        · rfl
        · simp [Json.isVoid] at hvoid
      simp only [Json.choice?, hvoid']
      exact h
    · cases h

/-- Whoever reads a tag finds the kind that decides about the role of what stands under it. -/
theorem under_of_ofJson? (h : Value.Kind.ofJson? a levels j = some kind) :
    Role.under (some j) = .payload kind := by
  obtain ⟨name, hname, hkind⟩ := Option.bind_eq_some_iff.1 h
  have hfound : Value.Kind.ofJson? true Json.maxLevels j = some kind := by
    rw [Value.Kind.ofJson?, choice?_mono hname]
    exact hkind
  rw [Role.under, Option.bind_eq_bind, Option.bind_some, hfound]

end

/-! ## Tagged objects -/

theorem slot?_all_isSound (hms : ∀ m ∈ ms, m.1.isSome = true ∧ m.2.isSound l = true)
    {name : String} {p : Option Json} (hp : slot? name ms = some p) :
    p.all (·.isSound l) = true := by
  cases p with
  | none => rfl
  | some j => exact (hms _ (Json.mem_of_slot? hp)).2

theorem untag?_obj (hms : ∀ m ∈ ms, m.1.isSome = true ∧ m.2.isSound l = true) (a : Bool) :
    Value.untag? a l (.obj ms) = (slot? "kind" ms).join >>= Value.Kind.ofJson? a l >>=
      fun kind => (slot? "value" ms).map (kind, ·) := by
  have hnames : ∀ m ∈ ms, m.1.isSome = true := fun m hm => (hms m hm).1
  rw [Value.untag?]
  simp only [Json.members?_of_named hnames, Json.unique?_named hnames, Option.bind_eq_bind,
    Option.bind_some]
  cases hkind : slot? "kind" ms with
  | none => rfl
  | some k =>
    cases k with
    | none => rfl
    | some k =>
      cases hk : Value.Kind.ofJson? a l k with
      | none => simp [hk]
      | some kind =>
        cases hvalue : slot? "value" ms with
        | none => simp [hk]
        | some p => simp [hk, slot?_all_isSound hms hvalue]

theorem payload?_none (kind : Value.Kind) (a a' : Bool) (l l' : ℕ) :
    payload? (arrayReader a l) (objectReader a l) (kind, none) =
      payload? (arrayReader a' l') (objectReader a' l') (kind, none) := by
  cases kind <;> rfl

/-- A tag that agrees with another one is the same, and it does not matter whether it was set
aside. -/
theorem eq_of_agree_ofTag {nested : Bool} (h : Agree (.ofTag nested) j j') : j = j' := by
  cases nested with
  | true => exact h.1
  | false => exact h

theorem ofJson?_of_agree_ofTag {nested : Bool} (h : Agree (.ofTag nested) j j')
    (ha : nested = false → a = a') (l : ℕ) :
    Value.Kind.ofJson? a l j = Value.Kind.ofJson? a' l j := by
  cases nested with
  | true => exact ofJson?_of_not_isHollow h.2 a a'
  | false => rw [ha rfl]

/-- What two readers make of a kind and of what stands under the tag, if that agrees. -/
theorem payload?_rel {kind : Value.Kind} {p p' : Option Json}
    (h : Option.Rel (Agree (.payload kind)) p p') (hp : p.all (·.isSound l) = true)
    (hp' : p'.all (·.isSound l) = true) (a a' : Bool) :
    payload? (arrayReader a l) (objectReader a l) (kind, p) =
      payload? (arrayReader a' l) (objectReader a' l) (kind, p') := by
  cases h with
  | none => exact payload?_none kind a a' l l
  | some h => exact h a a' l hp hp'

theorem agree_value_obj {nested : Bool} (h : SlotsAgree (.value nested) ms ms') :
    Agree (.value nested) (.obj ms) (.obj ms') := by
  intro a a' ha l hs hs'
  obtain ⟨l, rfl, hms, hms'⟩ := exists_level_obj hs hs'
  rw [Value.ofPart?_succ, Value.ofPart?_succ, untag?_obj hms, untag?_obj hms']
  have hkind : Option.Rel (Option.Rel (Agree (.ofTag nested))) (slot? "kind" ms)
    (slot? "kind" ms') := h "kind" (by simp [Role.names])
  have hvalue : Option.Rel (Option.Rel (Agree (.under (slot? "kind" ms).join)))
    (slot? "value" ms) (slot? "value" ms') := h "value" (by simp [Role.names])
  have hsound (p : Option Json) (hp : slot? "value" ms = some p) := slot?_all_isSound hms hp
  have hsound' (p : Option Json) (hp : slot? "value" ms' = some p) := slot?_all_isSound hms' hp
  generalize slot? "kind" ms = tags, slot? "kind" ms' = tags' at hkind hvalue ⊢
  generalize slot? "value" ms = payloads, slot? "value" ms' = payloads' at hvalue hsound hsound' ⊢
  cases hkind with
  | none => rfl
  | some hrel =>
    cases hrel with
    | none => rfl
    | @some tag tag' htag =>
      obtain rfl := eq_of_agree_ofTag htag
      have htags : Value.Kind.ofJson? a l tag = Value.Kind.ofJson? a' l tag :=
        ofJson?_of_agree_ofTag htag ha l
      simp only [Option.join_some, Option.bind_eq_bind, Option.bind_some, ← htags]
      cases hread : Value.Kind.ofJson? a l tag with
      | none => rfl
      | some kind =>
        rw [Option.join_some, under_of_ofJson? hread] at hvalue
        cases hvalue with
        | none => rfl
        | @some p p' hp => exact payload?_rel hp (hsound p rfl) (hsound' p' rfl) _ _

/-! ## Tagged arrays -/

theorem untag?_arr_of_length_ne (h : items.length ≠ 2) : Value.untag? a l (.arr items) = none := by
  rcases items with _ | ⟨_, _ | ⟨_, _ | ⟨_, _⟩⟩⟩
  · rfl
  · rfl
  · exact absurd rfl h
  · rfl

theorem agree_value_arr {nested : Bool} (h : ItemsAgree (.value nested) items items') :
    Agree (.value nested) (.arr items) (.arr items') := by
  intro a a' ha l hs hs'
  obtain ⟨l, rfl, hitems, hitems'⟩ := exists_level_arr hs hs'
  rw [Value.ofPart?_succ, Value.ofPart?_succ]
  by_cases hlength : items.length = 2
  · obtain ⟨tag, p, rfl⟩ := List.length_eq_two.1 hlength
    obtain ⟨tag', p', rfl⟩ := List.length_eq_two.1 (h.length_eq ▸ hlength)
    have htag : Agree (.ofTag nested) tag tag' := by simpa [Role.ofItem] using h 0
    have hp : Agree (.under (some tag)) p p' := by simpa [Role.ofItem] using h 1
    obtain rfl := eq_of_agree_ofTag htag
    have htags : Value.Kind.ofJson? a l tag = Value.Kind.ofJson? a' l tag :=
      ofJson?_of_agree_ofTag htag ha l
    simp only [Value.untag?, ← htags]
    cases hread : Value.Kind.ofJson? a l tag with
    | none => rfl
    | some kind =>
      rw [under_of_ofJson? hread] at hp
      exact hp _ _ l (hitems p (by simp)) (hitems' p' (by simp))
  · rw [untag?_arr_of_length_ne hlength, untag?_arr_of_length_ne (h.length_eq ▸ hlength)]
    rfl

end LiveBuild.Wire
