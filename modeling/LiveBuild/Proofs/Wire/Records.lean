import LiveBuild.Proofs.Wire.Agreement

/-!
# Records that are read alike

An object below its tag and a type are records of two fields. They may be spelled as objects or as
arrays, and their readers look at the fields only. So records agree if their fields do
(`FieldsAgree`), however they are spelled. A member is read from an object only: in a sound one its
reader looks at five names (`member_ofJson?_obj`), and at the arity only if the kind is a method
(`kindOfSlots_congr`).

* `agree_obj_of_isRecord`: two objects that stand for a tagged value or for a record agree if what is
  found under the names that their readers know agrees;
* `agree_obj`, `agree_arr`: two trees agree if they are put together from parts that agree, one by
  one.
-/

namespace LiveBuild.Wire

open Json (slot?)
open Value (ofPart? payload? arrayReader objectReader)

variable {r : Role} {j j' : Json} {items items' : List Json} {ms ms' : List (Option String × Json)}
  {l : ℕ}

/-! ## Records of two fields -/

/-- Two records have no fields, or they have the same first field and second fields that agree. -/
def FieldsAgree (r : Role) (names : List String) (j j' : Json) : Prop :=
  j.slots? names = none ∧ j'.slots? names = none ∨
    ∃ first second second', j.slots? names = some [first, second] ∧
      j'.slots? names = some [first, second'] ∧ Option.Rel (Agree r) second second'

theorem eq_of_rel_other {p p' : Option Json} (h : Option.Rel (Agree .other) p p') : p = p' := by
  cases h with
  | none => rfl
  | some h => exact congrArg some h

theorem fieldsAgree_obj {first second : String} {r' : Role}
    (hms : ∀ m ∈ ms, m.1.isSome = true) (hms' : ∀ m ∈ ms', m.1.isSome = true)
    (hfirst : Option.Rel (Option.Rel (Agree .other)) (slot? first ms) (slot? first ms'))
    (hsecond : Option.Rel (Option.Rel (Agree r')) (slot? second ms) (slot? second ms')) :
    FieldsAgree r' [first, second] (.obj ms) (.obj ms') := by
  rw [FieldsAgree, Json.slots?_obj hms, Json.slots?_obj hms']
  simp only [List.mapM_cons, List.mapM_nil]
  generalize slot? first ms = p, slot? first ms' = p' at hfirst ⊢
  generalize slot? second ms = q, slot? second ms' = q' at hsecond ⊢
  cases hfirst with
  | none => exact .inl ⟨rfl, rfl⟩
  | some hp =>
    obtain rfl := eq_of_rel_other hp
    cases hsecond with
    | none => exact .inl ⟨rfl, rfl⟩
    | some hq => exact .inr ⟨_, _, _, rfl, rfl, hq⟩

theorem fieldsAgree_arr {first second : String} {r' : Role} (h : ItemsAgree r items items')
    (hfirst : r.ofItem items 0 = .other) (hsecond : r.ofItem items 1 = r') :
    FieldsAgree r' [first, second] (.arr items) (.arr items') := by
  rw [FieldsAgree, Json.slots?_arr_two, Json.slots?_arr_two, ← h.length_eq]
  split_ifs
  · have h₀ : items[0]? = items'[0]? := eq_of_rel_other (hfirst ▸ h 0)
    exact .inr ⟨_, _, _, rfl, by rw [h₀], hsecond ▸ h 1⟩
  · exact .inl ⟨rfl, rfl⟩

/-- What a reader makes of the two fields of an object. -/
def objectOfSlots (aside : Bool) (levels : ℕ) : List (Option Json) → Option Value
  | [some t, some fields] => do
    return Value.ofFields (← t.text?) (← readFields aside (levels + 1) fields)
  | _ => none

theorem objectOf?_eq (a : Bool) (l : ℕ) (j : Json) :
    Value.objectOf? (ofPart? a l) j = j.slots? ["type_name", "fields"] >>= objectOfSlots a l := by
  rw [Value.objectOf?, Value.objectParts?]
  cases j.slots? ["type_name", "fields"] with
  | none => rfl
  | some slots =>
    rcases slots with _ | ⟨_ | t, _ | ⟨_ | f, _ | ⟨_, _⟩⟩⟩
    iterate 9 rfl
    · simp only [Option.bind_eq_bind, Option.bind_some, objectOfSlots, readFields]
      cases t.text? with
      | none => rfl
      | some t =>
        cases f.members? with
        | none => rfl
        | some fields => rfl
    · rfl

theorem agree_object (h : FieldsAgree .fields ["type_name", "fields"] j j') :
    Agree (.payload .object) j j' := by
  intro a a' l hs hs'
  rcases l with _ | _ | l
  · rfl
  · rfl
  · change Value.objectOf? (ofPart? a l) j = Value.objectOf? (ofPart? a' l) j'
    rw [objectOf?_eq, objectOf?_eq]
    rcases h with ⟨h, h'⟩ | ⟨t, f, f', h, h', hf⟩
    · rw [h, h']
      rfl
    · rw [h, h']
      cases hf with
      | none => cases t <;> rfl
      | @some f f' hf =>
        cases t with
        | none => rfl
        | some t =>
          have hread : readFields a (l + 1) f = readFields a' (l + 1) f' :=
            hf a a' (l + 1) (Json.isSound_of_mem_slots? hs h (by simp))
              (Json.isSound_of_mem_slots? hs' h' (by simp))
          simp only [Option.bind_eq_bind, Option.bind_some, objectOfSlots, hread]

theorem agree_typeEntry (h : FieldsAgree .members ["name", "members"] j j') :
    Agree .typeEntry j j' := by
  intro l hs hs'
  rcases l with _ | l
  · rfl
  · rw [TypeEntry.ofJson?, TypeEntry.ofJson?]
    rcases h with ⟨h, h'⟩ | ⟨t, f, f', h, h', hf⟩
    · rw [h, h']
    · rw [h, h']
      cases hf with
      | none => cases t <;> rfl
      | @some f f' hf =>
        cases t with
        | none => rfl
        | some t =>
          have hread : f.list? l Member.ofJson? = f'.list? l Member.ofJson? :=
            hf l (Json.isSound_of_mem_slots? hs h (by simp))
              (Json.isSound_of_mem_slots? hs' h' (by simp))
          simp only [Option.bind_eq_bind, Option.bind_some, hread]

theorem agree_manifest (h : j.slots? ["types"] = none ∧ j'.slots? ["types"] = none ∨
      ∃ f f', j.slots? ["types"] = some [f] ∧ j'.slots? ["types"] = some [f'] ∧
        Option.Rel (Agree .types) f f') : Agree .manifest j j' := by
  intro l hs hs'
  rcases l with _ | l
  · rfl
  · rw [Manifest.ofJson?, Manifest.ofJson?]
    rcases h with ⟨h, h'⟩ | ⟨f, f', h, h', hf⟩
    · rw [h, h']
    · rw [h, h']
      cases hf with
      | none => rfl
      | @some f f' hf =>
        exact hf l (Json.isSound_of_mem_slots? hs h (by simp))
          (Json.isSound_of_mem_slots? hs' h' (by simp))

/-! ## Members -/

/-- What a reader makes of a kind that was set aside, and of an arity for a method. -/
def kindOfSlots (kind arity : Option (Option Json)) : Option Member.Kind := do
  match ← Member.kindName? (← ← kind) with
  | "method" =>
    let n ← (← ← arity).natBelow? UInt64.size
    return .method (UInt64.ofNat n)
  | "property" => return .property
  | _ => none

/-- What a reader makes of the members of an object that stands for a member. -/
def memberOfSlots (levels : ℕ) (ms : List (Option String × Json)) : Option Member := do
  let name ← (← ← slot? "name" ms).text?
  let isStatic ← (← ← slot? "is_static" ms).bool?
  let visibility ← match ← slot? "visibility" ms with
    | some j => j.choice? false levels >>= Member.Visibility.ofName?
    | none => some .isPublic
  return ⟨name, ← kindOfSlots (slot? "kind" ms) (slot? "arity" ms), isStatic, visibility⟩

theorem unique?_filter {name : String} (ms : List (String × Json)) (p : String × Json → Bool)
    (h : ∀ m, m.1 = name → p m = true) :
    Json.unique? name (ms.filter p) = Json.unique? name ms := by
  have hvalues : Json.valuesOf name (ms.filter p) = Json.valuesOf name ms := by
    rw [Json.valuesOf, Json.valuesOf, List.filter_filter]
    refine congrArg (List.map _) (List.filter_congr fun m _ => ?_)
    by_cases hm : m.1 = name
    · simp [hm, h m hm]
    · simp [hm]
  rw [Json.unique?, Json.unique?, hvalues]

/-- In a sound object all that is set aside is sound, so only the slots matter. -/
theorem member_ofJson?_obj (hms : ∀ m ∈ ms, m.1.isSome = true ∧ m.2.isSound l = true) :
    Member.ofJson? (l + 1) (.obj ms) = memberOfSlots l ms := by
  have hnames : ∀ m ∈ ms, m.1.isSome = true := fun m hm => (hms m hm).1
  have hrest : ((Json.named ms).filter fun m => !Member.ownNames.contains m.1).all
      (·.2.isSound l) = true := by
    rw [List.all_eq_true]
    intro m hm
    obtain ⟨m, hmem, rfl⟩ := List.mem_map.1 (List.mem_filter.1 hm).1
    exact (hms m hmem).2
  have hslot (name : String) (hname : name ∉ Member.ownNames) :
      Json.unique? name ((Json.named ms).filter fun m => !Member.ownNames.contains m.1) =
        slot? name ms := by
    rw [unique?_filter, Json.unique?_named hnames]
    rintro m rfl
    simpa using hname
  have hkind : Member.kindOf? ((Json.named ms).filter fun m => !Member.ownNames.contains m.1) =
      kindOfSlots (slot? "kind" ms) (slot? "arity" ms) := by
    rw [Member.kindOf?, hslot "kind" (by decide), hslot "arity" (by decide)]
    rfl
  rw [Member.ofJson?]
  simp only [Json.members?_of_named hnames, Json.unique?_named hnames, hrest, hkind,
    Option.bind_eq_bind, Option.bind_some, if_true]
  rfl

theorem eq_of_slot_other {p p' : Option (Option Json)}
    (h : Option.Rel (Option.Rel (Agree .other)) p p') : p = p' := by
  cases h with
  | none => rfl
  | some h => exact congrArg some (eq_of_rel_other h)

/-- The arity matters only to a method. -/
theorem kindOfSlots_congr {kind arity arity' : Option (Option Json)}
    (h : kind.join >>= Member.kindName? ≠ some "property" → arity = arity') :
    kindOfSlots kind arity = kindOfSlots kind arity' := by
  by_cases hkind : kind.join >>= Member.kindName? = some "property"
  · rcases kind with _ | _ | j
    · rfl
    · rfl
    · have hname : Member.kindName? j = some "property" := hkind
      simp only [kindOfSlots, Option.bind_eq_bind, Option.bind_some, hname]
  · rw [h hkind]

theorem agree_member_obj (h : SlotsAgree .member ms ms') : Agree .member (.obj ms) (.obj ms') := by
  intro l hs hs'
  obtain ⟨l, rfl, hms, hms'⟩ := exists_level_obj hs hs'
  have hslot (name : String) (hname : name ∈ Role.names .member ms) :
      slot? name ms = slot? name ms' := eq_of_slot_other (h name hname)
  have hkind : kindOfSlots (slot? "kind" ms) (slot? "arity" ms) =
      kindOfSlots (slot? "kind" ms') (slot? "arity" ms') := by
    rw [← hslot "kind" (by simp [Role.names])]
    refine kindOfSlots_congr fun hmethod => hslot "arity" ?_
    simp only [Role.names, if_neg hmethod]
    decide
  rw [member_ofJson?_obj hms, member_ofJson?_obj hms', memberOfSlots, memberOfSlots, hkind,
    hslot "name" (by simp [Role.names, Member.ownNames]),
    hslot "is_static" (by simp [Role.names, Member.ownNames]),
    hslot "visibility" (by simp [Role.names, Member.ownNames])]

/-! ## Objects -/

/-- Two members of an object and of another one have the same name and agree. -/
def MemberAgrees (r : Role) (ms : List (Option String × Json)) (m m' : Option String × Json) :
    Prop :=
  m.1 = m'.1 ∧ ∀ name, m.1 = some name → Agree (r.ofMember ms name) m.2 m'.2

/-- Two objects have the same names in the same order, and what stands under them agrees. -/
def MembersAgree (r : Role) (ms ms' : List (Option String × Json)) : Prop :=
  List.Forall₂ (MemberAgrees r ms) ms ms'

theorem MembersAgree.slotsAgree (h : MembersAgree r ms ms') : SlotsAgree r ms ms' :=
  fun name _ => Json.slot?_rel (h.imp fun _ _ hm => ⟨hm.1, hm.2 name⟩)

theorem agree_fields (h : MembersAgree .fields ms ms') : Agree .fields (.obj ms) (.obj ms') := by
  intro a a' l hs hs'
  obtain ⟨l, rfl, hms, hms'⟩ := exists_level_obj hs hs'
  rw [readFields, readFields, Json.members?_of_named fun m hm => (hms m hm).1,
    Json.members?_of_named fun m hm => (hms' m hm).1]
  refine mapM_congr_of_forall₂ ?_
  rw [Json.named, Json.named, List.forall₂_map_left_iff, List.forall₂_map_right_iff]
  refine forall₂_imp_of_mem h fun m hm m' hm' hagree => ?_
  obtain ⟨name, hname⟩ := Option.isSome_iff_exists.1 (hms m hm).1
  have hvalue : ofPart? a l m.2 = ofPart? a' l m'.2 :=
    hagree.2 name hname a a' (fun h => by cases h) l (hms m hm).2 (hms' m' hm').2
  rw [hvalue, hagree.1]

theorem agree_obj_of_isRecord (hr : r.IsRecord) (h : SlotsAgree r ms ms') :
    Agree r (.obj ms) (.obj ms') := by
  cases r with
  | value => exact agree_value_obj h
  | payload kind =>
    cases kind with
    | object =>
      intro a a' l hs hs'
      obtain ⟨_, -, hms, hms'⟩ := exists_level_obj hs hs'
      exact agree_object (fieldsAgree_obj (fun m hm => (hms m hm).1) (fun m hm => (hms' m hm).1)
        (h "type_name" (by simp [Role.names])) (h "fields" (by simp [Role.names]))) a a' l hs hs'
    | null | bool | int | float | str | array => cases hr
  | member => exact agree_member_obj h
  | typeEntry =>
    intro l hs hs'
    obtain ⟨_, -, hms, hms'⟩ := exists_level_obj hs hs'
    exact agree_typeEntry (fieldsAgree_obj (fun m hm => (hms m hm).1) (fun m hm => (hms' m hm).1)
      (h "name" (by simp [Role.names])) (h "members" (by simp [Role.names]))) l hs hs'
  | manifest =>
    intro l hs hs'
    obtain ⟨_, -, hms, hms'⟩ := exists_level_obj hs hs'
    refine agree_manifest ?_ l hs hs'
    rw [Json.slots?_obj fun m hm => (hms m hm).1, Json.slots?_obj fun m hm => (hms' m hm).1]
    have htypes : Option.Rel (Option.Rel (Agree .types)) (slot? "types" ms) (slot? "types" ms') :=
      h "types" (List.mem_singleton_self _)
    simp only [List.mapM_cons, List.mapM_nil]
    generalize slot? "types" ms = f, slot? "types" ms' = f' at htypes ⊢
    cases htypes with
    | none => exact .inl ⟨rfl, rfl⟩
    | some hrel => exact .inr ⟨_, _, rfl, rfl, hrel⟩
  | fields | members | types | tag | other => cases hr

theorem agree_obj (hr : r ≠ .tag ∧ r ≠ .other) (h : MembersAgree r ms ms') :
    Agree r (.obj ms) (.obj ms') := by
  cases r with
  | value | member | typeEntry | manifest => exact agree_obj_of_isRecord trivial h.slotsAgree
  | payload kind =>
    cases kind with
    | object => exact agree_obj_of_isRecord trivial h.slotsAgree
    | null | bool | int | float | str => exact fun _ _ _ _ _ => rfl
    | array => rintro _ _ (_ | _) _ _ <;> rfl
  | fields => exact agree_fields h
  | members | types => rintro (_ | _) _ _ <;> rfl
  | tag => exact absurd rfl hr.1
  | other => exact absurd rfl hr.2

/-! ## Arrays -/

theorem agree_arr (hr : r ≠ .tag ∧ r ≠ .other) (h : ItemsAgree r items items') :
    Agree r (.arr items) (.arr items') := by
  cases r with
  | value => exact agree_value_arr h
  | payload kind =>
    cases kind with
    | object => exact agree_object (fieldsAgree_arr h rfl rfl)
    | null | bool | int | float | str => exact fun _ _ _ _ _ => rfl
    | array =>
      intro a a' l hs hs'
      obtain ⟨l, rfl, hitems, hitems'⟩ := exists_level_arr hs hs'
      rw [readUnder_arr, readUnder_arr]
      refine congrArg (Option.map Value.array) (mapM_eq_of_alike ?_ hitems hitems')
      refine (h.forall₂ fun _ => rfl).imp fun j j' hj => ?_
      exact hj a a' fun h => by cases h
  | fields => rintro _ _ (_ | _) _ _ <;> rfl
  | member => rintro (_ | _) _ _ <;> rfl
  | members => exact Alike.list (h.forall₂ fun _ => rfl)
  | types => exact Alike.list (h.forall₂ fun _ => rfl)
  | typeEntry => exact agree_typeEntry (fieldsAgree_arr h rfl rfl)
  | manifest =>
    refine agree_manifest ?_
    rw [Json.slots?_arr_one, Json.slots?_arr_one, ← h.length_eq]
    split_ifs
    · exact .inr ⟨_, _, rfl, rfl, h 0⟩
    · exact .inl ⟨rfl, rfl⟩
  | tag => exact absurd rfl hr.1
  | other => exact absurd rfl hr.2

end LiveBuild.Wire
