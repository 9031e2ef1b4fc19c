import LiveBuild.Member.Wire
import LiveBuild.Proofs.Value.RoundTrip

/-!
# Members that are read back

`read?_write`: every member is read back from its text, whatever its name and its arity are, and
whatever a reader has made of another text.

A member may also be given without its visibility if it is public (`IsForm`). The reader sets the
kind and the arity aside, so the numeral of the arity must be one that can be used: it is, since
sixty-four bits hold it (`isSome_float?_ofInt`).
-/

namespace LiveBuild

/-! ## Records -/

namespace Json

theorem members?_record (ms : List (String × Json)) : (record ms).members? = some ms := by
  rw [record, members?, List.mapM_map]
  exact List.mapM_pure.trans (congrArg some (List.map_id ms))

theorem isStrict_record {ms : List (String × Json)} (h : ∀ m ∈ ms, m.2.IsStrict) :
    (record ms).IsStrict := by
  rw [record, IsStrict, areStrictMembers_iff]
  intro m hm
  obtain ⟨m, hmem, rfl⟩ := List.mem_map.1 hm
  exact h m hmem

end Json

/-- An integer that sixty-four bits hold is in range as a floating point number. -/
theorem Numeral.isSome_float?_ofInt (n : UInt64) : (ofInt n.toNat).float?.isSome = true := by
  have hlt : (n.toNat : ℤ) < UInt64.size := by exact_mod_cast n.toNat_lt_size
  rw [float?, integer?_ofInt ((by decide : Int64.minValue.toInt ≤ 0).trans (by omega)) hlt]
  rfl

namespace Member

variable {m : Member} {j : Json}

/-! ## Forms -/

/-- The tree of a member, with or without its visibility. -/
def form (full : Bool) (m : Member) : Json :=
  .record (("name", .ofString m.name) :: m.kind.toJson ++ ("is_static", .bool m.isStatic) ::
    if full then [("visibility", .ofString m.visibility.name)] else [])

/-- A tree stands for a member: it is the one that is written, or the visibility is left out because
the member is public. -/
inductive IsForm (m : Member) : Json → Prop
  | full : IsForm m (m.form true)
  | short (h : m.visibility = .isPublic) : IsForm m (m.form false)

theorem form_true (m : Member) : m.form true = m.toJson := by
  rw [form, toJson, List.cons_append, List.cons_append]
  rfl

theorem isForm_toJson (m : Member) : m.IsForm m.toJson := by
  rw [← form_true]
  exact .full

theorem natBelow?_arity (n : UInt64) :
    (Json.num (.ofInt n.toNat)).natBelow? UInt64.size = some n.toNat := by
  have hlt : (n.toNat : ℤ) < UInt64.size := by exact_mod_cast n.toNat_lt_size
  rw [Json.natBelow?, Numeral.integer?_ofInt
    ((by decide : Int64.minValue.toInt ≤ 0).trans (by omega)) hlt]
  exact if_pos n.toNat_lt_size

/-! ## Reading -/

/-- The kind is read back from the members that tell it. -/
theorem kindOf?_toJson (k : Kind) : kindOf? k.toJson = some k := by
  cases k with
  | property => rfl
  | method n =>
    have hkind : Json.unique? "kind" (Kind.method n).toJson = some (some (.ofString "method")) :=
      rfl
    have harity : Json.unique? "arity" (Kind.method n).toJson =
      some (some (.num (.ofInt n.toNat))) := rfl
    simp [kindOf?, hkind, harity, kindName?, Json.ofString, natBelow?_arity]

theorem isSound_kind (k : Kind) (levels : ℕ) :
    (k.toJson.all fun p => p.2.isSound levels) = true := by
  cases k with
  | property => rfl
  | method n => simp [Kind.toJson, Json.ofString, Json.isSound, Numeral.isSome_float?_ofInt]

theorem ofName?_name (v : Visibility) : Visibility.ofName? v.name = some v := by
  cases v <;> rfl

/-- A member is read from each of its forms. -/
theorem ofJson?_form {full : Bool} (h : full = false → m.visibility = .isPublic) (levels : ℕ) :
    ofJson? (levels + 1) (m.form full) = some m := by
  obtain ⟨name, kind, isStatic, visibility⟩ := m
  let ms : List (String × Json) := ("name", .ofString name) :: kind.toJson ++
    ("is_static", .bool isStatic) ::
      if full then [("visibility", .ofString visibility.name)] else []
  have hmembers : (Json.record ms).members? = some ms := Json.members?_record ms
  have hname : Json.unique? "name" ms = some (some (.ofString name)) := by
    cases kind <;> cases full <;> rfl
  have hstatic : Json.unique? "is_static" ms = some (some (.bool isStatic)) := by
    cases kind <;> cases full <;> rfl
  have hrest : ms.filter (fun p => !ownNames.contains p.1) = kind.toJson := by
    cases kind <;> cases full <;> rfl
  change ofJson? (levels + 1) (.record ms) = _
  rw [Json.record] at hmembers ⊢
  cases full with
  | true =>
    have hvisibility : Json.unique? "visibility" ms =
        some (some (.ofString visibility.name)) := by cases kind <;> rfl
    simp only [ofJson?, hmembers, hname, hstatic, hvisibility, hrest, Json.text?, Json.bool?,
      Json.choice?, Json.ofString, ofName?_name, isSound_kind, kindOf?_toJson,
      Option.bind_eq_bind, Option.bind_some, if_true]
    rfl
  | false =>
    obtain rfl : visibility = .isPublic := h rfl
    have hvisibility : Json.unique? "visibility" ms = some none := by cases kind <;> rfl
    simp only [ofJson?, hmembers, hname, hstatic, hvisibility, hrest, Json.text?, Json.bool?,
      Json.ofString, isSound_kind, kindOf?_toJson, Option.bind_eq_bind, Option.bind_some, if_true]
    rfl

theorem ofJson?_of_isForm (h : m.IsForm j) (levels : ℕ) : ofJson? (levels + 1) j = some m := by
  cases h with
  | full => exact ofJson?_form (fun h => by cases h) levels
  | short h => exact ofJson?_form (fun _ => h) levels

/-! ## Texts -/

theorem isStrict_form (full : Bool) (m : Member) : (m.form full).IsStrict := by
  refine Json.isStrict_record fun p hp => ?_
  have hkind : ∀ p ∈ m.kind.toJson, p.2.IsStrict := by
    cases m.kind with
    | property => simp [Kind.toJson, Json.ofString, Json.IsStrict]
    | method n => simp [Kind.toJson, Json.ofString, Json.IsStrict, Numeral.isStrict_ofInt]
  simp only [List.cons_append, List.mem_cons, List.mem_append] at hp
  rcases hp with rfl | hp | rfl | hp
  · trivial
  · exact hkind p hp
  · trivial
  · cases full with
    | true =>
      obtain rfl := List.mem_singleton.1 hp
      trivial
    | false => cases hp

theorem isStrict_of_isForm (h : m.IsForm j) : j.IsStrict := by
  cases h <;> exact isStrict_form _ m

/-- **A member is read back from its text.** -/
theorem read?_write (m : Member) : read? m.write = some m := by
  have hparse : Json.parse? m.write.toList = some m.toJson :=
    Json.parse?_write (isStrict_of_isForm m.isForm_toJson)
  rw [read?, hparse]
  exact ofJson?_of_isForm m.isForm_toJson _

end Member

end LiveBuild
