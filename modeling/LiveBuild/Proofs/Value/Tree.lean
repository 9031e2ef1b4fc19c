import LiveBuild.Proofs.Decimal.Numeral
import LiveBuild.Proofs.Json.RoundTrip
import LiveBuild.Value.Wire

/-!
# The tree of a value

What the tree of a value has to do with the value.

* `Value.induct`: induction on a value, over the items of an array and the fields of an object;
* `Json.depth`: how many levels of arrays and objects are nested in a tree;
* `Value.floats`: the floating point numbers in a value;
* `Value.Fits`: every number is finite, and the tree has at most a given number of levels.
  `fits_array` and `fits_object` reduce this to the parts: an array takes up two levels, that of its
  tag and its own, and an object three, because its fields have an object of their own;
* `Value.parse?_write`: the text of a value is parsed as its tree.
-/

namespace LiveBuild

namespace Json

/-! ## Nesting -/

mutual

/-- The number of levels of arrays and objects. -/
def depth : Json → ℕ
  | arr items => depths items + 1
  | obj members => memberDepths members + 1
  | _ => 0

/-- The depth of the deepest tree of a list. -/
def depths : List Json → ℕ
  | [] => 0
  | j :: rest => max j.depth (depths rest)

/-- The depth of the deepest member. -/
def memberDepths : List (Option String × Json) → ℕ
  | [] => 0
  | (_, j) :: rest => max j.depth (memberDepths rest)

end

variable {levels : ℕ}

theorem depths_le {js : List Json} : depths js ≤ levels ↔ ∀ j ∈ js, j.depth ≤ levels := by
  induction js with
  | nil => simp [depths]
  | cons j js ih => rw [depths, max_le_iff, ih, List.forall_mem_cons]

theorem memberDepths_le {ms : List (Option String × Json)} :
    memberDepths ms ≤ levels ↔ ∀ m ∈ ms, m.2.depth ≤ levels := by
  induction ms with
  | nil => simp [memberDepths]
  | cons m ms ih => rw [memberDepths, max_le_iff, ih, List.forall_mem_cons]

theorem areStrict_iff {js : List Json} : AreStrict js ↔ ∀ j ∈ js, j.IsStrict := by
  induction js with
  | nil => simp [AreStrict]
  | cons j js ih => rw [AreStrict, ih, List.forall_mem_cons]

theorem areStrictMembers_iff {ms : List (Option String × Json)} :
    AreStrictMembers ms ↔ ∀ m ∈ ms, m.2.IsStrict := by
  induction ms with
  | nil => simp [AreStrictMembers]
  | cons m ms ih => rw [AreStrictMembers, ih, List.forall_mem_cons]

end Json

namespace Value

/-! ## Values and their parts -/

/-- Induction on a value, in which the parts are members of a list. -/
@[induction_eliminator]
theorem induct {motive : Value → Prop} (null : motive null) (bool : ∀ b, motive (bool b))
    (int : ∀ n, motive (int n)) (float : ∀ x, motive (float x)) (str : ∀ s, motive (str s))
    (array : ∀ items, (∀ v ∈ items, motive v) → motive (array items))
    (object : ∀ t fields, (∀ f ∈ fields, motive f.2) → motive (object t fields)) (v : Value) :
    motive v :=
  Value.rec (motive_2 := fun items => ∀ v ∈ items, motive v)
    (motive_3 := fun fields => ∀ f ∈ fields, motive f.2) (motive_4 := fun f => motive f.2)
    null bool int float str array object (fun _ => nofun)
    (fun _ _ hv hrest => List.forall_mem_cons.2 ⟨hv, hrest⟩) (fun _ => nofun)
    (fun _ _ hf hrest => List.forall_mem_cons.2 ⟨hf, hrest⟩) (fun _ _ h => h) v

mutual

/-- The floating point numbers in a value. -/
def floats : Value → List Binary64
  | float x => [x]
  | array items => itemFloats items
  | object _ fields => fieldFloats fields
  | _ => []

/-- The floating point numbers in the items of an array. -/
def itemFloats : List Value → List Binary64
  | [] => []
  | v :: rest => v.floats ++ itemFloats rest

/-- The floating point numbers in the fields of an object. -/
def fieldFloats : List (String × Value) → List Binary64
  | [] => []
  | (_, v) :: rest => v.floats ++ fieldFloats rest

end

theorem forall_itemFloats {p : Binary64 → Prop} {items : List Value} :
    (∀ x ∈ itemFloats items, p x) ↔ ∀ v ∈ items, ∀ x ∈ v.floats, p x := by
  induction items with
  | nil => simp [itemFloats]
  | cons v items ih => rw [itemFloats, List.forall_mem_append, ih, List.forall_mem_cons]

theorem forall_fieldFloats {p : Binary64 → Prop} {fields : List (String × Value)} :
    (∀ x ∈ fieldFloats fields, p x) ↔ ∀ f ∈ fields, ∀ x ∈ f.2.floats, p x := by
  induction fields with
  | nil => simp [fieldFloats]
  | cons f fields ih => rw [fieldFloats, List.forall_mem_append, ih, List.forall_mem_cons]

theorem areOrdered_iff {items : List Value} : AreOrdered items ↔ ∀ v ∈ items, v.IsOrdered := by
  induction items with
  | nil => simp [AreOrdered]
  | cons v items ih => rw [AreOrdered, ih, List.forall_mem_cons]

theorem areOrderedFields_iff {fields : List (String × Value)} :
    AreOrderedFields fields ↔ ∀ f ∈ fields, f.2.IsOrdered := by
  induction fields with
  | nil => simp [AreOrderedFields]
  | cons f fields ih => rw [AreOrderedFields, ih, List.forall_mem_cons]

theorem itemsJson_eq (items : List Value) : itemsJson items = items.map toJson := by
  induction items with
  | nil => rfl
  | cons v items ih => rw [itemsJson, ih, List.map_cons]

theorem fieldsJson_eq (fields : List (String × Value)) :
    fieldsJson fields = fields.map fun f => (some f.1, f.2.toJson) := by
  induction fields with
  | nil => rfl
  | cons f fields ih => rw [fieldsJson, ih, List.map_cons]

/-! ## Values that fit -/

/-- Every floating point number is finite, and at most `levels` levels are nested. -/
structure Fits (levels : ℕ) (v : Value) : Prop where
  finite : ∀ x ∈ v.floats, x.isFinite = true
  depth : v.toJson.depth ≤ levels

variable {levels : ℕ}

theorem depth_tagged (kind : Kind) (payload : Json) :
    (tagged kind payload).depth = payload.depth + 1 := by
  simp [tagged, Json.record, Json.ofString, Json.depth, Json.memberDepths]

/-- A value without numbers and without parts fits in one level. -/
theorem fits_iff_pos {v : Value} (hfloats : v.floats = []) (hdepth : v.toJson.depth = 1) :
    v.Fits levels ↔ 0 < levels := by
  constructor
  · intro h
    exact hdepth.symm.trans_le h.depth
  · intro h
    exact ⟨by simp [hfloats], hdepth.trans_le h⟩

theorem depth_floatJson (x : Binary64) : (floatJson x).depth = 0 := by
  rw [floatJson]
  split <;> rfl

theorem fits_float {x : Binary64} :
    (float x).Fits levels ↔ x.isFinite = true ∧ 0 < levels := by
  have hdepth : (float x).toJson.depth = 1 := by rw [toJson, depth_tagged, depth_floatJson]
  constructor
  · intro h
    exact ⟨h.finite x (List.mem_singleton_self x), hdepth.symm.trans_le h.depth⟩
  · rintro ⟨hx, hlevels⟩
    exact ⟨fun y hy => List.mem_singleton.1 hy ▸ hx, hdepth.trans_le hlevels⟩

theorem fits_array {items : List Value} :
    (array items).Fits levels ↔ ∃ l, levels = l + 2 ∧ ∀ v ∈ items, v.Fits l := by
  have hdepth : (array items).toJson.depth = Json.depths (items.map toJson) + 2 := by
    rw [toJson, depth_tagged, Json.depth, itemsJson_eq]
  constructor
  · intro h
    have hle := h.depth
    rw [hdepth] at hle
    obtain ⟨l, rfl⟩ := Nat.exists_eq_add_of_le' (le_trans (Nat.le_add_left 2 _) hle)
    have hparts := Json.depths_le.1 (Nat.le_of_add_le_add_right hle)
    refine ⟨l, rfl, fun v hv => ⟨forall_itemFloats.1 h.finite v hv, ?_⟩⟩
    exact hparts _ (List.mem_map_of_mem hv)
  · rintro ⟨l, rfl, h⟩
    refine ⟨forall_itemFloats.2 fun v hv => (h v hv).finite, ?_⟩
    rw [hdepth]
    refine Nat.add_le_add_right (Json.depths_le.2 ?_) 2
    exact List.forall_mem_map.2 fun v hv => (h v hv).depth

theorem fits_object {t : String} {fields : List (String × Value)} :
    (object t fields).Fits levels ↔ ∃ l, levels = l + 3 ∧ ∀ f ∈ fields, f.2.Fits l := by
  have hdepth : (object t fields).toJson.depth =
      Json.memberDepths (fields.map fun f => (some f.1, f.2.toJson)) + 3 := by
    rw [toJson, depth_tagged, fieldsJson_eq]
    simp [Json.record, Json.ofString, Json.depth, Json.memberDepths]
  constructor
  · intro h
    have hle := h.depth
    rw [hdepth] at hle
    obtain ⟨l, rfl⟩ := Nat.exists_eq_add_of_le' (le_trans (Nat.le_add_left 3 _) hle)
    have hparts := Json.memberDepths_le.1 (Nat.le_of_add_le_add_right hle)
    refine ⟨l, rfl, fun f hf => ⟨forall_fieldFloats.1 h.finite f hf, ?_⟩⟩
    exact List.forall_mem_map.1 hparts f hf
  · rintro ⟨l, rfl, h⟩
    refine ⟨forall_fieldFloats.2 fun f hf => (h f hf).finite, ?_⟩
    rw [hdepth]
    refine Nat.add_le_add_right (Json.memberDepths_le.2 ?_) 3
    exact List.forall_mem_map.2 fun f hf => (h f hf).depth

/-! ## The text of a value -/

theorem isStrict_tagged {kind : Kind} {payload : Json} :
    (tagged kind payload).IsStrict ↔ payload.IsStrict := by
  simp [tagged, Json.record, Json.ofString, Json.IsStrict, Json.AreStrictMembers]

theorem isStrict_toJson (v : Value) : v.toJson.IsStrict := by
  induction v with
  | null => exact ⟨trivial, trivial⟩
  | bool | str => exact isStrict_tagged.2 trivial
  | int n => exact isStrict_tagged.2 (Numeral.isStrict_ofInt n.toInt)
  | float x =>
    refine isStrict_tagged.2 ?_
    rw [floatJson]
    split
    · exact Decimal.isStrict_numeral Decimal.wire x
    · trivial
  | array items ih =>
    refine isStrict_tagged.2 (Json.areStrict_iff.2 ?_)
    rw [itemsJson_eq]
    exact List.forall_mem_map.2 ih
  | object t fields ih =>
    refine isStrict_tagged.2 ⟨trivial, Json.areStrictMembers_iff.2 ?_, trivial⟩
    rw [fieldsJson_eq]
    exact List.forall_mem_map.2 ih

/-- The text of a value is parsed as the tree of the value. -/
theorem parse?_write (v : Value) : Json.parse? v.write.toList = some v.toJson :=
  Json.parse?_write (isStrict_toJson v)

end Value

end LiveBuild
