import LiveBuild.Proofs.Decimal.Finite
import LiveBuild.Proofs.Value.Tree

/-!
# Values that are read back

`roundTrip`: the text of a value is read as that value if the value fits the reader, and is refused
otherwise; and a text that is read has a value that fits, so that what is written for it is read
again.

The reader of a tree takes the levels it may open, and the reader of its parts fewer of them
(`arrayReader`, `objectReader`). `ofJson?_toJson` and `fits_of_ofJson?_toJson` go by induction on
the value that is written, and `fits_of_ofPart?` by induction on the levels of the reader.

The numeral of a finite number need not be read as that number, because the reader of numerals
rounds twice. `Binary64.ReadsBack` says of one number that it is.
-/

namespace LiveBuild

namespace Numeral

/-- The numeral of an integer in range denotes that integer. -/
theorem integer?_ofInt {i : ℤ} (hmin : Int64.minValue.toInt ≤ i) (hmax : i < UInt64.size) :
    (ofInt i).integer? = some i := by
  have hvalue : digitsValue (ofInt i).whole = i.natAbs := digitsValue_toDigits i.natAbs
  have hwhole : (ofInt i).isWhole = true := rfl
  have hsign : (ofInt i).negative = decide (i < 0) := rfl
  rw [integer?, hvalue, hwhole, hsign]
  rcases lt_or_ge i 0 with hi | hi
  · have habs : -(i.natAbs : ℤ) = i := by omega
    have hpos : 0 < i.natAbs := by omega
    simp only [hi, habs, hpos, hmin, decide_true, Bool.not_true, Bool.and_self, Bool.false_eq_true,
      ↓reduceIte]
  · have habs : (i.natAbs : ℤ) = i := by omega
    have hlt : i.natAbs < UInt64.size := by omega
    simp [not_lt.2 hi, habs, hlt]

end Numeral

/-- The numeral that is written for a number denotes that number. -/
def Binary64.ReadsBack (x : Binary64) : Prop := (Decimal.wire.numeral x).float? = some x

instance (x : Binary64) : Decidable x.ReadsBack :=
  inferInstanceAs (Decidable ((Decimal.wire.numeral x).float? = some x))

section

variable {α β : Type} {f : α → Option β} {xs : List α} {ys : List β}

theorem mapM_eq_some_self {f : α → Option α} (h : ∀ x ∈ xs, f x = some x) :
    xs.mapM f = some xs := by
  induction xs with
  | nil => rfl
  | cons x xs ih =>
    obtain ⟨hx, hxs⟩ := List.forall_mem_cons.1 h
    rw [List.mapM_cons, hx, ih hxs]
    rfl

theorem exists_of_mapM_eq_some (h : xs.mapM f = some ys) :
    (∀ x ∈ xs, ∃ y ∈ ys, f x = some y) ∧ ∀ y ∈ ys, ∃ x ∈ xs, f x = some y := by
  induction xs generalizing ys with
  | nil =>
    obtain rfl : [] = ys := Option.some_inj.1 h
    exact ⟨nofun, nofun⟩
  | cons x xs ih =>
    rw [List.mapM_cons] at h
    obtain ⟨y, hy, h⟩ := Option.bind_eq_some_iff.1 h
    obtain ⟨ys, hys, h⟩ := Option.bind_eq_some_iff.1 h
    obtain rfl := Option.some_inj.1 h
    obtain ⟨hto, hfrom⟩ := ih hys
    constructor
    · refine List.forall_mem_cons.2 ⟨⟨y, List.mem_cons_self, hy⟩, fun x' hx' => ?_⟩
      exact (hto x' hx').imp fun _ h => ⟨List.mem_cons_of_mem _ h.1, h.2⟩
    · refine List.forall_mem_cons.2 ⟨⟨x, List.mem_cons_self, hy⟩, fun y' hy' => ?_⟩
      exact (hfrom y' hy').imp fun _ h => ⟨List.mem_cons_of_mem _ h.1, h.2⟩

end

namespace Value

variable {aside : Bool} {levels l : ℕ} {j : Json} {v w : Value}

/-! ## One level of the reader -/

/-- The reader of an array below its tag. -/
def arrayReader (aside : Bool) : ℕ → Json → Option Value
  | 0 => fun _ => none
  | l + 1 => arrayOf? (ofPart? aside l)

/-- The reader of an object below its tag. -/
def objectReader (aside : Bool) : ℕ → Json → Option Value
  | 0 => fun _ => none
  | 1 => fun _ => none
  | l + 2 => objectOf? (ofPart? aside l)

theorem pos_of_ofPart? (h : ofPart? aside levels j = some v) : 0 < levels := by
  rcases levels with _ | levels
  · cases h
  · exact Nat.succ_pos levels

theorem ofPart?_succ (aside : Bool) (levels : ℕ) (j : Json) :
    ofPart? aside (levels + 1) j = untag? aside levels j >>=
      payload? (arrayReader (aside || setsAside j) levels)
        (objectReader (aside || setsAside j) levels) := by
  rcases levels with _ | _ | levels <;> rfl

theorem untag?_tagged (kind : Kind) (payload : Json) :
    untag? aside levels (tagged kind payload) = some (kind, some payload) := by
  cases kind <;> rfl

theorem ofJson?_tagged (kind : Kind) (payload : Json) :
    ofJson? (levels + 1) (tagged kind payload) =
      payload? (arrayReader false levels) (objectReader false levels) (kind, some payload) := by
  rw [ofJson?, ofPart?_succ, untag?_tagged]
  rfl

theorem intOfNumeral?_ofInt (n : Int64) : intOfNumeral? (.ofInt n.toInt) = some n := by
  have hlt : n.toInt < UInt64.size := n.toInt_lt.trans (by decide)
  rw [intOfNumeral?, Numeral.integer?_ofInt n.minValue_le_toInt hlt]
  simp [n.toInt_le]

theorem ofJson?_float (x : Binary64) :
    ofJson? (levels + 1) (float x).toJson =
      if x.isFinite then (Decimal.wire.numeral x).float?.map float else none := by
  rw [toJson, ofJson?_tagged, floatJson]
  split <;> rfl

theorem ofJson?_array (items : List Value) :
    ofJson? (l + 2) (array items).toJson =
      (items.mapM fun v => ofJson? l v.toJson).map array := by
  rw [toJson, ofJson?_tagged, payload?, arrayReader, arrayOf?, itemsJson_eq, List.mapM_map]
  rfl

theorem members?_fieldsJson (fields : List (String × Value)) :
    (Json.obj (fieldsJson fields)).members? = some (fields.map fun f => (f.1, f.2.toJson)) := by
  rw [fieldsJson_eq, Json.members?, List.mapM_map]
  exact List.mapM_pure

theorem objectParts?_record (t : String) (fields : Json) :
    objectParts? (.record [("type_name", .ofString t), ("fields", fields)]) =
      fields.members?.map (t, ·) := by
  have hslots : (Json.record [("type_name", .ofString t), ("fields", fields)]).slots?
      ["type_name", "fields"] = some [some (.ofString t), some fields] := rfl
  rw [objectParts?, hslots]
  exact Option.map_eq_bind.symm

theorem ofJson?_object (t : String) (fields : List (String × Value)) :
    ofJson? (l + 3) (object t fields).toJson =
      (fields.mapM fun f => (ofJson? l f.2.toJson).map (f.1, ·)).map (ofFields t) := by
  rw [toJson, ofJson?_tagged, payload?, objectReader, objectOf?, objectParts?_record,
    members?_fieldsJson]
  simp only [Option.map_some, bind, Option.bind_some, List.mapM_map]
  exact Option.map_eq_bind.symm

/-! ## What is written -/

/-- A value that fits is read back from its tree. -/
theorem ofJson?_toJson (hv : v.IsOrdered) (hfits : v.Fits levels)
    (hx : ∀ x ∈ v.floats, x.ReadsBack) : ofJson? levels v.toJson = some v := by
  induction v generalizing levels with
  | null | bool | str =>
    obtain ⟨l, rfl⟩ := Nat.exists_eq_add_one.2 ((fits_iff_pos rfl rfl).1 hfits)
    rw [ofJson?, ofPart?_succ]
    rfl
  | int n =>
    obtain ⟨l, rfl⟩ := Nat.exists_eq_add_one.2 ((fits_iff_pos rfl rfl).1 hfits)
    rw [toJson, ofJson?_tagged, payload?, intOfNumeral?_ofInt]
    rfl
  | float x =>
    obtain ⟨hfinite, hpos⟩ := fits_float.1 hfits
    obtain ⟨l, rfl⟩ := Nat.exists_eq_add_one.2 hpos
    have hback : x.ReadsBack := hx x (List.mem_singleton_self x)
    rw [ofJson?_float, if_pos hfinite, hback]
    rfl
  | array items ih =>
    obtain ⟨l, rfl, hparts⟩ := fits_array.1 hfits
    rw [ofJson?_array, mapM_eq_some_self fun v hmem => ?_]
    · rfl
    · exact ih v hmem (areOrdered_iff.1 hv v hmem) (hparts v hmem) (forall_itemFloats.1 hx v hmem)
  | object t fields ih =>
    obtain ⟨l, rfl, hparts⟩ := fits_object.1 hfits
    rw [ofJson?_object, mapM_eq_some_self fun f hmem => ?_]
    · rw [Option.map_some, ofFields, Fields.ofList_of_sorted hv.1]
    · rw [ih f hmem (areOrderedFields_iff.1 hv.2 f hmem) (hparts f hmem)
        (forall_fieldFloats.1 hx f hmem)]
      rfl

/-- Only a value that fits is read from its tree. -/
theorem fits_of_ofJson?_toJson (h : ofJson? levels v.toJson = some w) : v.Fits levels := by
  induction v generalizing levels w with
  | null | bool | str | int => exact (fits_iff_pos rfl rfl).2 (pos_of_ofPart? h)
  | float x =>
    obtain ⟨l, rfl⟩ := Nat.exists_eq_add_one.2 (pos_of_ofPart? h)
    rw [ofJson?_float] at h
    split_ifs at h with hx
    exact fits_float.2 ⟨hx, Nat.succ_pos l⟩
  | array items ih =>
    rcases levels with _ | _ | l
    · cases h
    · rw [toJson, ofJson?_tagged, payload?, arrayReader] at h
      cases h
    rw [ofJson?_array] at h
    obtain ⟨ws, hws, -⟩ := Option.map_eq_some_iff.1 h
    refine fits_array.2 ⟨l, rfl, fun v hmem => ?_⟩
    obtain ⟨w, -, hw⟩ := (exists_of_mapM_eq_some hws).1 v hmem
    exact ih v hmem hw
  | object t fields ih =>
    rcases levels with _ | _ | _ | l
    · cases h
    · rw [toJson, ofJson?_tagged, payload?, objectReader] at h
      cases h
    · rw [toJson, ofJson?_tagged, payload?, objectReader] at h
      cases h
    rw [ofJson?_object] at h
    obtain ⟨ws, hws, -⟩ := Option.map_eq_some_iff.1 h
    refine fits_object.2 ⟨l, rfl, fun f hmem => ?_⟩
    obtain ⟨w, -, hw⟩ := (exists_of_mapM_eq_some hws).1 f hmem
    obtain ⟨w, hw, -⟩ := Option.map_eq_some_iff.1 hw
    exact ih f hmem hw

/-! ## What is read -/

theorem arrayOf?_eq_some {read : Json → Option Value} (h : arrayOf? read j = some v) :
    ∃ items, v = array items ∧ ∀ w ∈ items, ∃ j, read j = some w := by
  unfold arrayOf? at h
  split at h
  · obtain ⟨items, hitems, rfl⟩ := Option.map_eq_some_iff.1 h
    exact ⟨items, rfl, fun w hw => ((exists_of_mapM_eq_some hitems).2 w hw).imp fun _ h => h.2⟩
  · cases h

theorem objectOf?_eq_some {read : Json → Option Value} (h : objectOf? read j = some v) :
    ∃ t fields, v = ofFields t fields ∧ ∀ f ∈ fields, ∃ j, read j = some f.2 := by
  obtain ⟨⟨t, members⟩, -, h⟩ := Option.bind_eq_some_iff.1 h
  obtain ⟨fields, hfields, h⟩ := Option.bind_eq_some_iff.1 h
  obtain rfl := Option.some_inj.1 h
  refine ⟨t, fields, rfl, fun f hf => ?_⟩
  obtain ⟨m, -, hm⟩ := (exists_of_mapM_eq_some hfields).2 f hf
  obtain ⟨v, hv, rfl⟩ := Option.map_eq_some_iff.1 hm
  exact ⟨m.2, hv⟩

/-- A value that is read is ordered, and it fits the reader. -/
theorem fits_of_ofPart? (h : ofPart? aside levels j = some v) : v.IsOrdered ∧ v.Fits levels := by
  induction levels using Nat.strong_induction_on generalizing aside j v with
  | _ levels ih =>
  obtain ⟨levels, rfl⟩ := Nat.exists_eq_add_one.2 (pos_of_ofPart? h)
  rw [ofPart?_succ] at h
  obtain ⟨p, -, h⟩ := Option.bind_eq_some_iff.1 h
  unfold payload? at h
  split at h
  case h_1 | h_2 | h_3 =>
    obtain rfl := Option.some_inj.1 h
    exact ⟨trivial, (fits_iff_pos rfl rfl).2 (Nat.succ_pos levels)⟩
  case h_4 | h_6 =>
    obtain ⟨_, -, rfl⟩ := Option.map_eq_some_iff.1 h
    exact ⟨trivial, (fits_iff_pos rfl rfl).2 (Nat.succ_pos levels)⟩
  case h_5 =>
    obtain ⟨x, hx, rfl⟩ := Option.map_eq_some_iff.1 h
    exact ⟨trivial, fits_float.2 ⟨Numeral.isFinite_of_float? hx, Nat.succ_pos levels⟩⟩
  case h_7 j =>
    rcases levels with _ | l
    · cases h
    obtain ⟨items, rfl, hitems⟩ := arrayOf?_eq_some h
    have hparts (v : Value) (hv : v ∈ items) : v.IsOrdered ∧ v.Fits l :=
      (hitems v hv).elim fun _ => ih l (by omega)
    exact ⟨areOrdered_iff.2 fun v hv => (hparts v hv).1,
      fits_array.2 ⟨l, rfl, fun v hv => (hparts v hv).2⟩⟩
  case h_8 j =>
    rcases levels with _ | _ | l
    · cases h
    · cases h
    obtain ⟨t, fields, rfl, hfields⟩ := objectOf?_eq_some h
    have hparts (f : String × Value) (hf : f ∈ Fields.ofList fields) :
        f.2.IsOrdered ∧ f.2.Fits l :=
      (hfields f (Fields.mem_of_mem_ofList hf)).elim fun _ => ih l (by omega)
    refine ⟨⟨Fields.sorted_ofList fields, areOrderedFields_iff.2 fun f hf => (hparts f hf).1⟩, ?_⟩
    exact fits_object.2 ⟨l, rfl, fun f hf => (hparts f hf).2⟩
  case h_9 =>
    cases h

/-! ## Texts -/

theorem read?_write (v : Value) : read? v.write = ofJson? Json.maxLevels v.toJson := by
  rw [read?, parse?_write]
  rfl

/-- **Values go back and forth.** A value whose numbers are finite and whose text is nested at most
`Json.maxLevels` levels is read back from its text, and the text of any other value is refused. A
text that is read, in whatever form, has a value that is read back from what is written for it. -/
theorem roundTrip :
    (∀ v : Value, v.IsOrdered → v.Fits Json.maxLevels → (∀ x ∈ v.floats, x.ReadsBack) →
      read? v.write = some v) ∧
    (∀ v : Value, ¬ v.Fits Json.maxLevels → read? v.write = none) ∧
    ∀ s v, read? s = some v → (∀ x ∈ v.floats, x.ReadsBack) → read? v.write = some v := by
  have hback (v : Value) (hv : v.IsOrdered) (hfits : v.Fits Json.maxLevels)
      (hx : ∀ x ∈ v.floats, x.ReadsBack) : read? v.write = some v := by
    rw [read?_write, ofJson?_toJson hv hfits hx]
  refine ⟨hback, fun v hfits => ?_, fun s v h hx => ?_⟩
  · rw [read?_write, Option.eq_none_iff_forall_ne_some]
    exact fun w hw => hfits (fits_of_ofJson?_toJson hw)
  · obtain ⟨j, -, hj⟩ := Option.bind_eq_some_iff.1 h
    obtain ⟨hv, hfits⟩ := fits_of_ofPart? hj
    exact hback v hv hfits hx

/-- An object with a number, a missing value and a string that is escaped. -/
def escapedObject : Value :=
  object "T" [("a", array [float ⟨0x3ff8000000000000⟩, null]), ("é", str "\"\\\n\x01")]

/-- An array in the array form, whose one item has its members in another order and one too many. -/
def shuffledArray : String :=
  "[\"array\", [\x7b\"value\": 1.5, \"note\": [], \"kind\": \"float\"\x7d]]"

/-- The object is read back, an infinity is not, and the array is written and read again. -/
theorem roundTrip_escapedObject :
    read? escapedObject.write = some escapedObject ∧
    read? (float ⟨0x7ff0000000000000⟩).write = none ∧
    ∃ v, read? shuffledArray = some v ∧ read? v.write = some v := by
  have hordered : escapedObject.IsOrdered := by
    refine ⟨?_, ⟨trivial, trivial, trivial⟩, trivial, trivial⟩
    unfold Fields.Sorted
    decide
  have hfits : escapedObject.Fits Json.maxLevels := ⟨by decide +kernel, by decide +kernel⟩
  have hinfinite : ¬ (float ⟨0x7ff0000000000000⟩).Fits Json.maxLevels := fun h =>
    absurd (h.finite _ (List.mem_singleton_self _)) (by decide)
  have hread : ((read? shuffledArray).any fun v => decide (∀ x ∈ v.floats, x.ReadsBack)) = true :=
    by decide +kernel
  obtain ⟨v, hv, hx⟩ := (Option.any_eq_true _ _).1 hread
  exact ⟨roundTrip.1 _ hordered hfits (by decide +kernel), roundTrip.2.1 _ hinfinite,
    v, hv, roundTrip.2.2 _ _ hv (of_decide_eq_true hx)⟩

end Value

end LiveBuild
