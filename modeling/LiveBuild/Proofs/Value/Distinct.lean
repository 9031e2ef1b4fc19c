import LiveBuild.Proofs.Decimal.Distinct
import LiveBuild.Proofs.Value.RoundTrip

/-!
# Distinct values have distinct trees

`eq_of_toJson_eq`: a value whose numbers are finite can be told from its tree, however it is
ordered and however deep it is nested, so also where no reader takes it back. Floating point numbers
are told apart bit by bit.

Every number that is not finite is written as null, so the tree of one stands for all of them.
-/

namespace LiveBuild

/-- Trees that are read back are told apart by their texts. -/
theorem Json.eq_of_write_eq {j k : Json} (hj : j.IsStrict) (hk : k.IsStrict)
    (h : j.write = k.write) : j = k := by
  have hchars : j.chars = k.chars := String.ofList_injective h
  have hparse := parse?_chars hj
  rw [hchars, parse?_chars hk] at hparse
  exact (Option.some_inj.1 hparse).symm

namespace Value

variable {v w : Value} {items : List Value}

/-! ## Kinds -/

/-- The kind of a value. -/
def kind : Value → Kind
  | null => .null
  | bool _ => .bool
  | int _ => .int
  | float _ => .float
  | str _ => .str
  | array _ => .array
  | object _ _ => .object

theorem Kind.name_injective : Function.Injective Kind.name := by
  have hname (k : Kind) : Kind.ofName? k.name = some k := by cases k <;> rfl
  intro k l h
  rw [← Option.some_inj, ← hname k, h, hname l]

/-- The tree of a value is an object, whose first member is the kind. -/
theorem exists_toJson_eq (v : Value) :
    ∃ rest, v.toJson = .obj ((some "kind", .ofString v.kind.name) :: rest) := by
  cases v <;> exact ⟨_, rfl⟩

theorem toJson_ne_null (v : Value) : v.toJson ≠ .null := by
  obtain ⟨rest, hv⟩ := v.exists_toJson_eq
  rw [hv]
  exact nofun

theorem kind_eq_of_toJson_eq (h : v.toJson = w.toJson) : v.kind = w.kind := by
  obtain ⟨rest, hv⟩ := v.exists_toJson_eq
  obtain ⟨rest', hw⟩ := w.exists_toJson_eq
  rw [hv, hw] at h
  simp only [Json.obj.injEq, List.cons.injEq, Prod.mk.injEq, Json.ofString, Json.str.injEq,
    Option.some.injEq, true_and] at h
  exact Kind.name_injective h.1

/-! ## Payloads -/

theorem tagged_inj {kind : Kind} {j k : Json} : tagged kind j = tagged kind k ↔ j = k := by
  simp [tagged, Json.record]

theorem eq_of_ofInt_eq {m n : Int64} (h : Numeral.ofInt m.toInt = Numeral.ofInt n.toInt) :
    m = n := by
  rw [← Option.some_inj, ← intOfNumeral?_ofInt m, h, intOfNumeral?_ofInt n]

theorem eq_of_floatJson_eq {x y : Binary64} (hx : x.isFinite = true)
    (h : floatJson x = floatJson y) : x = y := by
  rw [floatJson, if_pos hx, floatJson] at h
  split at h
  · exact Decimal.numeral_injective (by decide) (Json.num.inj h)
  · cases h

theorem eq_of_map_eq {α β : Type} {f : α → β} {as bs : List α}
    (hf : ∀ a ∈ as, ∀ b, f a = f b → a = b) (h : as.map f = bs.map f) : as = bs := by
  induction as generalizing bs with
  | nil => exact (List.map_eq_nil_iff.1 h.symm).symm
  | cons a as ih =>
    obtain ⟨b, bs, rfl, hb, hbs⟩ := List.map_eq_cons_iff.1 h.symm
    rw [hf a List.mem_cons_self b hb.symm,
      ih (fun a ha => hf a (List.mem_cons_of_mem _ ha)) hbs.symm]

/-- **Distinct values have distinct trees**, if the numbers in one of them are finite. -/
theorem eq_of_toJson_eq (hv : ∀ x ∈ v.floats, x.isFinite = true) (h : v.toJson = w.toJson) :
    v = w := by
  have hkind := kind_eq_of_toJson_eq h
  induction v generalizing w with
  | null =>
    cases w with
    | null => rfl
    | _ => cases hkind
  | bool b =>
    cases w with
    | bool c => exact congrArg bool (Json.bool.inj (tagged_inj.1 h))
    | _ => cases hkind
  | int m =>
    cases w with
    | int n => exact congrArg int (eq_of_ofInt_eq (Json.num.inj (tagged_inj.1 h)))
    | _ => cases hkind
  | float x =>
    cases w with
    | float y =>
      have hx : x.isFinite = true := hv x (List.mem_singleton_self x)
      exact congrArg float (eq_of_floatJson_eq hx (tagged_inj.1 h))
    | _ => cases hkind
  | str s =>
    cases w with
    | str t => exact congrArg str (Option.some_inj.1 (Json.str.inj (tagged_inj.1 h)))
    | _ => cases hkind
  | array items ih =>
    cases w with
    | array items' =>
      have hitems := Json.arr.inj (tagged_inj.1 h)
      rw [itemsJson_eq, itemsJson_eq] at hitems
      refine congrArg array (eq_of_map_eq (fun v hmem w h => ?_) hitems)
      exact ih v hmem (forall_itemFloats.1 hv v hmem) h (kind_eq_of_toJson_eq h)
    | _ => cases hkind
  | object t fields ih =>
    cases w with
    | object t' fields' =>
      have hrecord := tagged_inj.1 h
      simp only [Json.record, Json.ofString, List.map_cons, List.map_nil, Json.obj.injEq,
        List.cons.injEq, Prod.mk.injEq, Json.str.injEq, Option.some.injEq, true_and,
        and_true] at hrecord
      obtain ⟨rfl, hfields⟩ := hrecord
      rw [fieldsJson_eq, fieldsJson_eq] at hfields
      refine congrArg (object t) (eq_of_map_eq (fun f hmem g h => ?_) hfields)
      obtain ⟨hname, hvalue⟩ := Prod.mk.inj h
      exact Prod.ext (Option.some_inj.1 hname)
        (ih f hmem (forall_fieldFloats.1 hv f hmem) hvalue (kind_eq_of_toJson_eq hvalue))
    | _ => cases hkind

end Value

end LiveBuild
