import LiveBuild.Manifest
import LiveBuild.Proofs.Json.Control
import LiveBuild.Proofs.Member.RoundTrip
import LiveBuild.Proofs.Text.Utf8
import Mathlib.Data.List.Forall2

/-!
# Manifests that are read back

`read?_forms`: the text of a manifest has no NUL, and what a reader makes of its bytes, up to the NUL
after them, is that manifest.

What has a default may be left out: the visibility of a public member, the members of a type without
members, and the types of the empty manifest. `TypeEntry.IsForm` and `Manifest.IsForm` are the trees
that come of it, and each is read by the reader of its level (`TypeEntry.ofJson?_of_isForm`,
`Manifest.ofJson?_of_isForm`), item by item (`mapM_of_forall₂`).
-/

namespace LiveBuild

section

variable {α : Type} {read : Json → Option α} {xs : List α} {js : List Json} {r : α → Json → Prop}

/-- A list is read from trees that are read item by item. -/
theorem mapM_of_forall₂ (h : List.Forall₂ r xs js) (hread : ∀ x j, r x j → read j = some x) :
    js.mapM read = some xs := by
  induction h with
  | nil => rfl
  | cons hx _ ih =>
    rw [List.mapM_cons, hread _ _ hx, ih]
    rfl

theorem forall_mem_of_forall₂ {p : Json → Prop} (h : List.Forall₂ r xs js)
    (hp : ∀ x j, r x j → p j) : ∀ j ∈ js, p j := by
  induction h with
  | nil => exact List.forall_mem_nil p
  | cons hx _ ih => exact List.forall_mem_cons.2 ⟨hp _ _ hx, ih⟩

theorem forall₂_map {write : α → Json} (h : ∀ x, r x (write x)) (xs : List α) :
    List.Forall₂ r xs (xs.map write) :=
  List.forall₂_map_right_iff.2 (List.forall₂_same.2 fun x _ => h x)

end

/-! ## Types -/

namespace TypeEntry

variable {t : TypeEntry} {j : Json}

/-- The tree of a type and its members. -/
def toJson (t : TypeEntry) : Json :=
  .record [("name", .ofString t.name), ("members", .arr (t.members.map Member.toJson))]

/-- A tree stands for a type: its members are trees that stand for members, and they may be left out
if there are none. -/
inductive IsForm (t : TypeEntry) : Json → Prop
  | full {js} (h : List.Forall₂ Member.IsForm t.members js) :
    IsForm t (.record [("name", .ofString t.name), ("members", .arr js)])
  | short (h : t.members = []) : IsForm t (.record [("name", .ofString t.name)])

theorem isForm_toJson (t : TypeEntry) : t.IsForm t.toJson :=
  .full (forall₂_map Member.isForm_toJson t.members)

/-- The reader opens three levels: for the type, for the list and for its items. -/
theorem ofJson?_of_isForm (h : t.IsForm j) (levels : ℕ) : ofJson? (levels + 3) j = some t := by
  obtain ⟨name, members⟩ := t
  cases h with
  | @full js h =>
    have hslots : (Json.record [("name", .ofString name), ("members", .arr js)]).slots?
        ["name", "members"] = some [some (.ofString name), some (.arr js)] := rfl
    have hmembers : (Json.arr js).list? (levels + 2) Member.ofJson? = some members :=
      mapM_of_forall₂ h fun m j hm => Member.ofJson?_of_isForm hm levels
    rw [ofJson?, hslots]
    simp [hmembers, Json.ofString, Json.text?]
  | short h =>
    obtain rfl : members = [] := h
    rfl

theorem isStrict_of_isForm (h : t.IsForm j) : j.IsStrict := by
  cases h with
  | full h =>
    refine Json.isStrict_record fun p hp => ?_
    rcases List.mem_cons.1 hp with rfl | hp
    · trivial
    · obtain rfl := List.mem_singleton.1 hp
      exact Json.areStrict_iff.2 (forall_mem_of_forall₂ h fun _ _ => Member.isStrict_of_isForm)
  | short h =>
    refine Json.isStrict_record fun p hp => ?_
    obtain rfl := List.mem_singleton.1 hp
    trivial

end TypeEntry

/-! ## Manifests -/

namespace Manifest

variable {types : Manifest} {j : Json}

/-- The tree of a manifest. -/
def toJson (types : Manifest) : Json := .record [("types", .arr (types.map TypeEntry.toJson))]

/-- A tree stands for a manifest: its types are trees that stand for types, and they may be left out
if there are none. -/
inductive IsForm (types : Manifest) : Json → Prop
  | full {js} (h : List.Forall₂ TypeEntry.IsForm types js) :
    IsForm types (.record [("types", .arr js)])
  | short (h : types = []) : IsForm types (.record [])

theorem isForm_toJson (types : Manifest) : types.IsForm types.toJson :=
  .full (forall₂_map TypeEntry.isForm_toJson types)

theorem ofJson?_of_isForm (h : types.IsForm j) (levels : ℕ) :
    ofJson? (levels + 5) j = some types := by
  cases h with
  | @full js h =>
    have hslots : (Json.record [("types", .arr js)]).slots? ["types"] = some [some (.arr js)] := rfl
    have htypes : (Json.arr js).list? (levels + 4) TypeEntry.ofJson? = some types :=
      mapM_of_forall₂ h fun t j ht => TypeEntry.ofJson?_of_isForm ht levels
    rw [ofJson?, hslots]
    exact htypes
  | short h =>
    obtain rfl := h
    rfl

theorem isStrict_of_isForm (h : types.IsForm j) : j.IsStrict := by
  cases h with
  | full h =>
    refine Json.isStrict_record fun p hp => ?_
    obtain rfl := List.mem_singleton.1 hp
    exact Json.areStrict_iff.2 (forall_mem_of_forall₂ h fun _ _ => TypeEntry.isStrict_of_isForm)
  | short => exact Json.isStrict_record fun p hp => by cases hp

/-! ## Bytes -/

/-- The bytes up to a NUL, if there is none in them. -/
theorem untilNul_append {bytes : List UInt8} (h : 0 ∉ bytes) (rest : List UInt8) :
    untilNul (bytes ++ 0 :: rest) = bytes := by
  have hne : ∀ b ∈ bytes, (b != 0) = true := by
    intro b hb
    rw [bne_iff_ne]
    rintro rfl
    exact h hb
  rw [untilNul, List.takeWhile_append_of_pos hne, List.takeWhile_cons_of_neg (by decide),
    List.append_nil]

theorem zero_notMem_write (h : j.IsStrict) : 0 ∉ Utf8.encode j.write := by
  apply Utf8.zero_notMem_encode
  rw [Json.write, String.toList_ofList]
  exact Json.forall_mem_chars j h

/-- The bytes of a tree, up to a NUL after them, are read as that tree. -/
theorem read?_encode (h : j.IsStrict) (rest : List UInt8) :
    read? (some (Utf8.encode j.write ++ 0 :: rest)) = ofJson? Json.maxLevels j := by
  rw [read?, untilNul_append (zero_notMem_write h), Utf8.decodeLossy_encode, Json.parse?_write h]
  rfl

/-- **Members and manifests go back and forth.** A manifest is read back from each of its forms, the
one in which everything is written out among them: the bytes have no NUL, and a reader takes them up
to the NUL that follows. And a member that is read from any text is read again from what is written
for it. -/
theorem read?_forms :
    (∀ types : Manifest, types.IsForm types.toJson ∧ ∀ j, types.IsForm j →
      0 ∉ Utf8.encode j.write ∧
      ∀ rest, read? (some (Utf8.encode j.write ++ 0 :: rest)) = some types) ∧
    (∀ m : Member, Member.read? m.write = some m) ∧
    ∀ s m, Member.read? s = some m → Member.read? m.write = some m := by
  refine ⟨fun types => ⟨types.isForm_toJson, fun j h => ?_⟩, Member.read?_write,
    fun _ m _ => Member.read?_write m⟩
  have hstrict := isStrict_of_isForm h
  refine ⟨zero_notMem_write hstrict, fun rest => ?_⟩
  rw [read?_encode hstrict]
  exact ofJson?_of_isForm h 122

/-- Two types of one name, the first with a hidden method of the greatest arity and with a property
whose name is a NUL, the second without members. -/
def namesakes : Manifest :=
  [⟨"T", [(Member.method "f" 0xffffffffffffffff true).hidden, .property "\x00" false]⟩, ⟨"T", []⟩]

/-- The manifest with everything left out that has a default. -/
def shortNamesakes : Json :=
  .record [("types", .arr [
    .record [("name", .ofString "T"), ("members", .arr [
      ((Member.method "f" 0xffffffffffffffff true).hidden).form true,
      (Member.property "\x00" false).form false])],
    .record [("name", .ofString "T")]])]

/-- The manifest is read back from both texts, and a member whose keys stand in another order is
written and read again. -/
theorem read?_forms_namesakes :
    (0 ∉ Utf8.encode namesakes.toJson.write ∧
      read? (some (Utf8.encode namesakes.toJson.write ++ [0])) = some namesakes) ∧
    (namesakes.IsForm shortNamesakes ∧ 0 ∉ Utf8.encode shortNamesakes.write ∧
      read? (some (Utf8.encode shortNamesakes.write ++ [0, 97])) = some namesakes) ∧
    ∃ m, Member.read? "\x7b\"arity\":2,\"is_static\":true,\"kind\":0,\"name\":\"g\"\x7d" = some m ∧
      Member.read? m.write = some m := by
  have hshort : namesakes.IsForm shortNamesakes :=
    .full (.cons (.full (.cons .full (.cons (.short rfl) .nil))) (.cons (.short rfl) .nil))
  have hread : (Member.read?
      "\x7b\"arity\":2,\"is_static\":true,\"kind\":0,\"name\":\"g\"\x7d").isSome = true := by
    decide +kernel
  obtain ⟨m, hm⟩ := Option.isSome_iff_exists.1 hread
  obtain ⟨hform, hback⟩ := read?_forms.1 namesakes
  exact ⟨⟨(hback _ hform).1, (hback _ hform).2 []⟩,
    ⟨hshort, (hback _ hshort).1, (hback _ hshort).2 [97]⟩, m, hm, read?_forms.2.2 _ m hm⟩

end Manifest

end LiveBuild
