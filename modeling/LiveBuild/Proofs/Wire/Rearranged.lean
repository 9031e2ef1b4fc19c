import LiveBuild.Proofs.Manifest.RoundTrip
import LiveBuild.Proofs.Wire.Records

/-!
# Rearranged texts are read alike

A plain text is read alike by both kinds of readers, those of trees that were set aside and the
others (`Plain.agree`, by induction on the text). So a rearrangement of a plain text is read like the
text (`Step.agree`, by induction on where it is rearranged), and then so is every text that arises
from it by rearrangements if it is sound (`Rearranged.read_eq`).

* `read?_rearranged`: the readers of values, of members and of manifests do not depend on the order
  of the members of the objects that stand for values, members and types, nor on members that they do
  not know;
* `exists_rearranged_read?_ne`: a value whose text is not plain is read in one order only.
-/

namespace LiveBuild.Wire

open Json (slot?)
open Value (ofPart?)

variable {r : Role} {j j' : Json} {items : List Json} {ms ms' : List (Option String × Json)} {l : ℕ}

/-! ## One text -/

/-- What is no array and no object is read alike by all readers. -/
theorem agree_self_of_leaf (hr : r ≠ .tag) (harr : ∀ items, j ≠ .arr items)
    (hobj : ∀ ms, j ≠ .obj ms) : Agree r j j := by
  cases j with
  | arr items => exact absurd rfl (harr items)
  | obj ms => exact absurd rfl (hobj ms)
  | null | bool | num | str =>
    cases r with
    | value =>
      rintro _ _ _ (_ | l) _ _
      · rfl
      · rw [Value.ofPart?_succ, Value.ofPart?_succ]
        rfl
    | payload kind =>
      cases kind <;> rintro _ _ (_ | _ | _) _ _ <;> rfl
    | fields => rintro _ _ (_ | _) _ _ <;> rfl
    | member | members | typeEntry | types | manifest => exact fun _ _ _ => rfl
    | tag => exact absurd rfl hr
    | other => rfl

/-- **A plain text is read alike by all readers.** -/
theorem Plain.agree (h : Plain r j) : Agree r j j := by
  induction h with
  | other => rfl
  | @intro r j htag _ _ hmember hitem =>
    by_cases hr : r = .tag
    · subst hr
      exact ⟨rfl, htag rfl⟩
    · by_cases hother : r = .other
      · subst hother
        rfl
      · cases j with
        | arr items =>
          refine agree_arr ⟨hr, hother⟩ fun i => ?_
          cases hi : items[i]? with
          | none => exact .none
          | some c => exact .some (hitem items i c rfl hi)
        | obj ms =>
          refine agree_obj ⟨hr, hother⟩ (List.forall₂_same.2 fun m hm => ⟨rfl, fun name hname => ?_⟩)
          exact hmember ms name m.2 rfl (hname ▸ hm)
        | null | bool | num | str => exact agree_self_of_leaf hr (by simp) (by simp)

theorem Plain.memberAgrees (h : Plain r (.obj ms)) {m : Option String × Json} (hm : m ∈ ms) :
    MemberAgrees r ms m m :=
  ⟨rfl, fun _ hname => (h.member_of_mem (hname ▸ hm)).agree⟩

theorem Plain.slotsAgree (h : Plain r (.obj ms)) : SlotsAgree r ms ms :=
  MembersAgree.slotsAgree (List.forall₂_same.2 fun _ hm => h.memberAgrees hm)

/-! ## One rearrangement -/

/-- **A rearrangement of a plain text is read like the text.** -/
theorem Step.agree (h : Step r j j') (hp : Plain r j) : Agree r j j' := by
  induction h with
  | @reorder r ms ms' hr hperm =>
    refine agree_obj_of_isRecord hr fun name hname => ?_
    rw [← Json.slot?_perm hperm]
    exact hp.slotsAgree name hname
  | @add r ms name hr hname j =>
    refine agree_obj_of_isRecord hr fun key hkey => ?_
    rw [Json.slot?_cons_of_ne]
    · exact hp.slotsAgree key hkey
    · intro heq
      exact hname (Option.some_inj.1 heq ▸ hkey)
  | @member r before after name j j' hst ih =>
    refine agree_obj (Step.member hst).ne_tag_and_ne_other ?_
    have hmem : (some name, j) ∈ before ++ (some name, j) :: after :=
      List.mem_append_right _ List.mem_cons_self
    have hstep : MemberAgrees r (before ++ (some name, j) :: after) (some name, j)
        (some name, j') := by
      refine ⟨rfl, fun key hkey => ?_⟩
      obtain rfl := Option.some_inj.1 hkey
      exact ih (hp.member_of_mem hmem)
    refine List.rel_append (List.forall₂_same.2 fun m hm => ?_)
      (.cons hstep (List.forall₂_same.2 fun m hm => ?_))
    · exact hp.memberAgrees (List.mem_append_left _ hm)
    · exact hp.memberAgrees (List.mem_append_right _ (List.mem_cons_of_mem _ hm))
  | @item r before after j j' hst ih =>
    refine agree_arr (Step.item hst).ne_tag_and_ne_other fun i => ?_
    by_cases hi : i = before.length
    · subst hi
      simpa using ih (hp.item_of_getElem? (by simp))
    · rw [getElem?_replace_of_ne hi j' j]
      cases hc : (before ++ j :: after)[i]? with
      | none => exact .none
      | some c => exact .some (hp.item_of_getElem? hc).agree

/-- What is sound after a rearrangement was sound before. -/
theorem Step.isSound (h : Step r j j') (hs : j'.isSound l = true) : j.isSound l = true := by
  induction h generalizing l with
  | @reorder r ms ms' hr hperm =>
    obtain ⟨l, rfl, hms⟩ := Json.isSound_obj.1 hs
    exact Json.isSound_obj.2 ⟨l, rfl, fun m hm => hms m (hperm.mem_iff.1 hm)⟩
  | add hr hname j =>
    obtain ⟨l, rfl, hms⟩ := Json.isSound_obj.1 hs
    exact Json.isSound_obj.2 ⟨l, rfl, fun m hm => hms m (List.mem_cons_of_mem _ hm)⟩
  | @member r before after name j j' hst ih =>
    obtain ⟨l, rfl, hms⟩ := Json.isSound_obj.1 hs
    refine Json.isSound_obj.2 ⟨l, rfl, fun m hm => ?_⟩
    rcases List.mem_append.1 hm with hm | hm
    · exact hms m (List.mem_append_left _ hm)
    · rcases List.mem_cons.1 hm with rfl | hm
      · exact ⟨rfl, ih (hms _ (List.mem_append_right _ List.mem_cons_self)).2⟩
      · exact hms m (List.mem_append_right _ (List.mem_cons_of_mem _ hm))
  | @item r before after j j' hst ih =>
    obtain ⟨l, rfl, hitems⟩ := Json.isSound_arr.1 hs
    refine Json.isSound_arr.2 ⟨l, rfl, fun c hc => ?_⟩
    rcases List.mem_append.1 hc with hc | hc
    · exact hitems c (List.mem_append_left _ hc)
    · rcases List.mem_cons.1 hc with rfl | hc
      · exact ih (hitems _ (List.mem_append_right _ List.mem_cons_self))
      · exact hitems c (List.mem_append_right _ (List.mem_cons_of_mem _ hc))

/-! ## Any number of rearrangements -/

theorem Plain.rearranged (h : Plain r j) (hj : Rearranged r j j') : Plain r j' := by
  induction hj with
  | refl => exact h
  | tail _ hst ih => exact ih.step hst

/-- A reader that does not tell apart what agrees reads a sound rearrangement of a plain text like
the text. -/
theorem Rearranged.read_eq {α : Type} {read : ℕ → Json → Option α} (h : Rearranged r j j')
    (hread : ∀ j j', Agree r j j' → Alike read read j j') (hp : Plain r j)
    (hs : j'.isSound l = true) : read l j = read l j' := by
  induction h with
  | refl => rfl
  | @tail k j' hjk hst ih =>
    have hsk : k.isSound l = true := hst.isSound hs
    exact (ih hsk).trans (hread k j' (hst.agree (hp.rearranged hjk)) l hsk hs)

/-! ## Texts -/

theorem plain_member (j : Json) : Plain .member j :=
  .intro (by simp) (fun _ _ _ _ _ => .other) fun _ _ _ _ _ => .other

theorem plain_members (j : Json) : Plain .members j :=
  .intro (by simp) (fun _ _ _ _ _ => .other) fun _ _ c _ _ => plain_member c

theorem plain_typeEntry (j : Json) : Plain .typeEntry j := by
  refine .intro (by simp) (fun _ _ c _ _ => ?_) fun _ _ c _ _ => ?_
  · rw [Role.ofMember]
    split_ifs
    · exact plain_members c
    · exact .other
  · rw [Role.ofItem]
    split_ifs
    · exact plain_members c
    · exact .other

theorem plain_types (j : Json) : Plain .types j :=
  .intro (by simp) (fun _ _ _ _ _ => .other) fun _ _ c _ _ => plain_typeEntry c

theorem plain_manifest (j : Json) : Plain .manifest j := by
  refine .intro (by simp) (fun _ _ c _ _ => ?_) fun _ _ c _ _ => ?_
  · rw [Role.ofMember]
    split_ifs
    · exact plain_types c
    · exact .other
  · rw [Role.ofItem]
    split_ifs
    · exact plain_types c
    · exact .other

/-- **The readers do not depend on the order of members, nor on members that they do not know.** Two
texts are read alike if the tree of one is a rearrangement of the tree of the other, and sound: as
values, if no tag of a nested value is spelled with an empty object in place of null; as members; and
as manifests. -/
theorem read?_rearranged {j j' : Json} (hs : j'.isSound Json.maxLevels = true) :
    (Rearranged (.value false) j j' → Plain (.value false) j →
      ∀ s s', Json.parse? s.toList = some j → Json.parse? s'.toList = some j' →
        Value.read? s = Value.read? s') ∧
    (Rearranged .member j j' →
      ∀ s s', Json.parse? s.toList = some j → Json.parse? s'.toList = some j' →
        Member.read? s = Member.read? s') ∧
    (Rearranged .manifest j j' →
      ∀ bytes bytes', Json.parse? (Utf8.decodeLossy (untilNul bytes)).toList = some j →
        Json.parse? (Utf8.decodeLossy (untilNul bytes')).toList = some j' →
        Manifest.read? (some bytes) = Manifest.read? (some bytes')) := by
  refine ⟨fun h hp s s' hj hj' => ?_, fun h s s' hj hj' => ?_, fun h b b' hj hj' => ?_⟩
  · rw [Value.read?, Value.read?, hj, hj']
    exact h.read_eq (fun _ _ hagree => hagree false false fun _ => rfl) hp hs
  · rw [Member.read?, Member.read?, hj, hj']
    exact h.read_eq (fun _ _ hagree => hagree) (plain_member j) hs
  · rw [Manifest.read?, Manifest.read?, hj, hj']
    exact h.read_eq (fun _ _ hagree => hagree) (plain_manifest j) hs

/-- A list of one null, the kind first. -/
def oneNull : Json :=
  .obj [(some "kind", .str "array"), (some "value", .arr [.obj [(some "kind", .str "null")]])]

/-- The same list, the kind last and with a note. -/
def oneNullNoted : Json :=
  .obj [(some "note", .arr []), (some "value", .arr [.obj [(some "kind", .str "null")]]),
    (some "kind", .str "array")]

/-- A static property, the name first. -/
def nameFirst : Json :=
  .obj [(some "name", .str "p"), (some "kind", .str "property"), (some "is_static", .bool true)]

/-- The same property, the name last and with an arity, which means nothing to it. -/
def nameLast : Json :=
  .obj [(some "arity", .null), (some "kind", .str "property"), (some "is_static", .bool true),
    (some "name", .str "p")]

/-- A manifest of one type, the name first. -/
def typeFirst : Json :=
  .obj [(some "types", .arr [.obj [(some "name", .str "T"), (some "members", .arr [nameFirst])]])]

/-- The same manifest, the name last. -/
def typeLast : Json :=
  .obj [(some "types", .arr [.obj [(some "members", .arr [nameFirst]), (some "name", .str "T")]])]

theorem plain_of_leaf (harr : ∀ items, j ≠ .arr items) (hobj : ∀ ms, j ≠ .obj ms) : Plain r j :=
  .intro (fun _ ⟨_, hj⟩ => hobj _ hj) (fun ms _ _ hj => absurd hj (hobj ms))
    fun items _ _ hj => absurd hj (harr items)

theorem plain_oneNull : Plain (.value false) oneNull := by
  refine .obj (by simp) fun name c hmem => ?_
  have hcases : name = "kind" ∧ c = .str "array" ∨
      name = "value" ∧ c = .arr [.obj [(some "kind", .str "null")]] := by simpa using hmem
  rcases hcases with ⟨rfl, rfl⟩ | ⟨rfl, rfl⟩
  · exact plain_of_leaf (by simp) (by simp)
  · refine Plain.arr (r := .payload .array) (by simp) fun i c hi => ?_
    obtain rfl : c = .obj [(some "kind", .str "null")] := by
      simpa using List.mem_of_getElem? hi
    refine Plain.obj (r := .value true) (by simp) fun name c hmem => ?_
    obtain ⟨-, rfl⟩ : name = "kind" ∧ c = .str "null" := by simpa using hmem
    exact plain_of_leaf (by simp) (by simp)

/-- The list is read whether it has the note or not, and so are the property with the arity and the
manifest. -/
theorem read?_rearranged_noted :
    (Rearranged (.value false) oneNull oneNullNoted ∧ Plain (.value false) oneNull ∧
      Value.read? oneNullNoted.write = some (.array [.null])) ∧
    (Rearranged .member nameFirst nameLast ∧
      Member.read? nameLast.write = some (.property "p" true)) ∧
    (Rearranged .manifest typeFirst typeLast ∧
      Manifest.read? (some (Utf8.encode typeLast.write ++ [0])) =
        some [⟨"T", [.property "p" true]⟩]) := by
  have hnull : Rearranged (.value false) oneNull oneNullNoted :=
    .tail (.single (.reorder trivial (List.Perm.swap _ _ _)))
      (@Step.add (.value false) _ "note" trivial (by decide) (.arr []))
  have hname : Rearranged .member nameFirst nameLast :=
    .tail (.single (.reorder trivial ((List.Perm.swap _ _ _).trans ((List.Perm.swap _ _ _).cons _))))
      (@Step.add .member _ "arity" trivial (by decide) .null)
  have htype : Rearranged .manifest typeFirst typeLast :=
    .single (@Step.member _ [] [] "types" _ _ (@Step.item _ [] [] _ _
      (.reorder trivial (List.Perm.swap _ _ _))))
  have hstrict : ∀ j ∈ [oneNull, oneNullNoted, nameFirst, nameLast, typeFirst, typeLast],
      j.IsStrict := by
    simp [oneNull, oneNullNoted, nameFirst, nameLast, typeFirst, typeLast, Json.IsStrict,
      Json.AreStrict, Json.AreStrictMembers]
  have hparse (j : Json) (hj : j.IsStrict) :
      Json.parse? (Utf8.decodeLossy (untilNul (Utf8.encode j.write ++ [0]))).toList = some j := by
    rw [Manifest.untilNul_append (Manifest.zero_notMem_write hj), Utf8.decodeLossy_encode,
      Json.parse?_write hj]
  refine ⟨⟨hnull, plain_oneNull, ?_⟩, ⟨hname, ?_⟩, htype, ?_⟩
  · rw [← (read?_rearranged (by decide)).1 hnull plain_oneNull oneNull.write oneNullNoted.write
      (Json.parse?_write (hstrict _ (by simp))) (Json.parse?_write (hstrict _ (by simp))),
      Value.read?, Json.parse?_write (hstrict _ (by simp))]
    rfl
  · rw [← (read?_rearranged (by decide)).2.1 hname nameFirst.write nameLast.write
      (Json.parse?_write (hstrict _ (by simp))) (Json.parse?_write (hstrict _ (by simp))),
      Member.read?, Json.parse?_write (hstrict _ (by simp))]
    rfl
  · rw [← (read?_rearranged (by decide)).2.2 htype (Utf8.encode typeFirst.write ++ [0])
      (Utf8.encode typeLast.write ++ [0]) (hparse _ (hstrict _ (by simp)))
      (hparse _ (hstrict _ (by simp))), Manifest.read?, hparse _ (hstrict _ (by simp))]
    rfl

/-! ## Tags that hold an empty object -/

/-- The null value in an array. Its kind is spelled with an empty object in place of null. -/
def hollowItems : Json := .arr [.obj [(some "kind", .obj [(some "null", .obj [])])]]

/-- An array, the kind first. -/
def kindFirst : Json := .obj [(some "kind", .str "array"), (some "value", hollowItems)]

/-- An array, the kind last. -/
def kindLast : Json := .obj [(some "value", hollowItems), (some "kind", .str "array")]

/-- **What is set aside may be read where the rest may not.** The empty object counts as no content
only in a tree that was set aside, so the array is read only if its kind comes last. -/
theorem read?_kindFirst_ne_kindLast :
    Json.parse? kindFirst.write.toList = some kindFirst ∧
    Json.parse? kindLast.write.toList = some kindLast ∧
    kindFirst.isSound Json.maxLevels = true ∧ kindLast.isSound Json.maxLevels = true ∧
    Rearranged (.value false) kindFirst kindLast ∧
    Value.read? kindFirst.write = none ∧ Value.read? kindLast.write = some (.array [.null]) := by
  have hfirst : Json.parse? kindFirst.write.toList = some kindFirst :=
    Json.parse?_write (by simp [kindFirst, hollowItems, Json.IsStrict, Json.AreStrict,
      Json.AreStrictMembers])
  have hlast : Json.parse? kindLast.write.toList = some kindLast :=
    Json.parse?_write (by simp [kindLast, hollowItems, Json.IsStrict, Json.AreStrict,
      Json.AreStrictMembers])
  refine ⟨hfirst, hlast, by decide, by decide,
    .single (.reorder trivial (List.Perm.swap _ _ _)), ?_, ?_⟩
  · rw [Value.read?, hfirst]
    rfl
  · rw [Value.read?, hlast]
    rfl

end LiveBuild.Wire
