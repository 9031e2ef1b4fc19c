import LiveBuild.Proofs.Artifact.Exchange
import LiveBuild.Proofs.Text.Search
import LiveBuild.Proofs.Text.Utf8
import LiveBuild.Proofs.Value.Lexemes
import LiveBuild.Samples.FooBar
import LiveBuild.Samples.Greeting

/-!
# Which requests the samples answer

The sample libraries look for the spelling of two names in the text of a request, and the text also
holds a target and arguments with any strings in them. Still they find a member only where the
request names it.

* `Dispatch.Request.lexemes_toJson`: the names of a request, and the rest of it;
* `Dispatch.Request.eq_of_member`: what stands in front of the member of a request, and behind it;
* `recognises_members`: what the samples answer to each request.
-/

namespace LiveBuild

open Json Json.Lexeme

namespace Dispatch.Request

variable {r : Request}

/-! ## The text of a request -/

/-- The names of the fields in a request. -/
def names (r : Request) : List String :=
  (r.target.map Value.names).getD [] ++ Value.itemNames r.arguments

/-- The lexemes of the target. -/
def targetLexemes (r : Request) : List Lexeme := (r.target.elim .null Value.toJson).lexemes

/-- The lexemes behind the member of a request, which carry the target and the arguments. -/
def carried (r : Request) : List Lexeme :=
  string "target" :: sign ':' :: (r.targetLexemes ++ sign ',' :: string "arguments" :: sign ':' ::
    sign '[' :: (Lexeme.commas (itemLexemes (Value.itemsJson r.arguments)) ++
      [sign ']', sign '}']))

/-- The lexemes in front of the member of a request. -/
def heading (r : Request) : List Lexeme :=
  [sign '{', string "type_name", sign ':', string r.typeName, sign ',']

/-- The lexemes of the member, and behind it. -/
def fromMember (r : Request) : List Lexeme :=
  sign ':' :: string r.member :: sign ',' :: r.carried

theorem lexemes_toJson (r : Request) :
    r.toJson.lexemes = r.heading ++ string "member" :: r.fromMember := by
  obtain ⟨t, m, target, arguments⟩ := r
  cases target <;>
    simp only [toJson, Json.record, Json.ofString, List.map_cons, List.map_nil, lexemes,
      memberLexemes, Lexeme.commas, heading, fromMember, carried, targetLexemes, Option.elim_none,
      Option.elim_some, List.cons_append, List.append_assoc, List.nil_append]

theorem toList_write (r : Request) : r.write.toList =
    spell r.heading ++ '"' :: content "member" ++ '"' :: spell r.fromMember := by
  rw [write, Json.write, String.toList_ofList, ← spell_lexemes, lexemes_toJson, spell_append,
    spell_string, List.cons_append, List.append_assoc, List.cons_append]

theorem quote_notMem (r : Request) : sign '"' ∉ r.toJson.lexemes :=
  quote_notMem_lexemes _ r.isStrict_toJson

/-- What stands behind the strings of a request, behind its member. -/
theorem behind_carried (r : Request) :
    Behind (Value.Follows ("target" :: r.names)) r.carried := by
  have hmono {ns : List String} (h : ns ⊆ r.names) :
      ∀ s rest, Value.Follows ns s rest → Value.Follows ("target" :: r.names) s rest :=
    fun _ _ hfollows => hfollows.mono (List.Subset.trans h (List.subset_cons_self _ _))
  have hitems : ∀ part ∈ itemLexemes (Value.itemsJson r.arguments),
      Behind (Value.Follows ("target" :: r.names)) part := fun part hpart =>
    (Value.behind_items (fun v _ => v.behind_lexemes) part hpart).mono
      (hmono (List.subset_append_right _ _))
  have hrest : Behind (Value.Follows ("target" :: r.names)) (sign ',' :: string "arguments" ::
      sign ':' :: sign '[' :: (Lexeme.commas (itemLexemes (Value.itemsJson r.arguments)) ++
        [sign ']', sign '}'])) :=
    ⟨.other (by decide), Value.behind_parts hitems trivial⟩
  have happend : ∀ s rest more, Value.Follows ("target" :: r.names) s rest →
      Value.Follows ("target" :: r.names) s (rest ++ more) := fun _ _ more h => h.append more
  unfold carried targetLexemes
  cases htarget : r.target with
  | none => exact ⟨.other (c := 'n') (by decide), (behind_signs _).append happend hrest⟩
  | some v =>
    have hv : Behind (Value.Follows ("target" :: r.names)) v.toJson.lexemes :=
      v.behind_lexemes.mono (hmono (by
        rw [names, htarget]
        exact List.subset_append_left _ _))
    obtain ⟨rest, hlexemes⟩ := v.exists_lexemes_toJson
    refine ⟨?_, hv.append happend hrest⟩
    rw [Option.elim_some, hlexemes]
    exact .fields (by simp)

/-- No letter stands behind a string. -/
theorem behind_toJson (r : Request) :
    Behind (fun _ rest => ∃ c, (spell rest).head? = some c ∧ c ∈ [',', '}', ']', ':'])
      r.toJson.lexemes := by
  rw [lexemes_toJson]
  exact ⟨⟨':', rfl, by decide⟩, ⟨',', rfl, by decide⟩, ⟨':', rfl, by decide⟩,
    ⟨',', rfl, by decide⟩, r.behind_carried.mono fun _ _ h => h.head?⟩

/-- A character that is none of the signs behind a string stands behind no string. -/
theorem behind_ne {c : Char} (hc : c ∉ [',', '}', ']', ':']) (r : Request) :
    Behind (fun _ rest => (spell rest).head? ≠ some c) r.toJson.lexemes := by
  refine r.behind_toJson.mono ?_
  rintro s rest ⟨d, hd, hmem⟩ heq
  rw [hd, Option.some_inj] at heq
  exact hc (heq ▸ hmem)

/-! ## What is found in it -/

/-- Text between quotes, found in a request, ends a string. -/
theorem exists_string {c : Char} {k pre post : List Char} (hc : c ∉ [',', '}', ']', ':'])
    (hquote : '"' ∉ c :: k) (hslash : '\\' ∉ c :: k)
    (h : r.write.toList = pre ++ '"' :: (c :: k) ++ '"' :: post) :
    ∃ s rest, string s :: rest <:+ r.toJson.lexemes ∧ post = spell rest ∧
      '"' :: c :: k <:+ '"' :: content s := by
  rw [write, Json.write, String.toList_ofList, ← spell_lexemes] at h
  exact Lexeme.exists_string r.quote_notMem hquote hslash (r.behind_ne hc) h

/-- A string of a request, with what stands behind it. -/
theorem suffix_cases {s : Option String} {rest : List Lexeme}
    (h : string s :: rest <:+ r.toJson.lexemes) :
    (s = some "type_name" ∧ rest = sign ':' :: string r.typeName :: sign ',' ::
        string "member" :: r.fromMember) ∨
      (s = some r.typeName ∨ s = some r.member) ∧ (∃ ls, rest = sign ',' :: ls) ∨
      (s = some "member" ∧ rest = r.fromMember) ∨
      Value.Follows ("target" :: r.names) s rest := by
  rw [lexemes_toJson, heading, fromMember] at h
  simp only [List.cons_append, List.nil_append, List.suffix_cons_iff, List.cons.injEq,
    Lexeme.string.injEq, reduceCtorEq, false_and, false_or] at h
  rcases h with ⟨rfl, rfl⟩ | ⟨rfl, rfl⟩ | ⟨rfl, rfl⟩ | ⟨rfl, rfl⟩ | h
  · exact .inl ⟨rfl, rfl⟩
  · exact .inr (.inl ⟨.inl rfl, _, rfl⟩)
  · exact .inr (.inr (.inl ⟨rfl, rfl⟩))
  · exact .inr (.inl ⟨.inr rfl, _, rfl⟩)
  · exact .inr (.inr (.inr (behind_iff.1 r.behind_carried s rest h)))

/-- **The member is found only where it is named.** -/
theorem eq_of_member {pre post : List Char}
    (h : r.write.toList = pre ++ '"' :: content "member" ++ '"' :: ':' :: '"' :: post) :
    pre = spell r.heading ∧ post = content r.member ++ '"' :: ',' :: spell r.carried := by
  obtain ⟨s, rest, hsuffix, hpost, hs⟩ := exists_string (c := 'm') (k := "ember".toList)
    (by decide) (by decide) (by decide) h
  have hrest : rest = r.fromMember := by
    obtain ⟨ls, rfl, hls⟩ := exists_of_spell_eq_cons (by decide) hpost.symm
    have hsigns : sign '"' ∉ ls := fun hmem =>
      r.quote_notMem (hsuffix.subset (List.mem_cons_of_mem _ (List.mem_cons_of_mem _ hmem)))
    obtain ⟨t, ms, rfl, -⟩ := exists_of_spell_eq_quote hsigns hls
    rcases suffix_cases hsuffix with ⟨rfl, -⟩ | ⟨-, ls, hls⟩ | ⟨-, heq⟩ | hfollows
    · exact absurd hs (by decide)
    · cases hls
    · exact heq
    · cases hfollows with
      | closing hc => exact absurd hc (by decide)
      | text hmem =>
        simp only [List.mem_cons, List.not_mem_nil, or_false] at hmem
        rcases hmem with rfl | rfl | rfl <;> exact absurd hs (by decide)
  rw [hrest] at hpost
  rw [hpost, toList_write] at h
  obtain ⟨hpre, -⟩ := List.append_inj' h rfl
  refine ⟨(List.append_cancel_right hpre).symm, ?_⟩
  rw [fromMember, spell_sign, spell_string, spell_sign] at hpost
  exact List.cons.inj (List.cons.inj hpost).2 |>.2

/-- The type name is found in front of the member. -/
theorem typeName_eq_of_heading {t : String} {pre : List Char}
    (h : spell r.heading = pre ++ '"' :: content "type_name" ++
      '"' :: ':' :: '"' :: (content t ++ ['"', ','])) : r.typeName = t := by
  have hsigns : sign '"' ∉ r.heading := by simp [heading]
  have hbehind : Behind (fun _ rest => (spell rest).head? ≠ some 't') r.heading :=
    ⟨fun h => absurd (Option.some_inj.1 h) (by decide),
      fun h => absurd (Option.some_inj.1 h) (by decide), trivial⟩
  obtain ⟨s, rest, hsuffix, hpost, -⟩ := Lexeme.exists_string (c := 't')
    (k := "ype_name".toList) hsigns (by decide) (by decide) hbehind h
  simp only [heading, List.suffix_cons_iff, List.cons.injEq, Lexeme.string.injEq, reduceCtorEq,
    false_and, false_or, List.suffix_nil, or_false] at hsuffix
  rcases hsuffix with ⟨rfl, rfl⟩ | ⟨rfl, rfl⟩
  · rw [spell_sign, spell_string] at hpost
    obtain ⟨heq, -⟩ := content_append_inj (List.cons.inj (List.cons.inj hpost).2).2
    exact (Option.some_inj.1 heq).symm
  · cases hpost

/-- A member of an object whose value is a string, as it is spelled. -/
def spelled (name value : String) : List Char :=
  Writer.quoted name ++ ':' :: Writer.quoted value

theorem spelled_append (name value : String) (cs : List Char) : spelled name value ++ cs =
    '"' :: content name ++ '"' :: ':' :: '"' :: (content value ++ '"' :: cs) := by
  simp [spelled, Writer.quoted, content]

theorem spell_fromMember (r : Request) :
    '"' :: content "member" ++ '"' :: spell r.fromMember =
      spelled "member" r.member ++ ',' :: spell r.carried := by
  rw [spelled_append, fromMember, spell_sign, spell_string, spell_sign]
  rfl

/-- **The spelling of a member occurs only where the request names it.** -/
theorem occurs_member_iff (r : Request) (m : String) :
    Text.occurs (spelled "member" m) r.write.toList = true ↔ r.member = m := by
  rw [Text.occurs_iff]
  constructor
  · rintro ⟨pre, post, heq⟩
    rw [List.append_assoc, spelled_append, ← List.append_assoc] at heq
    obtain ⟨-, hpost⟩ := eq_of_member heq.symm
    obtain ⟨hm, -⟩ := content_append_inj hpost
    exact (Option.some_inj.1 hm).symm
  · rintro rfl
    refine ⟨spell r.heading, ',' :: spell r.carried, ?_⟩
    rw [toList_write, List.append_assoc, List.append_assoc, spell_fromMember]

/-- **The spelling of both names occurs only where the request names both.** -/
theorem occurs_names_iff (r : Request) (t m : String) :
    Text.occurs (spelled "type_name" t ++ ',' :: spelled "member" m) r.write.toList = true ↔
      r.typeName = t ∧ r.member = m := by
  rw [Text.occurs_iff]
  constructor
  · rintro ⟨pre, post, heq⟩
    have hmember : r.write.toList = (pre ++ (spelled "type_name" t ++ [','])) ++
        '"' :: content "member" ++ '"' :: ':' :: '"' :: (content m ++ '"' :: post) := by
      rw [List.append_assoc, ← spelled_append, ← heq]
      simp
    obtain ⟨hpre, hpost⟩ := eq_of_member hmember
    obtain ⟨hm, -⟩ := content_append_inj hpost
    have hheading : spell r.heading = pre ++ '"' :: content "type_name" ++
        '"' :: ':' :: '"' :: (content t ++ ['"', ',']) := by
      rw [← hpre, spelled_append, List.append_assoc]
    exact ⟨typeName_eq_of_heading hheading, (Option.some_inj.1 hm).symm⟩
  · rintro ⟨rfl, rfl⟩
    refine ⟨['{'], ',' :: spell r.carried, ?_⟩
    have hheading : spell r.heading = '{' :: (spelled "type_name" r.typeName ++ [',']) := by
      rw [spelled_append, heading, spell_sign, spell_string, spell_sign, spell_string]
      rfl
    rw [toList_write, List.append_assoc (spell r.heading), spell_fromMember, hheading]
    simp

end Dispatch.Request

namespace Samples

/-! ## Answers -/

theorem askMyFoo_eq : FooBar.askMyFoo =
    Dispatch.Request.spelled "type_name" "Bar" ++
      ',' :: Dispatch.Request.spelled "member" "MyFoo" := by
  decide

theorem askMyProperty_eq : FooBar.askMyProperty =
    Dispatch.Request.spelled "type_name" "Foo" ++
      ',' :: Dispatch.Request.spelled "member" "MyProperty" := by
  decide

theorem askMain_eq : Greeting.askMain = Dispatch.Request.spelled "member" "Main" := by
  decide

theorem untilNul_encode {s : String} (h : 0 ∉ Utf8.encode s) :
    untilNul (Utf8.encode s) = Utf8.encode s :=
  List.takeWhile_eq_self_iff.2 fun _ hb => bne_iff_ne.2 (ne_of_mem_of_not_mem hb h)

/-- A sample answers a request in bytes as it answers the text, if the answer has no control
character. -/
theorem dispatch_exports {σ : Type} {manifest : String} {answer : String → String}
    {r : Dispatch.Request} (hanswer : ∀ c ∈ (answer r.write).toList, IsGraphic c) :
    ∃ dispatch, (exports σ manifest answer).dispatch = some dispatch ∧ ∀ s,
      dispatch (Utf8.encode r.write) s = (some (Utf8.encode (answer r.write)), s) := by
  refine ⟨_, rfl, fun s => ?_⟩
  have hbytes : cString? (answer r.write) = .ok (Utf8.encode (answer r.write)) :=
    cString?_eq_ok (Utf8.zero_notMem_encode hanswer)
  rw [untilNul_encode r.zero_notMem_encode, Utf8.decodeLossy_encode, hbytes]

/-- What is cut out of a text has the characters of the text, and a brace in front. -/
theorem isGraphic_cut {cs v : List Char} (h : FooBar.cut? cs = some v)
    (hcs : ∀ c ∈ cs, IsGraphic c) : ∀ c ∈ v, IsGraphic c := by
  obtain ⟨rest, hrest, hv⟩ := Option.bind_eq_some_iff.1 h
  obtain ⟨pre, hpre⟩ := Text.exists_standsFirst_of_after? hrest
  rw [Text.through?] at hv
  split at hv
  · obtain rfl := Option.some_inj.1 hv
    refine List.forall_mem_append.2 ⟨fun c hc => ?_, List.forall_mem_singleton.2 (by decide)⟩
    rcases List.mem_cons.1 (List.takeWhile_subset _ hc) with rfl | hmem
    · decide
    · exact hcs c (by rw [hpre.eq]; exact List.mem_append_right _ hmem)
  · cases hv

/-- What `FooBar` answers to a request, by the names in it. -/
def FooBar.answerTo (r : Dispatch.Request) : String :=
  if r.typeName = "Bar" ∧ r.member = "MyFoo" then "\x7b\"ok\":" ++ FooBar.myFoo ++ "\x7d"
  else if r.typeName = "Foo" ∧ r.member = "MyProperty" then
    (FooBar.cut? r.write.toList).elim "\x7b\"fault\":\"target has no MyProperty\"\x7d"
      fun v => "\x7b\"ok\":" ++ String.ofList v ++ "\x7d"
  else "\x7b\"mismatch\":\"unknown member\"\x7d"

/-- What `Greeting` answers to a request, by the member in it. -/
def Greeting.answerTo (r : Dispatch.Request) : String :=
  if r.member = "Main" then "\x7b\"ok\":null\x7d" else "\x7b\"mismatch\":\"unknown member\"\x7d"

theorem occurs_askMyFoo_iff (r : Dispatch.Request) :
    Text.occurs FooBar.askMyFoo r.write.toList = true ↔
      r.typeName = "Bar" ∧ r.member = "MyFoo" := by
  rw [askMyFoo_eq]
  exact r.occurs_names_iff "Bar" "MyFoo"

theorem occurs_askMyProperty_iff (r : Dispatch.Request) :
    Text.occurs FooBar.askMyProperty r.write.toList = true ↔
      r.typeName = "Foo" ∧ r.member = "MyProperty" := by
  rw [askMyProperty_eq]
  exact r.occurs_names_iff "Foo" "MyProperty"

theorem occurs_askMain_iff (r : Dispatch.Request) :
    Text.occurs Greeting.askMain r.write.toList = true ↔ r.member = "Main" := by
  rw [askMain_eq]
  exact r.occurs_member_iff "Main"

theorem FooBar.answer_write (r : Dispatch.Request) :
    FooBar.answer r.write = FooBar.answerTo r := by
  unfold FooBar.answer FooBar.answerTo
  refine if_congr (occurs_askMyFoo_iff r) rfl (if_congr (occurs_askMyProperty_iff r) ?_ rfl)
  cases FooBar.cut? r.write.toList <;> rfl

theorem Greeting.answer_write (r : Dispatch.Request) :
    Greeting.answer r.write = Greeting.answerTo r := by
  unfold Greeting.answer Greeting.answerTo
  exact if_congr (occurs_askMain_iff r) rfl rfl

theorem isGraphic_answerTo (r : Dispatch.Request) :
    ∀ c ∈ (FooBar.answerTo r).toList, IsGraphic c := by
  unfold FooBar.answerTo
  split
  · exact forall_mem_of_all (by decide)
  · split
    · cases hcut : FooBar.cut? r.write.toList with
      | none => exact forall_mem_of_all (by decide)
      | some v =>
        have hwrite : ∀ c ∈ r.write.toList, IsGraphic c := by
          rw [Dispatch.Request.write, Json.write, String.toList_ofList]
          exact forall_mem_chars r.toJson r.isStrict_toJson
        simp only [Option.elim_some, String.toList_append, String.toList_ofList,
          List.forall_mem_append]
        exact ⟨⟨forall_mem_of_all (by decide), isGraphic_cut hcut hwrite⟩,
          forall_mem_of_all (by decide)⟩
    · exact forall_mem_of_all (by decide)

theorem FooBar.exists_dispatch (σ : Type) (r : Dispatch.Request) :
    ∃ dispatch, (FooBar.library σ).dispatch = some dispatch ∧ ∀ s,
      dispatch (Utf8.encode r.write) s = (some (Utf8.encode (FooBar.answerTo r)), s) := by
  rw [← FooBar.answer_write]
  exact dispatch_exports (by rw [FooBar.answer_write]; exact isGraphic_answerTo r)

theorem Greeting.exists_dispatch (σ : Type) (r : Dispatch.Request) :
    ∃ dispatch, (Greeting.library σ).dispatch = some dispatch ∧ ∀ s,
      dispatch (Utf8.encode r.write) s = (some (Utf8.encode (Greeting.answerTo r)), s) := by
  rw [← Greeting.answer_write]
  refine dispatch_exports ?_
  rw [Greeting.answer_write, Greeting.answerTo]
  split <;> exact forall_mem_of_all (by decide)

/-- **The samples recognise exactly their members.** Whatever names, target and arguments a request
has, the spelling of both names of a member of `FooBar` occurs in its text if and only if they are
the names of the request, and the spelling of `Main` if and only if the request names it. So the
bytes of the request are answered by these names alone. -/
theorem recognises_members (σ : Type) (r : Dispatch.Request) :
    (Text.occurs FooBar.askMyFoo r.write.toList = true ↔
      r.typeName = "Bar" ∧ r.member = "MyFoo") ∧
    (Text.occurs FooBar.askMyProperty r.write.toList = true ↔
      r.typeName = "Foo" ∧ r.member = "MyProperty") ∧
    (Text.occurs Greeting.askMain r.write.toList = true ↔ r.member = "Main") ∧
    cString? r.write = .ok (Utf8.encode r.write) ∧
    (∃ dispatch, (FooBar.library σ).dispatch = some dispatch ∧ ∀ s,
      dispatch (Utf8.encode r.write) s = (some (Utf8.encode (FooBar.answerTo r)), s)) ∧
    ∃ dispatch, (Greeting.library σ).dispatch = some dispatch ∧ ∀ s,
      dispatch (Utf8.encode r.write) s = (some (Utf8.encode (Greeting.answerTo r)), s) :=
  ⟨occurs_askMyFoo_iff r, occurs_askMyProperty_iff r, occurs_askMain_iff r, cString?_request r,
    FooBar.exists_dispatch σ r, Greeting.exists_dispatch σ r⟩

end Samples

end LiveBuild
