import LiveBuild.Proofs.Json.Tokens

/-!
# Trees that are read back

`parse?_chars`: the compact form of a tree whose numerals are strict is read as that tree. The tree
may hold strings that are no texts, and it may be nested to any depth.

The reader counts its nested calls. `value_chars` and its two companions say how many it needs: at
most two for each character of the compact form.
-/

namespace LiveBuild.Json

mutual

/-- Every numeral of a tree is strict. -/
def IsStrict : Json → Prop
  | num n => n.IsStrict
  | arr items => AreStrict items
  | obj members => AreStrictMembers members
  | _ => True

/-- Every tree of a list is strict. -/
def AreStrict : List Json → Prop
  | [] => True
  | j :: rest => j.IsStrict ∧ AreStrict rest

/-- Every member is strict. -/
def AreStrictMembers : List (Option String × Json) → Prop
  | [] => True
  | (_, j) :: rest => j.IsStrict ∧ AreStrictMembers rest

end

namespace Reader

open Writer

/-! ## First characters -/

/-- A character with which a value may begin, and with which no blank and no array ends. -/
def Begins (c : Char) : Prop := isBlank c = false ∧ c ≠ ']'

theorem begins_of_isDigit {c : Char} (hc : c.isDigit = true) : Begins c :=
  ⟨by simp [isBlank, isDigit_ne hc], isDigit_ne hc rfl⟩

theorem exists_cons_numeral {n : Numeral} (hn : n.IsStrict) :
    ∃ c cs, n.chars = c :: cs ∧ (c = '-' ∨ c.isDigit = true) := by
  obtain ⟨d, ds, hds⟩ := List.exists_cons_of_ne_nil hn.whole.ne_nil
  rw [Numeral.chars]
  cases n.negative with
  | true => exact ⟨_, _, rfl, .inl rfl⟩
  | false =>
    refine ⟨d, _, by rw [hds]; rfl, .inr (hn.whole.isDigit d (by simp [hds]))⟩

theorem exists_cons_chars {j : Json} (hj : j.IsStrict) : ∃ c cs, j.chars = c :: cs ∧ Begins c := by
  cases j with
  | null | arr | obj => exact ⟨_, _, rfl, by decide, by decide⟩
  | bool b => cases b <;> exact ⟨_, _, rfl, by decide, by decide⟩
  | str s => exact ⟨_, _, string_eq_cons s, by decide, by decide⟩
  | num n =>
    obtain ⟨c, cs, hc, rfl | hd⟩ := exists_cons_numeral hj
    · exact ⟨_, _, hc, by decide, by decide⟩
    · exact ⟨_, _, hc, begins_of_isDigit hd⟩

theorem skipBlank_cons {c : Char} (hc : isBlank c = false) (cs : List Char) :
    skipBlank (c :: cs) = c :: cs := by
  rw [skipBlank, List.dropWhile_cons_of_neg (by simp [hc])]

/-! ## One call of the reader -/

variable {c : Char} {cs rest : List Char}

theorem value_number (hc : c = '-' ∨ c.isDigit = true) (fuel : ℕ) :
    value (fuel + 1) (c :: cs) = (number (c :: cs)).map fun r => (.num r.1, r.2) := by
  have hne : ∀ d : Char, d ≠ '-' → d.isDigit = false → c ≠ d := fun d h h' =>
    hc.elim (fun hc => hc ▸ h.symm) fun hc => isDigit_ne hc h'
  have hblank : isBlank c = false := by simp [isBlank, hne]
  rw [value, skipBlank_cons hblank]
  split <;> simp_all

theorem value_string (fuel : ℕ) :
    value (fuel + 1) ('"' :: cs) = (Reader.string cs).map fun r => (.str r.1, r.2) := rfl

theorem value_array (hc : Begins c) (fuel : ℕ) :
    value (fuel + 1) ('[' :: c :: cs) = (items fuel (c :: cs)).map fun r => (.arr r.1, r.2) := by
  rw [value, skipBlank_cons rfl]
  simp only [skipBlank_cons hc.1]
  split
  next h => exact absurd (List.cons.inj h).1 hc.2
  next => rfl

theorem value_object (fuel : ℕ) :
    value (fuel + 1) ('{' :: '"' :: cs) =
      (members fuel ('"' :: cs)).map fun r => (.obj r.1, r.2) := by
  rfl

theorem items_last {j : Json} {fuel : ℕ} (h : value fuel cs = some (j, ']' :: rest)) :
    items (fuel + 1) cs = some ([j], rest) := by
  rw [items, h]
  rfl

theorem items_comma {j : Json} {js : List Json} {fuel : ℕ} {cs' : List Char}
    (h : value fuel cs = some (j, ',' :: cs')) (hs : items fuel cs' = some (js, rest)) :
    items (fuel + 1) cs = some (j :: js, rest) := by
  rw [items, h]
  simp only [bind, Option.bind, skipBlank_cons (c := ',') rfl, hs, pure]

variable {name : Option String} {j : Json} {fuel : ℕ} {cs' : List Char}

theorem members_last (h : value fuel cs = some (j, '}' :: rest)) :
    members (fuel + 1) (Writer.string name ++ ':' :: cs) = some ([(name, j)], rest) := by
  rw [string_eq_cons, List.cons_append, members, skipBlank_cons rfl]
  simp only [bind, Option.bind, string_tail, skipBlank_cons (c := ':') rfl, h,
    skipBlank_cons (c := '}') rfl]

theorem members_comma {ms : List (Option String × Json)}
    (h : value fuel cs = some (j, ',' :: cs')) (hs : members fuel cs' = some (ms, rest)) :
    members (fuel + 1) (Writer.string name ++ ':' :: cs) = some ((name, j) :: ms, rest) := by
  rw [string_eq_cons, List.cons_append, members, skipBlank_cons rfl]
  simp only [bind, Option.bind, string_tail, skipBlank_cons (c := ':') rfl, h,
    skipBlank_cons (c := ',') rfl, hs, pure]

/-! ## Compact forms -/

theorem endsNumeral_cons {c : Char} (h : c ∈ [',', ']', '}']) (cs : List Char) :
    EndsNumeral (c :: cs) := by
  rintro d hd
  obtain rfl := Option.some_inj.1 hd
  simp only [List.mem_cons, List.not_mem_nil, or_false] at h
  rcases h with rfl | rfl | rfl <;> decide

theorem length_chars_pos {j : Json} (hj : j.IsStrict) : 0 < j.chars.length := by
  obtain ⟨c, cs, h, -⟩ := exists_cons_chars hj
  simp [h]

theorem exists_cons_items {j : Json} (hj : j.IsStrict) (js : List Json) :
    ∃ c cs, commas (itemChars (j :: js)) = c :: cs ∧ Begins c := by
  obtain ⟨c, cs, hc, hbegin⟩ := exists_cons_chars hj
  cases js with
  | nil => exact ⟨c, cs, hc, hbegin⟩
  | cons j' js =>
    exact ⟨c, _, by simp only [itemChars, commas, hc, List.cons_append]; rfl, hbegin⟩

theorem exists_cons_members (m : Option String × Json) (ms : List (Option String × Json)) :
    ∃ cs, commas (memberChars (m :: ms)) = '"' :: cs := by
  cases ms with
  | nil | cons =>
    exact ⟨_, by simp only [memberChars, commas]; rw [string_eq_cons]; rfl⟩

mutual

/-- The compact form of a tree is read back with two calls for each of its characters. -/
theorem value_chars : ∀ (j : Json) {fuel : ℕ} {rest : List Char}, j.IsStrict →
    2 * j.chars.length ≤ fuel → EndsNumeral rest → value fuel (j.chars ++ rest) = some (j, rest)
  | j, 0, _, hj, hfuel, _ => absurd (length_chars_pos hj) (by omega)
  | .null, _ + 1, _, _, _, _ => rfl
  | .bool true, _ + 1, _, _, _, _ => rfl
  | .bool false, _ + 1, _, _, _, _ => rfl
  | .num n, fuel + 1, rest, hj, _, hrest => by
    have hn := number_chars hj hrest
    obtain ⟨c, cs, hc, hbegin⟩ := exists_cons_numeral hj
    rw [chars]
    rw [hc, List.cons_append] at hn ⊢
    rw [value_number hbegin, hn]
    rfl
  | .str s, fuel + 1, rest, _, _, _ => by
    rw [chars, string_eq_cons, List.cons_append, value_string, string_tail]
    rfl
  | .arr [], _ + 1, _, _, _, _ => rfl
  | .arr (j :: js), fuel + 1, rest, hj, hfuel, _ => by
    simp only [chars, List.cons_append, List.append_assoc, List.nil_append, List.length_cons,
      List.length_append, List.length_nil] at hfuel ⊢
    have hitems : items fuel (commas (itemChars (j :: js)) ++ ']' :: rest) = some (j :: js, rest) :=
      items_chars (j :: js) nofun hj (by omega)
    obtain ⟨c, cs, hc, hbegin⟩ := exists_cons_items hj.1 js
    rw [hc] at hitems ⊢
    rw [List.cons_append] at hitems ⊢
    rw [value_array hbegin, hitems]
    rfl
  | .obj [], _ + 1, _, _, _, _ => rfl
  | .obj (m :: ms), fuel + 1, rest, hj, hfuel, _ => by
    simp only [chars, List.cons_append, List.append_assoc, List.nil_append, List.length_cons,
      List.length_append, List.length_nil] at hfuel ⊢
    have hmembers :
        members fuel (commas (memberChars (m :: ms)) ++ '}' :: rest) = some (m :: ms, rest) :=
      members_chars (m :: ms) nofun hj (by omega)
    obtain ⟨cs, hc⟩ := exists_cons_members m ms
    rw [hc] at hmembers ⊢
    rw [List.cons_append] at hmembers ⊢
    rw [value_object, hmembers]
    rfl

/-- The items of an array are read back up to its bracket. -/
theorem items_chars : ∀ (js : List Json) {fuel : ℕ} {rest : List Char}, js ≠ [] → AreStrict js →
    2 * (commas (itemChars js)).length + 1 ≤ fuel →
    items fuel (commas (itemChars js) ++ ']' :: rest) = some (js, rest)
  | [j], fuel + 1, rest, _, hj, hfuel => by
    simp only [itemChars, commas] at hfuel ⊢
    exact items_last (value_chars j hj.1 (by omega) (endsNumeral_cons (by decide) rest))
  | j :: j' :: js, fuel + 1, rest, _, hj, hfuel => by
    simp only [itemChars, commas, List.append_assoc, List.cons_append, List.length_append,
      List.length_cons] at hfuel ⊢
    exact items_comma (value_chars j hj.1 (by omega) (endsNumeral_cons (by decide) _))
      (items_chars (j' :: js) nofun hj.2 (by simp only [itemChars]; omega))

/-- The members of an object are read back up to its brace. -/
theorem members_chars : ∀ (ms : List (Option String × Json)) {fuel : ℕ} {rest : List Char},
    ms ≠ [] → AreStrictMembers ms → 2 * (commas (memberChars ms)).length + 1 ≤ fuel →
    members fuel (commas (memberChars ms) ++ '}' :: rest) = some (ms, rest)
  | [(_, j)], fuel + 1, rest, _, hj, hfuel => by
    simp only [memberChars, commas, List.append_assoc, List.cons_append, List.length_append,
      List.length_cons] at hfuel ⊢
    exact members_last (value_chars j hj.1 (by omega) (endsNumeral_cons (by decide) rest))
  | (_, j) :: m :: ms, fuel + 1, rest, _, hj, hfuel => by
    simp only [memberChars, commas, List.append_assoc, List.cons_append, List.length_append,
      List.length_cons] at hfuel ⊢
    exact members_comma (value_chars j hj.1 (by omega) (endsNumeral_cons (by decide) _))
      (members_chars (m :: ms) nofun hj.2 (by simp only [memberChars]; omega))

end

end Reader

/-- **A compact form is read as the tree that it is the form of.** -/
theorem parse?_chars {j : Json} (hj : j.IsStrict) : parse? j.chars = some j := by
  have hvalue : Reader.value (2 * j.chars.length + 2) (j.chars ++ []) = some (j, []) :=
    Reader.value_chars j hj (by omega) nofun
  rw [List.append_nil] at hvalue
  rw [parse?, hvalue]
  rfl

theorem parse?_write {j : Json} (hj : j.IsStrict) : parse? j.write.toList = some j := by
  rw [write, String.toList_ofList]
  exact parse?_chars hj

end LiveBuild.Json
