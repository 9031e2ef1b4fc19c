import LiveBuild.Build.Settings
import LiveBuild.Proofs.Decimal.Word
import LiveBuild.Proofs.Text.Lines
import LiveBuild.Proofs.Text.Literal

/-!
# Settings and their variables

`ofLookup_reads_variables`: each setting is read from its own variable, and whether reading fails is
a matter of the time limit alone.

* `Denotes`: the texts that a time limit may be, spelled out as blanks, sign and digits.
  `milliseconds?_eq_some_iff` says that they are read, up to the last number below `2 ^ 64`, and
  that nothing else is;
* `IsSetBy`, `IsReadFrom`: what the variables say of each setting, with the names of the variables
  and the defaults;
* `ofLookup_eq_ok_iff`, `ofLookup_eq_error_iff`: the two ways in which reading ends;
* `AgreeBy`: settings of two environments are the same wherever the variables are.
-/

namespace LiveBuild.Settings

variable {tempDir : Path} {env env' : String → Option String} {s s' : Settings} {text : String}
  {sign digits : List Char} {m n : ℕ} {w : UInt64}

/-! ## Time limits -/

/-- A text denotes a number: it is digits, perhaps after one plus sign, between blanks. -/
def Denotes (text : String) (n : ℕ) : Prop :=
  ∃ before sign digits after : List Char,
    text.toList = before ++ (sign ++ digits) ++ after ∧
    (∀ c ∈ before, Text.isBlank c = true) ∧ (∀ c ∈ after, Text.isBlank c = true) ∧
    (sign = [] ∨ sign = ['+']) ∧ IsDigits digits ∧ n = Word.placeValue digits

theorem isBlank_of_isDigit {c : Char} (h : c.isDigit = true) : Text.isBlank c = false := by
  have hlow : 48 ≤ c.toNat := (Char.isDigit_iff_toNat.1 h).1
  have hhigh : c.toNat ≤ 57 := (Char.isDigit_iff_toNat.1 h).2
  simp only [Text.isBlank, Bool.or_eq_false_iff, Bool.and_eq_false_iff, decide_eq_false_iff_not,
    beq_eq_false_iff_ne]
  omega

theorem dropPlus_sign_append (hsign : sign = [] ∨ sign = ['+']) (hdigits : IsDigits digits) :
    dropPlus (sign ++ digits) = digits := by
  rcases hsign with rfl | rfl
  · obtain ⟨c, cs, rfl⟩ := List.exists_cons_of_ne_nil hdigits.ne_nil
    have hc : c.isDigit = true := hdigits.isDigit c List.mem_cons_self
    rw [List.nil_append, dropPlus]
    rintro ds heq
    obtain ⟨rfl, -⟩ := List.cons.inj heq
    cases hc
  · rfl

theorem exists_sign_append_dropPlus (cs : List Char) :
    ∃ sign, cs = sign ++ dropPlus cs ∧ (sign = [] ∨ sign = ['+']) := by
  unfold dropPlus
  split
  next cs => exact ⟨['+'], rfl, .inr rfl⟩
  next => exact ⟨[], rfl, .inl rfl⟩

/-- The digits of a time limit are what is left of it without its blanks and its sign. -/
theorem denotes_iff : Denotes text n ↔
    IsDigits (dropPlus (Text.trim text.toList)) ∧
      n = Word.placeValue (dropPlus (Text.trim text.toList)) := by
  constructor
  · rintro ⟨before, sign, digits, after, htext, hbefore, hafter, hsign, hdigits, hn⟩
    have hbody : ∀ c ∈ sign ++ digits, Text.isBlank c = false := by
      refine List.forall_mem_append.2 ⟨?_, fun c hc => isBlank_of_isDigit (hdigits.isDigit c hc)⟩
      rcases hsign with rfl | rfl
      · exact fun c hc => absurd hc List.not_mem_nil
      · exact List.forall_mem_singleton.2 rfl
    rw [htext, Text.trim_between hbefore hbody hafter, dropPlus_sign_append hsign hdigits]
    exact ⟨hdigits, hn⟩
  · rintro ⟨hdigits, hn⟩
    obtain ⟨before, after, htext, hbefore, hafter⟩ := Text.exists_eq_append_trim text.toList
    obtain ⟨sign, htrim, hsign⟩ := exists_sign_append_dropPlus (Text.trim text.toList)
    exact ⟨before, sign, _, after, htrim ▸ htext, hbefore, hafter, hsign, hdigits, hn⟩

theorem Denotes.unique (hm : Denotes text m) (hn : Denotes text n) : m = n :=
  (denotes_iff.1 hm).2.trans (denotes_iff.1 hn).2.symm

/-- **A time limit is read exactly if it denotes a number that sixty-four bits hold.** -/
theorem milliseconds?_eq_some_iff : milliseconds? text = some w ↔ Denotes text w.toNat := by
  rw [milliseconds?, Word.ofDigits?_eq_some_iff, denotes_iff]

theorem milliseconds?_eq_none_iff : milliseconds? text = none ↔ ¬ ∃ n < 2 ^ 64, Denotes text n := by
  rw [Option.eq_none_iff_forall_ne_some]
  constructor
  · rintro h ⟨n, hlt, hn⟩
    obtain ⟨w, rfl⟩ := Word.exists_toNat_eq hlt
    exact h w (milliseconds?_eq_some_iff.2 hn)
  · intro h w hw
    exact h ⟨w.toNat, w.toNat_lt, milliseconds?_eq_some_iff.1 hw⟩

/-! ## Each setting by its variable -/

/-- A setting is read from the value of its variable, or is the default while there is none. -/
def IsSetBy {β : Type} (value : Option String) (reads : String → β → Prop) (default b : β) : Prop :=
  value.elim (b = default) fun text => reads text b

/-- Settings are those of an environment. -/
structure IsReadFrom (tempDir : Path) (env : String → Option String) (s : Settings) : Prop where
  compiler : IsSetBy (env "DYNCODE_RUSTC") (fun text p => p = ⟨text⟩) ⟨"rustc"⟩ s.compiler
  workDir : IsSetBy (env "DYNCODE_WORK_DIR") (fun text p => p = ⟨text⟩) (tempDir.child "dyncode")
    s.workDir
  edition : IsSetBy (env "DYNCODE_EDITION") (fun text e => e = text) "2021" s.edition
  timeLimit : IsSetBy (env "DYNCODE_COMPILE_TIMEOUT_MS")
    (fun text limit => ∃ n < 2 ^ 64, Denotes text n ∧ limit = some n) none s.timeLimit

/-- Settings of two environments are the same wherever their variables are. -/
structure AgreeBy (env env' : String → Option String) (s s' : Settings) : Prop where
  compiler : env "DYNCODE_RUSTC" = env' "DYNCODE_RUSTC" → s.compiler = s'.compiler
  workDir : env "DYNCODE_WORK_DIR" = env' "DYNCODE_WORK_DIR" → s.workDir = s'.workDir
  edition : env "DYNCODE_EDITION" = env' "DYNCODE_EDITION" → s.edition = s'.edition
  timeLimit : env "DYNCODE_COMPILE_TIMEOUT_MS" = env' "DYNCODE_COMPILE_TIMEOUT_MS" →
    s.timeLimit = s'.timeLimit

section

variable {β : Type} {value value' : Option String} {reads : String → β → Prop} {default b b' : β}

theorem IsSetBy.eq_of_eq (h : IsSetBy value reads default b) (h' : IsSetBy value' reads default b')
    (hvalue : value = value') (hreads : ∀ text b b', reads text b → reads text b' → b = b') :
    b = b' := by
  subst hvalue
  cases value with
  | none => exact Eq.trans h (Eq.symm h')
  | some text => exact hreads text b b' h h'

theorem isSetBy_iff_eq_elim {f : String → β} :
    IsSetBy value (fun text b => b = f text) default b ↔ b = value.elim default f := by
  cases value <;> exact Iff.rfl

end

theorem isSetBy_iff_eq_getD {value : Option String} {default : String} :
    IsSetBy value (fun text b => b = text) default text ↔ text = value.getD default := by
  cases value <;> exact Iff.rfl

/-- What is read from an environment does not depend on the variables of other settings. -/
theorem IsReadFrom.agreeBy (h : IsReadFrom tempDir env s) (h' : IsReadFrom tempDir env' s') :
    AgreeBy env env' s s' where
  compiler heq := h.compiler.eq_of_eq h'.compiler heq fun _ _ _ hp hq => hp.trans hq.symm
  workDir heq := h.workDir.eq_of_eq h'.workDir heq fun _ _ _ hp hq => hp.trans hq.symm
  edition heq := h.edition.eq_of_eq h'.edition heq fun _ _ _ hp hq => hp.trans hq.symm
  timeLimit heq := by
    refine h.timeLimit.eq_of_eq h'.timeLimit heq ?_
    rintro text - - ⟨m, -, hm, rfl⟩ ⟨n, -, hn, rfl⟩
    rw [hm.unique hn]

/-! ## Reading an environment -/

/-- The settings of an environment, with a time limit. -/
def withLimit (tempDir : Path) (env : String → Option String) (limit : Option ℕ) : Settings where
  compiler := (env "DYNCODE_RUSTC").elim ⟨"rustc"⟩ Path.mk
  workDir := (env "DYNCODE_WORK_DIR").elim (tempDir.child "dyncode") Path.mk
  edition := (env "DYNCODE_EDITION").getD "2021"
  timeLimit := limit

theorem isReadFrom_iff : IsReadFrom tempDir env s ↔
    s = withLimit tempDir env s.timeLimit ∧
      IsSetBy (env "DYNCODE_COMPILE_TIMEOUT_MS")
        (fun text limit => ∃ n < 2 ^ 64, Denotes text n ∧ limit = some n) none s.timeLimit := by
  obtain ⟨compiler, workDir, edition, limit⟩ := s
  constructor
  · rintro ⟨hcompiler, hworkDir, hedition, hlimit⟩
    refine ⟨?_, hlimit⟩
    rw [withLimit, Settings.mk.injEq]
    exact ⟨isSetBy_iff_eq_elim.1 hcompiler, isSetBy_iff_eq_elim.1 hworkDir,
      isSetBy_iff_eq_getD.1 hedition, rfl⟩
  · rintro ⟨heq, hlimit⟩
    rw [withLimit, Settings.mk.injEq] at heq
    obtain ⟨hcompiler, hworkDir, hedition, -⟩ := heq
    exact ⟨isSetBy_iff_eq_elim.2 hcompiler, isSetBy_iff_eq_elim.2 hworkDir,
      isSetBy_iff_eq_getD.2 hedition, hlimit⟩

theorem ofLookup_of_unset (h : env "DYNCODE_COMPILE_TIMEOUT_MS" = none) :
    ofLookup tempDir (fun v => env v.name) = .ok (withLimit tempDir env none) := by
  have hlimit : env Variable.timeLimit.name = none := h
  rw [ofLookup, hlimit]
  rfl

theorem ofLookup_of_milliseconds? (h : env "DYNCODE_COMPILE_TIMEOUT_MS" = some text)
    (hw : milliseconds? text = some w) :
    ofLookup tempDir (fun v => env v.name) = .ok (withLimit tempDir env (some w.toNat)) := by
  have hlimit : env Variable.timeLimit.name = some text := h
  simp only [ofLookup, hlimit, hw]
  rfl

theorem ofLookup_of_invalid (h : env "DYNCODE_COMPILE_TIMEOUT_MS" = some text)
    (hnone : milliseconds? text = none) :
    ofLookup tempDir (fun v => env v.name) = .error (.invalidValue .timeLimit text) := by
  have hlimit : env Variable.timeLimit.name = some text := h
  simp only [ofLookup, hlimit, hnone]
  rfl

/-- **What is read is what the variables say**, each of its own setting. -/
theorem ofLookup_eq_ok_iff :
    ofLookup tempDir (fun v => env v.name) = .ok s ↔ IsReadFrom tempDir env s := by
  rw [isReadFrom_iff]
  cases hvalue : env "DYNCODE_COMPILE_TIMEOUT_MS" with
  | none =>
    rw [ofLookup_of_unset hvalue, Except.ok.injEq]
    constructor
    · rintro rfl
      exact ⟨rfl, rfl⟩
    · rintro ⟨heq, hlimit⟩
      have hnone : s.timeLimit = none := hlimit
      rw [heq, hnone]
  | some text =>
    cases hread : milliseconds? text with
    | none =>
      rw [ofLookup_of_invalid hvalue hread]
      refine iff_of_false (fun h => by cases h) ?_
      rintro ⟨-, n, hlt, hn, -⟩
      exact milliseconds?_eq_none_iff.1 hread ⟨n, hlt, hn⟩
    | some w =>
      have hw := milliseconds?_eq_some_iff.1 hread
      rw [ofLookup_of_milliseconds? hvalue hread, Except.ok.injEq]
      constructor
      · rintro rfl
        exact ⟨rfl, w.toNat, w.toNat_lt, hw, rfl⟩
      · rintro ⟨heq, n, -, hn, hlimit⟩
        rw [heq, hlimit, hw.unique hn]

/-- **Reading fails for the time limit only**, and exactly if it denotes no number that fits. -/
theorem ofLookup_eq_error_iff {e : Error} :
    ofLookup tempDir (fun v => env v.name) = .error e ↔
      ∃ text, env "DYNCODE_COMPILE_TIMEOUT_MS" = some text ∧
        (¬ ∃ n < 2 ^ 64, Denotes text n) ∧ e = .invalidValue .timeLimit text := by
  cases hvalue : env "DYNCODE_COMPILE_TIMEOUT_MS" with
  | none =>
    rw [ofLookup_of_unset hvalue]
    exact iff_of_false (fun h => by cases h) (by rintro ⟨text, h, -⟩; cases h)
  | some text =>
    cases hread : milliseconds? text with
    | none =>
      rw [ofLookup_of_invalid hvalue hread, Except.error.injEq]
      constructor
      · rintro rfl
        exact ⟨text, rfl, milliseconds?_eq_none_iff.1 hread, rfl⟩
      · rintro ⟨text, h, -, rfl⟩
        rw [Option.some_inj.1 h]
    | some w =>
      rw [ofLookup_of_milliseconds? hvalue hread]
      refine iff_of_false (fun h => by cases h) ?_
      rintro ⟨text, h, hno, -⟩
      obtain rfl := Option.some_inj.1 h
      exact hno ⟨w.toNat, w.toNat_lt, milliseconds?_eq_some_iff.1 hread⟩

theorem tokens?_quote (text : String) :
    Text.tokens? (Text.quote text).toList = some [.literal text] := by
  rw [Text.tokens?, Text.scan_quote]

/-- **Each setting is read from its own variable.** Whatever the variables of an environment are,
reading it fails if and only if the time limit is set and does not denote a number below `2 ^ 64`.
The error quotes the value as it is, with its blanks, and what is quoted can be read back. Otherwise
each setting is the value of its variable, or the default while the variable is unset, and the time
limit is the number that it denotes. So two environments that can be read give the same settings
wherever their variables are the same. -/
theorem ofLookup_reads_variables (tempDir : Path) (env : String → Option String) :
    (∀ e, ofLookup tempDir (fun v => env v.name) = .error e ↔
      ∃ text, env "DYNCODE_COMPILE_TIMEOUT_MS" = some text ∧
        (¬ ∃ n < 2 ^ 64, Denotes text n) ∧ e = .invalidValue .timeLimit text) ∧
    (∀ text, (Error.invalidValue .timeLimit text).message =
      "Invalid value for DYNCODE_COMPILE_TIMEOUT_MS: " ++ Text.quote text ∧
        Text.tokens? (Text.quote text).toList = some [.literal text]) ∧
    (∀ s, ofLookup tempDir (fun v => env v.name) = .ok s ↔ IsReadFrom tempDir env s) ∧
    ∀ (env' : String → Option String) (s s' : Settings),
      ofLookup tempDir (fun v => env v.name) = .ok s →
      ofLookup tempDir (fun v => env' v.name) = .ok s' → AgreeBy env env' s s' := by
  refine ⟨fun e => ofLookup_eq_error_iff, fun text => ⟨rfl, tokens?_quote text⟩,
    fun s => ofLookup_eq_ok_iff, fun env' s s' h h' => ?_⟩
  exact (ofLookup_eq_ok_iff.1 h).agreeBy (ofLookup_eq_ok_iff.1 h')

/-- An environment with an empty edition, and with a time limit. -/
def environment (limit : String) (name : String) : Option String :=
  if name = "DYNCODE_EDITION" then some ""
  else if name = "DYNCODE_COMPILE_TIMEOUT_MS" then some limit
  else none

/-- The largest time limit, with a sign, a zero and blanks, beside another time limit, and the first
number that is too large. -/
theorem ofLookup_reads_variables_largest :
    ofLookup defaultTempDir (fun v => environment "\u2003+018446744073709551615\n" v.name) =
      .ok ⟨⟨"rustc"⟩, ⟨"/tmp/dyncode"⟩, "", some 18446744073709551615⟩ ∧
    ofLookup defaultTempDir (fun v => environment "7" v.name) =
      .ok ⟨⟨"rustc"⟩, ⟨"/tmp/dyncode"⟩, "", some 7⟩ ∧
    AgreeBy (environment "\u2003+018446744073709551615\n") (environment "7")
      ⟨⟨"rustc"⟩, ⟨"/tmp/dyncode"⟩, "", some 18446744073709551615⟩
      ⟨⟨"rustc"⟩, ⟨"/tmp/dyncode"⟩, "", some 7⟩ ∧
    ¬ ∃ n < 2 ^ 64, Denotes "18446744073709551616 " n := by
  have hlargest : ofLookup defaultTempDir
      (fun v => environment "\u2003+018446744073709551615\n" v.name) =
        .ok ⟨⟨"rustc"⟩, ⟨"/tmp/dyncode"⟩, "", some 18446744073709551615⟩ := by rfl
  have hseven : ofLookup defaultTempDir (fun v => environment "7" v.name) =
      .ok ⟨⟨"rustc"⟩, ⟨"/tmp/dyncode"⟩, "", some 7⟩ := by rfl
  have htooLarge : ofLookup defaultTempDir
      (fun v => environment "18446744073709551616 " v.name) =
        .error (.invalidValue .timeLimit "18446744073709551616 ") := by rfl
  obtain ⟨-, -, -, hagree⟩ := ofLookup_reads_variables defaultTempDir
    (environment "\u2003+018446744073709551615\n")
  obtain ⟨herror, -⟩ := ofLookup_reads_variables defaultTempDir
    (environment "18446744073709551616 ")
  obtain ⟨text, htext, hno, -⟩ := (herror _).1 htooLarge
  obtain rfl : "18446744073709551616 " = text := Option.some_inj.1 htext
  exact ⟨hlargest, hseven, hagree _ _ _ hlargest hseven, hno⟩

end LiveBuild.Settings
