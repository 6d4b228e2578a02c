import Palimpsest.Layer.Fields

/-!
# The texts that `int` reads

`int(data, base)` reads more than digits. A text that it accepts is a
`Palimpsest.Layer.Spelling`: white space, a sign, for base 8 the mark `0o`, digits with
single underscores between them, and white space again. `Palimpsest.Layer.pyInt_eq_some`
says that these are all, and what they are read as. A spelling that has more than its
digits is loose (`Palimpsest.Layer.Spelling.IsLoose`), and it is so exactly when the text is
not made of digits alone (`Palimpsest.Layer.Spelling.isLoose_iff`).
-/

namespace Palimpsest.Layer

/-- A digit of the base. -/
def IsDigit (base : ℕ) (c : UInt8) : Prop := 48 ≤ c ∧ c.toNat < 48 + base

instance (base : ℕ) (c : UInt8) : Decidable (IsDigit base c) := inferInstanceAs (Decidable (_ ∧ _))

/-- Digits of the base, and nothing else. -/
def IsDigits (base : ℕ) (b : Bytes) : Prop := ∀ c ∈ b, IsDigit base c

/-- The number that digits stand for. -/
def digitsValue (base : ℕ) (b : Bytes) : ℕ := b.foldl (fun n c => base * n + (c.toNat - 48)) 0

/-- Digits, with single underscores between them. -/
inductive Underscored (base : ℕ) : Bytes → Prop
  | digit {c : UInt8} (hc : IsDigit base c) : Underscored base [c]
  | cons {c : UInt8} {b : Bytes} (hc : IsDigit base c) (hb : Underscored base b) :
    Underscored base (c :: b)
  | gap {c : UInt8} {b : Bytes} (hc : IsDigit base c) (hb : Underscored base b) :
    Underscored base (c :: 95 :: b)

/-- The digits of a text, without its underscores. -/
def digitsOf (b : Bytes) : Bytes := b.filter (· ≠ 95)

/-- The marks that may stand in front of the digits. -/
def marks (base : ℕ) : List Bytes :=
  if base = 8 then [[], [48, 111], [48, 79], [48, 111, 95], [48, 79, 95]] else [[]]

/-- The parts of a text that `int` reads. -/
structure Spelling (base : ℕ) (b : Bytes) where
  before : Bytes
  sign : Bytes
  mark : Bytes
  body : Bytes
  after : Bytes
  text : b = before ++ (sign ++ (mark ++ (body ++ after)))
  before_space : ∀ c ∈ before, isPySpace c
  sign_mem : sign ∈ [[], [43], [45]]
  mark_mem : mark ∈ marks base
  underscored : Underscored base body
  after_space : ∀ c ∈ after, isPySpace c

namespace Spelling

variable {base : ℕ} {b : Bytes}

/-- The number that a spelling stands for. -/
def value (s : Spelling base b) : ℤ :=
  (if s.sign = [45] then -1 else 1) * digitsValue base (digitsOf s.body)

/-- A spelling with white space, a sign, a mark or an underscore. -/
def IsLoose (s : Spelling base b) : Prop :=
  s.before ≠ [] ∨ s.sign ≠ [] ∨ s.mark ≠ [] ∨ 95 ∈ s.body ∨ s.after ≠ []

end Spelling

/-! ### Digits and other bytes -/

variable {base : ℕ}

theorem IsDigit.toNat {c : UInt8} (h : IsDigit base c) : 48 ≤ c.toNat ∧ c.toNat < 48 + base :=
  ⟨UInt8.le_iff_toNat_le.mp h.1, h.2⟩

theorem IsDigit.toNat_lt {c : UInt8} (h : IsDigit base c) (hbase : base ≤ 10) : c.toNat < 58 :=
  h.toNat.2.trans_le (Nat.add_le_add_left hbase 48)

theorem ne_of_isDigit {c : UInt8} (hbase : base ≤ 10) (h : IsDigit base c) {d : UInt8}
    (hd : d.toNat < 48 ∨ 58 ≤ d.toNat) : c ≠ d := by
  rintro rfl
  have hlow := h.toNat.1
  have hhigh := h.toNat_lt hbase
  omega

theorem isPySpace_iff {c : UInt8} :
    isPySpace c = true ↔ c.toNat = 32 ∨ 9 ≤ c.toNat ∧ c.toNat ≤ 13 := by
  rw [isPySpace, Bool.or_eq_true, Bool.and_eq_true, decide_eq_true_eq, decide_eq_true_eq,
    decide_eq_true_eq, UInt8.le_iff_toNat_le, UInt8.le_iff_toNat_le, ← UInt8.toNat_inj]
  rfl

theorem isPySpace_of_isDigit {c : UInt8} (h : IsDigit base c) :
    isPySpace c = false := by
  have := h.toNat
  rw [← Bool.not_eq_true, isPySpace_iff]
  omega

/-- Where the digits of a text end. -/
def EndsDigits (base : ℕ) (rest : Bytes) : Prop :=
  ∀ c ∈ rest.head?, c ≠ 95 ∧ ¬IsDigit base c

theorem endsDigits_of_space {rest : Bytes} (h : ∀ c ∈ rest, isPySpace c) :
    EndsDigits base rest := by
  intro c hc
  have hspace := isPySpace_iff.mp (h c (List.mem_of_mem_head? hc))
  constructor
  · rintro rfl
    revert hspace
    decide
  · intro hdigit
    have := hdigit.toNat
    omega

namespace Underscored

/-- Such a text starts with a digit. -/
theorem exists_cons {b : Bytes} (h : Underscored base b) :
    ∃ c b', b = c :: b' ∧ IsDigit base c := by
  cases h with
  | digit hc => exact ⟨_, _, rfl, hc⟩
  | cons hc hb => exact ⟨_, _, rfl, hc⟩
  | gap hc hb => exact ⟨_, _, rfl, hc⟩

theorem mem {b : Bytes} (h : Underscored base b) {c : UInt8} (hc : c ∈ b) :
    c = 95 ∨ IsDigit base c := by
  induction h with
  | digit hd => exact .inr (List.mem_singleton.mp hc ▸ hd)
  | cons hd _ ih =>
    rcases List.mem_cons.mp hc with rfl | hc
    · exact .inr hd
    · exact ih hc
  | gap hd _ ih =>
    rcases List.mem_cons.mp hc with rfl | hc
    · exact .inr hd
    · rcases List.mem_cons.mp hc with rfl | hc
      · exact .inl rfl
      · exact ih hc

end Underscored

theorem IsDigits.underscored {b : Bytes} (h : IsDigits base b) (hne : b ≠ []) :
    Underscored base b := by
  induction b with
  | nil => exact absurd rfl hne
  | cons c b ih =>
    have hc := h c List.mem_cons_self
    cases b with
    | nil => exact .digit hc
    | cons d b => exact .cons hc (ih (fun e he => h e (List.mem_cons_of_mem c he)) (by simp))

theorem digitsOf_eq_self (hbase : base ≤ 10) {b : Bytes} (h : IsDigits base b) :
    digitsOf b = b := by
  refine List.filter_eq_self.mpr fun c hc => ?_
  rw [decide_eq_true_eq]
  exact ne_of_isDigit hbase (h c hc) (.inr (by decide))

/-! ### Reading digits -/

/-- The digits that `readDigits` collects. -/
def digitValues (b : Bytes) : List ℕ := (digitsOf b).map (·.toNat - 48)

theorem digitValues_cons (hbase : base ≤ 10) {c : UInt8} (hc : IsDigit base c) (b : Bytes) :
    digitValues (c :: b) = (c.toNat - 48) :: digitValues b := by
  have hne : c ≠ 95 := ne_of_isDigit hbase hc (.inr (by decide))
  rw [digitValues, digitsOf, List.filter_cons_of_pos (by simpa using hne)]
  rfl

theorem digitValues_underscore (b : Bytes) : digitValues (95 :: b) = digitValues b := rfl

theorem readDigits_cons (c : UInt8) (b : Bytes) (afterUnderscore : Bool) (digits : List ℕ) :
    readDigits base (c :: b) afterUnderscore digits =
      if c = 95 then
        if afterUnderscore then none else readDigits base b true digits
      else if IsDigit base c then readDigits base b false (digits ++ [c.toNat - 48])
      else if afterUnderscore then none
      else some (digits, c :: b) := rfl

theorem readDigits_digit (hbase : base ≤ 10) {c : UInt8} (hc : IsDigit base c) (b : Bytes)
    (afterUnderscore : Bool) (digits : List ℕ) :
    readDigits base (c :: b) afterUnderscore digits =
      readDigits base b false (digits ++ [c.toNat - 48]) := by
  rw [readDigits_cons, if_neg (ne_of_isDigit hbase hc (.inr (by decide))), if_pos hc]

theorem readDigits_end {rest : Bytes} (h : EndsDigits base rest) (digits : List ℕ) :
    readDigits base rest false digits = some (digits, rest) := by
  cases rest with
  | nil => rfl
  | cons c rest =>
    obtain ⟨hne, hnot⟩ := h c rfl
    rw [readDigits_cons, if_neg hne, if_neg hnot, if_neg Bool.false_ne_true]

/-- Digits with underscores are read whole. -/
theorem readDigits_append (hbase : base ≤ 10) {body rest : Bytes} (h : Underscored base body)
    (hrest : EndsDigits base rest) (afterUnderscore : Bool) (digits : List ℕ) :
    readDigits base (body ++ rest) afterUnderscore digits =
      some (digits ++ digitValues body, rest) := by
  induction h generalizing afterUnderscore digits with
  | digit hc =>
    rw [List.singleton_append, readDigits_digit hbase hc, readDigits_end hrest,
      digitValues_cons hbase hc]
    rfl
  | cons hc _ ih =>
    rw [List.cons_append, readDigits_digit hbase hc, ih, digitValues_cons hbase hc,
      List.append_assoc, List.singleton_append]
  | gap hc _ ih =>
    rw [List.cons_append, readDigits_digit hbase hc, List.cons_append, readDigits, if_pos rfl,
      if_neg Bool.false_ne_true, ih, digitValues_cons hbase hc, digitValues_underscore,
      List.append_assoc, List.singleton_append]

/-- What has been read: after an underscore digits must follow, elsewhere there may be none,
and the text may start with an underscore. -/
theorem readDigits_eq_some (hbase : base ≤ 10) {b rest : Bytes} {afterUnderscore : Bool}
    {digits digits' : List ℕ}
    (h : readDigits base b afterUnderscore digits = some (digits', rest)) :
    ∃ body, b = body ++ rest ∧ digits' = digits ++ digitValues body ∧
      (Underscored base body ∨ afterUnderscore = false ∧
        (body = [] ∨ ∃ body', body = 95 :: body' ∧ Underscored base body')) := by
  induction b generalizing afterUnderscore digits with
  | nil =>
    cases afterUnderscore with
    | true => cases h
    | false =>
      cases h
      exact ⟨[], rfl, (List.append_nil _).symm, .inr ⟨rfl, .inl rfl⟩⟩
  | cons c b ih =>
    by_cases hunderscore : c = 95
    · subst hunderscore
      rw [readDigits, if_pos rfl] at h
      cases afterUnderscore with
      | true => cases h
      | false =>
        obtain ⟨body, rfl, rfl, hbody | ⟨hfalse, -⟩⟩ := ih h
        · exact ⟨95 :: body, rfl, rfl, .inr ⟨rfl, .inr ⟨body, rfl, hbody⟩⟩⟩
        · cases hfalse
    · by_cases hc : IsDigit base c
      · rw [readDigits_digit hbase hc] at h
        obtain ⟨body, rfl, rfl, hbody⟩ := ih h
        refine ⟨c :: body, rfl, ?_, .inl ?_⟩
        · rw [digitValues_cons hbase hc, List.append_assoc, List.singleton_append]
        · obtain hbody | ⟨-, rfl | ⟨body', rfl, hbody'⟩⟩ := hbody
          · exact .cons hc hbody
          · exact .digit hc
          · exact .gap hc hbody'
      · rw [readDigits_cons, if_neg hunderscore, if_neg hc] at h
        cases afterUnderscore with
        | true => cases h
        | false =>
          cases h
          exact ⟨[], rfl, (List.append_nil _).symm, .inr ⟨rfl, .inl rfl⟩⟩

/-! ### Reading a number -/

theorem readSign_eq (b : Bytes) :
    ∃ sign ∈ [[], [43], [45]], b = sign ++ (readSign b).2 ∧
      (readSign b).1 = if sign = [45] then -1 else 1 := by
  rcases b with _ | ⟨c, b⟩
  · exact ⟨[], by simp, rfl, rfl⟩
  · by_cases hplus : c = 43
    · subst hplus
      exact ⟨[43], by simp, rfl, rfl⟩
    · by_cases hminus : c = 45
      · subst hminus
        exact ⟨[45], by simp, rfl, rfl⟩
      · refine ⟨[], by simp, ?_, ?_⟩ <;> simp [readSign, hplus, hminus]

theorem readSign_append {sign b : Bytes} (hsign : sign ∈ [[], [43], [45]])
    (hb : ∀ c ∈ b.head?, c ≠ 43 ∧ c ≠ 45) :
    readSign (sign ++ b) = (if sign = [45] then -1 else 1, b) := by
  simp only [List.mem_cons, List.not_mem_nil, or_false] at hsign
  rcases hsign with rfl | rfl | rfl
  · cases b with
    | nil => rfl
    | cons c b =>
      obtain ⟨hplus, hminus⟩ := hb c rfl
      simp [readSign, hplus, hminus]
  · rfl
  · rfl

theorem marks_cases {mark : Bytes} (h : mark ∈ marks base) :
    mark = [] ∨ base = 8 ∧ (mark = [48, 111] ∨ mark = [48, 79] ∨ mark = [48, 111, 95] ∨
      mark = [48, 79, 95]) := by
  rw [marks] at h
  split_ifs at h with hbase
  · simp only [List.mem_cons, List.not_mem_nil, or_false] at h
    exact h.imp_right fun h => ⟨hbase, h⟩
  · exact .inl (List.mem_singleton.mp h)

theorem skipOctalMark_eq (b : Bytes) : ∃ mark ∈ marks 8, b = mark ++ skipOctalMark b := by
  unfold skipOctalMark
  split
  · exact ⟨[48, 111, 95], by decide, rfl⟩
  · exact ⟨[48, 79, 95], by decide, rfl⟩
  · exact ⟨[48, 111], by decide, rfl⟩
  · exact ⟨[48, 79], by decide, rfl⟩
  · exact ⟨[], by decide, rfl⟩

/-- In front of digits a mark is skipped, and only a mark is. -/
theorem skipOctalMark_append {mark b : Bytes} (hmark : mark ∈ marks 8)
    (hhead : ∀ c ∈ b.head?, IsDigit 8 c) (hnext : ∀ c ∈ b.tail.head?, c ≠ 111 ∧ c ≠ 79) :
    skipOctalMark (mark ++ b) = b := by
  obtain rfl | ⟨-, hmark⟩ := marks_cases hmark
  · unfold skipOctalMark
    rw [List.nil_append]
    split <;> simp_all
  · have hne : ∀ b', b ≠ 95 :: b' := by
      rintro b' rfl
      exact absurd (hhead 95 rfl).toNat (by decide)
    rcases hmark with rfl | rfl | rfl | rfl
    · simp only [List.cons_append, List.nil_append, skipOctalMark]
    · simp only [List.cons_append, List.nil_append, skipOctalMark]
    · rfl
    · rfl

/-! ### What `int` reads -/

theorem foldl_cast (digits : List ℕ) (n : ℕ) :
    digits.foldl (fun (n : ℤ) (d : ℕ) => (base : ℤ) * n + (d : ℤ)) (n : ℤ) =
      ((digits.foldl (fun n d => base * n + d) n : ℕ) : ℤ) := by
  induction digits generalizing n with
  | nil => rfl
  | cons d digits ih =>
    have ih := ih (base * n + d)
    push_cast at ih
    exact ih

theorem foldl_digitValues (b : Bytes) (n : ℕ) :
    (digitValues b).foldl (fun n d => base * n + d) n =
      (digitsOf b).foldl (fun n c => base * n + (c.toNat - 48)) n := by
  rw [digitValues, List.foldl_map]

theorem pyInt_eq (base : ℕ) (data : Bytes) : pyInt base data =
    let signed := readSign (data.dropWhile isPySpace)
    let b := if base = 8 then skipOctalMark signed.2 else signed.2
    if b.head? = some 95 then none
    else (readDigits base b false []).bind fun read =>
      if read.1 = [] ∨ base = 10 ∧ maxStrDigits < read.1.length then none
      else if read.2.all isPySpace then
        some (signed.1 * (read.1.foldl (fun n d => base * n + d) 0 : ℕ))
      else none := by
  have hcast : ∀ digits : List ℕ, (digits >>= fun d => pure (d : ℤ)).foldl
      (fun n d => (base : ℤ) * n + d) 0 = (digits.foldl (fun n d => base * n + d) 0 : ℕ) := by
    intro digits
    rw [bind_pure_comp, List.map_eq_map, List.foldl_map]
    exact foldl_cast digits 0
  simp only [← hcast]
  rfl

namespace Spelling

variable {b : Bytes}

theorem ne_nil (s : Spelling base b) : b ≠ [] := by
  obtain ⟨c, body, hbody, -⟩ := s.underscored.exists_cons
  have hmem : c ∈ s.before ++ (s.sign ++ (s.mark ++ (s.body ++ s.after))) := by simp [hbody]
  rw [← s.text] at hmem
  exact List.ne_nil_of_mem hmem

/-- What follows the white space and the sign. -/
def number (s : Spelling base b) : Bytes := s.mark ++ (s.body ++ s.after)

theorem exists_body (s : Spelling base b) : ∃ c rest, s.body ++ s.after = c :: rest ∧
    IsDigit base c ∧ ∀ d ∈ rest.head?, d = 95 ∨ IsDigit base d ∨ isPySpace d := by
  obtain ⟨c, body, hbody, hc⟩ := s.underscored.exists_cons
  refine ⟨c, body ++ s.after, by rw [hbody]; rfl, hc, ?_⟩
  intro d hd
  cases body with
  | nil => exact .inr (.inr (s.after_space d (List.mem_of_mem_head? hd)))
  | cons e body =>
    have hde : d ∈ s.body := by
      rw [hbody]
      exact List.mem_cons_of_mem c (by simpa using .inl (Option.some.inj hd).symm)
    exact (s.underscored.mem hde).imp_right .inl

theorem head?_number (s : Spelling base b) (hbase : base ≤ 10) :
    ∀ c ∈ s.number.head?, c ≠ 43 ∧ c ≠ 45 ∧ isPySpace c = false := by
  intro c hc
  obtain ⟨d, rest, hrest, hd, -⟩ := s.exists_body
  rw [number, hrest] at hc
  have hdigit : c = d ∨ c = 48 := by
    obtain hmark | ⟨-, hmark | hmark | hmark | hmark⟩ := marks_cases s.mark_mem <;>
      rw [hmark] at hc
    · exact .inl (Option.some.inj hc).symm
    all_goals exact .inr (Option.some.inj hc).symm
  rcases hdigit with rfl | rfl
  · exact ⟨ne_of_isDigit hbase hd (.inl (by decide)), ne_of_isDigit hbase hd (.inl (by decide)),
      isPySpace_of_isDigit hd⟩
  · decide

/-- After the white space the sign is read. -/
theorem readSign_dropWhile (s : Spelling base b) (hbase : base ≤ 10) :
    readSign (b.dropWhile isPySpace) = (if s.sign = [45] then -1 else 1, s.number) := by
  have hnumber := s.head?_number hbase
  have hstart : ∀ c ∈ (s.sign ++ s.number).head?, isPySpace c = false := by
    intro c hc
    have hsign := s.sign_mem
    simp only [List.mem_cons, List.not_mem_nil, or_false] at hsign
    rcases hsign with h | h | h <;> rw [h] at hc
    · exact (hnumber c hc).2.2
    · obtain rfl := Option.some.inj hc
      decide
    · obtain rfl := Option.some.inj hc
      decide
  have hdrop : b.dropWhile isPySpace = s.sign ++ s.number := by
    conv_lhs => rw [s.text]
    rw [List.dropWhile_append_of_pos s.before_space]
    cases hrest : s.sign ++ s.number with
    | nil =>
      rw [number] at hrest
      rw [hrest]
      rfl
    | cons c rest =>
      rw [number] at hrest
      rw [hrest, List.dropWhile_cons_of_neg]
      rw [hstart c (by rw [number, hrest]; rfl)]
      exact Bool.false_ne_true
  rw [hdrop, readSign_append s.sign_mem fun c hc => ⟨(hnumber c hc).1, (hnumber c hc).2.1⟩]

/-- After the sign the mark is skipped. -/
theorem skip_number (s : Spelling base b) :
    (if base = 8 then skipOctalMark s.number else s.number) = s.body ++ s.after := by
  obtain ⟨c, rest, hrest, hc, hnext⟩ := s.exists_body
  by_cases hbase : base = 8
  · subst hbase
    rw [if_pos rfl, number]
    refine skipOctalMark_append s.mark_mem ?_ ?_
    · rw [hrest]
      rintro d hd
      exact Option.some.inj hd ▸ hc
    · rw [hrest]
      intro d hd
      have := hnext d hd
      constructor
      · rintro rfl
        revert this
        decide
      · rintro rfl
        revert this
        decide
  · rw [if_neg hbase, number]
    have hmark := s.mark_mem
    rw [marks, if_neg hbase, List.mem_singleton] at hmark
    rw [hmark, List.nil_append]

/-- **A spelling is read as what it stands for**, unless it is a decimal one of too many
digits. -/
theorem pyInt_eq_some (s : Spelling base b) (hbase : base ≤ 10)
    (hshort : base = 10 → (digitsOf s.body).length ≤ maxStrDigits) :
    pyInt base b = some s.value := by
  obtain ⟨c, body, hbody, hc⟩ := s.underscored.exists_cons
  have hhead : (s.body ++ s.after).head? ≠ some 95 := by
    rw [hbody]
    intro h
    exact ne_of_isDigit hbase hc (.inr (by decide)) (Option.some.inj h)
  have hvalues : digitValues s.body ≠ [] := by
    rw [hbody, digitValues_cons hbase hc]
    exact List.cons_ne_nil _ _
  have hlimit : ¬(digitValues s.body = [] ∨
      base = 10 ∧ maxStrDigits < (digitValues s.body).length) := by
    rintro (h | ⟨hten, h⟩)
    · exact hvalues h
    · rw [digitValues, List.length_map] at h
      exact absurd h (not_lt.mpr (hshort hten))
  rw [pyInt_eq]
  dsimp only
  rw [s.readSign_dropWhile hbase, s.skip_number, if_neg hhead,
    readDigits_append hbase s.underscored (endsDigits_of_space s.after_space), Option.bind_some,
    List.nil_append, if_neg hlimit, if_pos (List.all_eq_true.mpr s.after_space),
    foldl_digitValues]
  rfl

end Spelling

/-- **What `int` reads is a spelling.** -/
theorem exists_spelling {b : Bytes} {v : ℤ} (hbase : base ≤ 10) (h : pyInt base b = some v) :
    ∃ s : Spelling base b, s.value = v ∧
      (base = 10 → (digitsOf s.body).length ≤ maxStrDigits) := by
  obtain ⟨sign, hsign, hsigned, hone⟩ := readSign_eq (b.dropWhile isPySpace)
  obtain ⟨number, hnumber⟩ : ∃ number, (if base = 8 then
      skipOctalMark (readSign (b.dropWhile isPySpace)).2
    else (readSign (b.dropWhile isPySpace)).2) = number := ⟨_, rfl⟩
  obtain ⟨mark, hmark, hmarked⟩ : ∃ mark ∈ marks base,
      (readSign (b.dropWhile isPySpace)).2 = mark ++ number := by
    by_cases hbase : base = 8
    · subst hbase
      rw [if_pos rfl] at hnumber
      exact hnumber ▸ skipOctalMark_eq _
    · rw [if_neg hbase] at hnumber
      rw [marks, if_neg hbase]
      exact ⟨[], List.mem_singleton_self _, hnumber⟩
  rw [pyInt_eq] at h
  dsimp only at h
  rw [hnumber] at h
  split_ifs at h with hhead
  obtain ⟨⟨digits, after⟩, hread, h⟩ := Option.bind_eq_some_iff.mp h
  dsimp only at h
  split_ifs at h with hlimit hafter
  obtain ⟨body, hbody, hdigits, hunderscored⟩ := readDigits_eq_some hbase hread
  rw [List.nil_append] at hdigits
  obtain ⟨hne, hshort⟩ := not_or.mp hlimit
  -- The body is not empty and starts with no underscore, so the grammar takes it whole.
  have hwhole : Underscored base body := by
    obtain hwhole | ⟨-, rfl | ⟨body', rfl, -⟩⟩ := hunderscored
    · exact hwhole
    · exact absurd hdigits hne
    · rw [hbody] at hhead
      exact absurd rfl hhead
  refine ⟨⟨b.takeWhile isPySpace, sign, mark, body, after, ?_, ?_, hsign, hmark, hwhole,
    List.all_eq_true.mp hafter⟩, ?_, ?_⟩
  · rw [← hbody, ← hmarked, ← hsigned, List.takeWhile_append_dropWhile]
  · exact fun c hc => List.mem_takeWhile_imp hc
  · rw [← Option.some.inj h, hone, hdigits, foldl_digitValues]
    rfl
  · intro hten
    have := not_lt.mp (fun hlt => hshort ⟨hten, hlt⟩)
    rwa [hdigits, digitValues, List.length_map] at this

/-! ### Plain and loose spellings -/

namespace IsDigits

variable {b : Bytes}

/-- Digits alone, as a spelling. -/
def spelling (h : IsDigits base b) (hne : b ≠ []) : Spelling base b where
  before := []
  sign := []
  mark := []
  body := b
  after := []
  text := (List.append_nil b).symm
  before_space := nofun
  sign_mem := List.mem_cons_self
  mark_mem := by
    rw [marks]
    split <;> exact List.mem_cons_self
  underscored := h.underscored hne
  after_space := nofun

end IsDigits

namespace Spelling

variable {b : Bytes}

/-- A spelling that is not loose is all digits. -/
theorem body_of_not_isLoose (s : Spelling base b) (h : ¬s.IsLoose) : s.body = b := by
  simp only [IsLoose, not_or, not_not] at h
  obtain ⟨hbefore, hsign, hmark, -, hafter⟩ := h
  conv_rhs => rw [s.text, hbefore, hsign, hmark, hafter]
  rw [List.nil_append, List.nil_append, List.nil_append, List.append_nil]

/-- A spelling is loose when the text is more than digits. -/
theorem isLoose_iff (hbase : base ≤ 10) (s : Spelling base b) : s.IsLoose ↔ ¬IsDigits base b := by
  constructor
  · intro hloose hdigits
    have hmem : ∀ c ∈ s.before ++ (s.sign ++ (s.mark ++ (s.body ++ s.after))), IsDigit base c :=
      fun c hc => hdigits c (s.text ▸ hc)
    simp only [List.mem_append] at hmem
    -- A blank before, a sign, a mark, an underscore, or a blank behind: none of them is a digit.
    rcases hloose with h | h | h | h | h
    · obtain ⟨c, hc⟩ := List.exists_mem_of_ne_nil _ h
      have := isPySpace_of_isDigit (hmem c (.inl hc))
      rw [s.before_space c hc] at this
      cases this
    · have hsign := s.sign_mem
      simp only [List.mem_cons, List.not_mem_nil, or_false] at hsign
      rcases hsign with hsign | hsign | hsign
      · exact h hsign
      · exact absurd (hmem 43 (.inr (.inl (by simp [hsign])))).toNat.1 (by decide)
      · exact absurd (hmem 45 (.inr (.inl (by simp [hsign])))).toNat.1 (by decide)
    · obtain hmark | ⟨-, hmark⟩ := marks_cases s.mark_mem
      · exact h hmark
      · obtain ⟨c, hc, hletter⟩ : ∃ c ∈ s.mark, c.toNat = 111 ∨ c.toNat = 79 := by
          rcases hmark with hmark | hmark | hmark | hmark <;> rw [hmark] <;> decide
        have := (hmem c (.inr (.inr (.inl hc)))).toNat_lt hbase
        omega
    · exact absurd rfl (ne_of_isDigit hbase (hmem 95 (.inr (.inr (.inr (.inl h)))))
        (.inr (by decide)))
    · obtain ⟨c, hc⟩ := List.exists_mem_of_ne_nil _ h
      have := isPySpace_of_isDigit (hmem c (.inr (.inr (.inr (.inr hc)))))
      rw [s.after_space c hc] at this
      cases this
  · intro hdigits
    by_contra hloose
    have hbody := s.body_of_not_isLoose hloose
    refine hdigits fun c hc => ?_
    rw [← hbody] at hc
    exact (s.underscored.mem hc).resolve_left fun h =>
      hloose (.inr (.inr (.inr (.inl (h ▸ hc)))))

/-- The only spelling of digits alone stands for them. -/
theorem value_of_isDigits (hbase : base ≤ 10) (s : Spelling base b) (h : IsDigits base b) :
    s.body = b ∧ s.value = digitsValue base b := by
  have hloose : ¬s.IsLoose := fun hloose => (s.isLoose_iff hbase).mp hloose h
  have hbody := s.body_of_not_isLoose hloose
  have hsign : s.sign ≠ [45] := by
    intro hsign
    refine hloose (.inr (.inl ?_))
    rw [hsign]
    exact List.cons_ne_nil 45 []
  refine ⟨hbody, ?_⟩
  rw [value, if_neg hsign, one_mul, hbody, digitsOf_eq_self hbase h]

end Spelling

end Palimpsest.Layer
