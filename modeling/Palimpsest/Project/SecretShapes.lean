import Palimpsest.Project.Environment

/-!
# References and the shapes of secrets

A reference to a variable is a template of its own shape (`pureInterpolationRe_iff`), and is valid
(`variablesFrom_requiring`). Whether it looks like a secret depends on the variable and on the
message (`isSecretValue_requiring`): no pattern matches from within the name of the variable on,
but the brace before the name and the colon behind it make an assignment of a name that is one of
the words for secrets.
-/

namespace Palimpsest.Project

open Json Regex

/-! ### References -/

/-- A template that refers to a variable. -/
def reference (name : Text) : Text := '$' :: '{' :: (name ++ ['}'])

/-- A template that requires a variable, with the message in case there is none. -/
def requiring (name message : Text) : Text :=
  '$' :: '{' :: (name ++ ':' :: '?' :: (message ++ ['}']))

theorem requiredReference_eq (key : Text) :
    requiredReference key = requiring key (key ++ " is required".toList) := by
  rw [requiredReference, requiring]
  simp only [List.append_assoc]
  rfl

/-- The names of variables and keys. -/
def IsKey (t : Text) : Prop := ∃ c u, t = c :: u ∧ isKeyStart c = true ∧ ∀ d ∈ u, isKeyChar d = true

variable {t name message : Text} {b : Option Char}

theorem isKeyChar_of_isKeyStart {c : Char} (h : isKeyStart c = true) : isKeyChar c = true := by
  rw [isKeyStart, Bool.or_eq_true] at h
  rw [isKeyChar, Char.isAlphanum, Bool.or_eq_true, Bool.or_eq_true]
  exact h.imp_left .inl

theorem IsKey.chars (h : IsKey t) : ∀ c ∈ t, isKeyChar c = true := by
  obtain ⟨c, u, rfl, hc, hu⟩ := h
  exact List.forall_mem_cons.mpr ⟨isKeyChar_of_isKeyStart hc, hu⟩

theorem IsKey.ne_nil (h : IsKey t) : t ≠ [] := by
  obtain ⟨c, u, rfl, -⟩ := h
  exact List.cons_ne_nil c u

/-- The first character of a key and the others. -/
theorem isKey_of_matches {u v : Text} {a : List Char} (hu : (chars isKeyStart).Matches b u a)
    (hv : ∀ c ∈ v, isKeyChar c = true) : IsKey (u ++ v) := by
  obtain ⟨c, rfl, hc⟩ := hu
  exact ⟨c, v, rfl, hc, hv⟩

theorem envKeyRe_iff : envKeyRe.fullMatch t = true ↔ IsKey t := by
  rw [fullMatch_iff]
  constructor
  · rintro ⟨u₀, v₀, rfl, ⟨rfl, -⟩, u₁, v₁, rfl, hstart, u₂, v₂, rfl, hchars, rfl, -⟩
    have hkey := isKey_of_matches hstart (matches_star_chars.mp hchars)
    simpa only [List.nil_append, List.append_nil] using hkey
  · rintro ⟨c, u, rfl, hc, hu⟩
    exact ⟨[], c :: u, rfl, ⟨rfl, rfl⟩, [c], u, rfl, ⟨c, rfl, hc⟩, u, [], (List.append_nil u).symm,
      matches_star_chars.mpr hu, rfl, rfl⟩

theorem interpolationRe_name (h : IsKey name) : interpolationRe.fullMatch name = true := by
  obtain ⟨c, u, rfl, hc, hu⟩ := h
  rw [fullMatch_iff]
  exact ⟨[], c :: u, rfl, ⟨rfl, rfl⟩, [c], u, rfl, ⟨c, rfl, hc⟩, u, [], (List.append_nil u).symm,
    matches_star_chars.mpr hu, [], [], rfl, .inr rfl, rfl, rfl⟩

theorem interpolationRe_required (h : IsKey name) (hm : ∀ c ∈ message, isOperandChar c = true) :
    interpolationRe.fullMatch (name ++ ':' :: '?' :: message) = true := by
  obtain ⟨c, u, rfl, hc, hu⟩ := h
  rw [fullMatch_iff]
  refine ⟨[], _, rfl, ⟨rfl, rfl⟩, [c], _, rfl, ⟨c, rfl, hc⟩, u, _, rfl, matches_star_chars.mpr hu,
    ':' :: '?' :: message, [], (List.append_nil _).symm, .inl ⟨[':', '?'], message, rfl, .inr ?_,
      matches_star_chars.mpr hm⟩, rfl, rfl⟩
  exact matches_word_eq.mpr rfl

theorem pureInterpolationRe_iff : pureInterpolationRe.fullMatch t = true ↔
    ∃ name, IsKey name ∧ (t = reference name ∨
      ∃ message, (∀ c ∈ message, isOperandChar c = true) ∧ t = requiring name message) := by
  rw [fullMatch_iff]
  constructor
  · rintro ⟨u₀, v₀, rfl, ⟨rfl, -⟩, u₁, v₁, rfl, hopen, u₂, v₂, rfl, hstart, u₃, v₃, rfl, hchars,
      u₄, v₄, rfl, hmessage, u₅, v₅, rfl, hclose, rfl, -⟩
    obtain rfl := matches_word_eq.mp hopen
    obtain rfl := matches_word_eq.mp hclose
    refine ⟨u₂ ++ u₃, isKey_of_matches hstart (matches_star_chars.mp hchars), ?_⟩
    rcases hmessage with ⟨u, message, rfl, hu, hm⟩ | hnone
    · obtain rfl := matches_word_eq.mp hu
      refine .inr ⟨message, matches_star_chars.mp hm, ?_⟩
      rw [requiring]
      simp only [List.append_assoc, List.nil_append, List.append_nil]
      rfl
    · obtain rfl : u₄ = [] := hnone
      refine .inl ?_
      rw [reference]
      simp only [List.append_assoc, List.nil_append, List.append_nil]
      rfl
  · rintro ⟨name, ⟨c, u, rfl, hc, hu⟩, rfl | ⟨message, hm, rfl⟩⟩
    · exact ⟨[], _, rfl, ⟨rfl, rfl⟩, ['$', '{'], _, rfl, matches_word_eq.mpr rfl, [c], _, rfl,
        ⟨c, rfl, hc⟩, u, ['}'], rfl, matches_star_chars.mpr hu, [], ['}'], rfl, .inr rfl, ['}'], [],
        rfl, matches_word_eq.mpr rfl, rfl, rfl⟩
    · exact ⟨[], _, rfl, ⟨rfl, rfl⟩, ['$', '{'], _, rfl, matches_word_eq.mpr rfl, [c], _, rfl,
        ⟨c, rfl, hc⟩, u, _, rfl, matches_star_chars.mpr hu, ':' :: '?' :: message, ['}'], rfl,
        .inl ⟨[':', '?'], message, rfl, matches_word_eq.mpr rfl, matches_star_chars.mpr hm⟩, ['}'],
        [], rfl, matches_word_eq.mpr rfl, rfl, rfl⟩

/-! ### Valid expressions -/

/-- An expression is read up to its brace. -/
theorem variablesFrom_some {context expression u rest : Text} (hu : ∀ c ∈ u, c ≠ '}') :
    variablesFrom context (some expression) (u ++ '}' :: rest) =
      variablesFrom context (some (expression ++ u)) ('}' :: rest) := by
  induction u generalizing expression with
  | nil => rw [List.nil_append, List.append_nil]
  | cons c u ih =>
    obtain ⟨hc, hu⟩ := List.forall_mem_cons.mp hu
    have hstep : variablesFrom context (some expression) (c :: (u ++ '}' :: rest)) =
        variablesFrom context (some (expression ++ [c])) (u ++ '}' :: rest) := by
      rw [variablesFrom]
      exact hc
    rw [List.cons_append, hstep, ih hu, List.append_assoc, List.singleton_append]

/-- A template that is one valid expression. -/
theorem variablesFrom_expression {context expression : Text} (hu : ∀ c ∈ expression, c ≠ '}')
    (h : interpolationRe.fullMatch expression = true) :
    variablesFrom context none ('$' :: '{' :: (expression ++ ['}'])) =
      .ok [expression.takeWhile isKeyChar] := by
  rw [variablesFrom, variablesFrom_some hu, List.nil_append, variablesFrom, h]
  rfl

theorem ne_brace_of_isKeyChar {c : Char} (h : isKeyChar c = true) : c ≠ '}' := by
  rintro rfl
  exact absurd h (by decide)

theorem variablesFrom_reference (context : Text) (h : IsKey name) :
    ∃ names, variablesFrom context none (reference name) = .ok names :=
  ⟨_, variablesFrom_expression (fun c hc => ne_brace_of_isKeyChar (h.chars c hc))
    (interpolationRe_name h)⟩

theorem variablesFrom_requiring (context : Text) (h : IsKey name)
    (hm : ∀ c ∈ message, isOperandChar c = true) :
    ∃ names, variablesFrom context none (requiring name message) = .ok names := by
  have hexpression : requiring name message =
      '$' :: '{' :: ((name ++ ':' :: '?' :: message) ++ ['}']) := by
    rw [requiring, List.append_assoc]
    rfl
  rw [hexpression]
  refine ⟨_, variablesFrom_expression (fun c hc => ?_) (interpolationRe_required h hm)⟩
  rcases List.mem_append.mp hc with hc | hc
  · exact ne_brace_of_isKeyChar (h.chars c hc)
  · rcases List.mem_cons.mp hc with rfl | hc
    · decide
    · rcases List.mem_cons.mp hc with rfl | hc
      · decide
      · rintro rfl
        exact absurd (hm '}' hc) (by decide)

/-! ### Characters of secrets -/

/-- A letter or a digit in either case, or an underscore. -/
def isFoldedChar (c : Char) : Bool := (folded c).isAlphanum || c = '_'

theorem toNat_lt_of_isKeyChar {c : Char} (h : isKeyChar c = true) : c.toNat < 128 := by
  rw [isKeyChar, Bool.or_eq_true, decide_eq_true_eq] at h
  rcases h with h | rfl
  · unfold Char.isAlphanum Char.isAlpha Char.isUpper Char.isLower at h
    simp only [Char.isDigit, Bool.or_eq_true, Bool.and_eq_true, decide_eq_true_eq,
      UInt32.le_iff_toNat_le] at h
    change c.val.toNat < 128
    have h65 : 'A'.val.toNat = 65 := rfl
    have h90 : 'Z'.val.toNat = 90 := rfl
    have h97 : 'a'.val.toNat = 97 := rfl
    have h122 : 'z'.val.toNat = 122 := rfl
    have h48 : '0'.val.toNat = 48 := rfl
    have h57 : '9'.val.toNat = 57 := rfl
    omega
  · decide

theorem isFoldedChar_ascii : ∀ n < 128, isKeyChar (Char.ofNat n) = true →
    isFoldedChar (Char.ofNat n) = true := by decide

theorem isFoldedChar_of_isKeyChar {c : Char} (h : isKeyChar c = true) : isFoldedChar c = true := by
  have hc := isFoldedChar_ascii c.toNat (toNat_lt_of_isKeyChar h)
  rw [Char.ofNat_toNat] at hc
  exact hc h

theorem not_isFoldedChar_of_isSpace {c : Char} (h : isSpace c = true) : isFoldedChar c = false := by
  have hall : ∀ n ∈ [9, 10, 11, 12, 13, 28, 29, 30, 31, 32, 0x85, 0xa0, 0x1680, 0x2000, 0x2001,
      0x2002, 0x2003, 0x2004, 0x2005, 0x2006, 0x2007, 0x2008, 0x2009, 0x200a, 0x2028, 0x2029,
      0x202f, 0x205f, 0x3000], isFoldedChar (Char.ofNat n) = false := by decide
  have hc := hall c.toNat (of_decide_eq_true h)
  rwa [Char.ofNat_toNat] at hc

theorem isSpace_of_isKeyChar {c : Char} (h : isKeyChar c = true) : isSpace c = false := by
  by_contra hspace
  have hfolded := isFoldedChar_of_isKeyChar h
  rw [not_isFoldedChar_of_isSpace (Bool.not_eq_false _ ▸ hspace)] at hfolded
  cases hfolded

/-- A word in either case has letters and digits only. -/
theorem isFoldedChar_of_ignoringCase {s : String} {c : Char}
    (hs : s.toList.all (fun d => (folded d).isAlphanum) = true)
    (h : (ignoringCase s).mayConsume c = true) : isFoldedChar c = true := by
  rw [ignoringCase, mayConsume_word, List.any_eq_true] at h
  obtain ⟨d, hd, hsame⟩ := h
  rw [isFoldedChar, of_decide_eq_true hsame, List.all_eq_true.mp hs d hd, Bool.true_or]

theorem isFoldedChar_of_secretWord {c : Char} (h : secretWord.mayConsume c = true) :
    isFoldedChar c = true ∨ c = '-' := by
  have hsep : (opt (charOf "_-")).mayConsume c = true → isFoldedChar c = true ∨ c = '-' := by
    intro h
    change (decide (c ∈ ['_', '-']) || false) = true at h
    rw [Bool.or_false, decide_eq_true_eq, List.mem_cons, List.mem_singleton] at h
    refine h.imp_left ?_
    rintro rfl
    decide
  simp only [secretWord, oneOf, mayConsume, Bool.or_eq_true] at h
  rcases h with h | h | h | h | (h | h | h) | (h | h | h) | h
  · exact .inl (isFoldedChar_of_ignoringCase (by decide) h)
  · exact .inl (isFoldedChar_of_ignoringCase (by decide) h)
  · exact .inl (isFoldedChar_of_ignoringCase (by decide) h)
  · exact .inl (isFoldedChar_of_ignoringCase (by decide) h)
  · exact .inl (isFoldedChar_of_ignoringCase (by decide) h)
  · exact hsep h
  · exact .inl (isFoldedChar_of_ignoringCase (by decide) h)
  · exact .inl (isFoldedChar_of_ignoringCase (by decide) h)
  · exact hsep h
  · exact .inl (isFoldedChar_of_ignoringCase (by decide) h)
  · exact .inl (isFoldedChar_of_ignoringCase (by decide) h)

theorem secretWord_isPlain : secretWord.isPlain = true := by decide

/-! ### No secret in a name -/

section

variable {alnum : Char → Bool}

theorem mayBeEmpty_eq_false : ∀ r ∈ secretValuePatterns alnum, r.mayBeEmpty = false := by
  rintro r (_ | ⟨_, _ | ⟨_, _ | ⟨_, _ | ⟨_, _ | ⟨_, hr⟩⟩⟩⟩⟩)
  · rfl
  · rfl
  · rfl
  · rfl
  · rfl
  · cases hr

/-- No pattern starts with these characters. -/
theorem mayStart_eq_false {c : Char} (hc : c ∈ ['$', '?', ':', '}']) :
    ∀ r ∈ secretValuePatterns alnum, r.mayStart c = false := by
  have hall : (['$', '?', ':', '}'].all fun c => decide (privateKeyRe.mayStart c = false ∧
      (bearerRe fun _ => false).mayStart c = false ∧
      (accessTokenRe fun _ => false).mayStart c = false ∧
      urlRe.mayStart c = false ∧ assignmentRe.mayStart c = false)) = true := by decide
  obtain ⟨h₁, h₂, h₃, h₄, h₅⟩ := of_decide_eq_true (List.all_eq_true.mp hall c hc)
  rintro r (_ | ⟨_, _ | ⟨_, _ | ⟨_, _ | ⟨_, _ | ⟨_, hr⟩⟩⟩⟩⟩)
  · exact h₁
  · exact h₂
  · exact h₃
  · exact h₄
  · exact h₅
  · cases hr

/-- What may come behind the name of a variable. -/
def IsTail (tail : Text) : Prop := tail = ['}'] ∨ ∃ rest, tail = ':' :: '?' :: rest

/-- A name is cut off by what comes behind it. -/
theorem IsTail.cut {p : Char → Bool} {tail u r : Text} {d : Char} (htail : IsTail tail)
    (hp : p ':' = false ∧ p '}' = false) (hname : ∀ c ∈ name, p c = true)
    (hu : ∀ c ∈ u, p c = true) (hd : p d = false) (h : name ++ tail = u ++ d :: r) :
    u = name ∧ tail = d :: r := by
  rcases htail with rfl | ⟨tail, rfl⟩
  · obtain ⟨rfl, rfl, rfl⟩ := cut_inj hname hu hp.2 hd h
    exact ⟨rfl, rfl⟩
  · obtain ⟨rfl, rfl, rfl⟩ := cut_inj hname hu hp.1 hd h
    exact ⟨rfl, rfl⟩

theorem IsTail.head {tail rest : Text} {d : Char} (htail : IsTail tail) (h : tail = d :: rest) :
    d = '}' ∧ rest = [] ∨ d = ':' ∧ ∃ more, rest = '?' :: more := by
  rcases htail with rfl | ⟨tail, rfl⟩
  · obtain ⟨rfl, rfl⟩ := List.cons.inj h
    exact .inl ⟨rfl, rfl⟩
  · obtain ⟨rfl, rfl⟩ := List.cons.inj h
    exact .inr ⟨rfl, tail, rfl⟩

variable {tail w a : Text} (htail : IsTail tail) (hname : ∀ c ∈ name, isKeyChar c = true)

include htail hname

/-- `Bearer` needs a space behind it. -/
theorem not_bearerRe (h : name ++ tail = w ++ a) : ¬(bearerRe alnum).Matches b w a := by
  rintro ⟨u₀, v₀, rfl, ⟨rfl, -⟩, u, v₁, rfl, hword, s, v₂, rfl, ⟨s₁, s₂, rfl, ⟨d, rfl, hd⟩, -⟩, -⟩
  have hcut := htail.cut (p := isFoldedChar) (u := u) (d := d) (r := s₂ ++ (v₂ ++ a)) (by decide)
    (fun c hc => isFoldedChar_of_isKeyChar (hname c hc))
    (fun c hc => isFoldedChar_of_ignoringCase (by decide) (hword.mayConsume hc))
    (not_isFoldedChar_of_isSpace hd)
    (by rw [h]; simp only [List.nil_append, List.append_assoc]; rfl)
  rcases htail.head hcut.2 with ⟨rfl, -⟩ | ⟨rfl, -⟩
  · exact absurd hd (by decide)
  · exact absurd hd (by decide)

/-- The prefix of a token needs a dash behind it. -/
theorem not_accessTokenRe (h : name ++ tail = w ++ a) : ¬(accessTokenRe alnum).Matches b w a := by
  rintro ⟨u₀, v₀, rfl, ⟨rfl, -⟩, u, v₁, rfl, hword, s, v₂, rfl, hdash, -⟩
  obtain rfl := matches_word_eq.mp hdash
  have hchars : ∀ c ∈ u, isFoldedChar c = true := by
    intro c hc
    have hword := hword.mayConsume hc
    simp only [oneOf, mayConsume, exactly, charOf, mayConsume_word, Bool.or_eq_true,
      List.any_eq_true, decide_eq_true_eq] at hword
    rcases hword with ⟨d, hd, rfl⟩ | ⟨d, hd, rfl⟩ | ⟨d, hd, rfl⟩ | ⟨d, hd, rfl⟩ | hd
    · exact List.all_eq_true.mp (by decide : "ghp".toList.all isFoldedChar = true) d hd
    · exact List.all_eq_true.mp (by decide : "github_pat".toList.all isFoldedChar = true) d hd
    · exact List.all_eq_true.mp (by decide : "glpat".toList.all isFoldedChar = true) d hd
    · exact List.all_eq_true.mp (by decide : "xox".toList.all isFoldedChar = true) d hd
    · exact List.all_eq_true.mp (by decide : "baprs".toList.all isFoldedChar = true) c hd
  have hcut := htail.cut (p := isFoldedChar) (u := u) (d := '-') (r := v₂ ++ a) (by decide)
    (fun c hc => isFoldedChar_of_isKeyChar (hname c hc)) hchars (by decide)
    (by rw [h]; simp only [List.nil_append, List.append_assoc]; rfl)
  rcases htail.head hcut.2 with ⟨hd, -⟩ | ⟨hd, -⟩
  · cases hd
  · cases hd

/-- A scheme needs `://` behind it. -/
theorem not_urlRe (h : name ++ tail = w ++ a) : ¬urlRe.Matches b w a := by
  rintro ⟨u₀, v₀, rfl, ⟨d, rfl, hd⟩, u, v₁, rfl, hscheme, s, v₂, rfl, hsep, -⟩
  obtain rfl := matches_word_eq.mp hsep
  have hcut := htail.cut (p := fun c => isFoldedChar c || c ∈ "+.-".toList) (u := d :: u) (d := ':')
    (r := '/' :: '/' :: (v₂ ++ a)) (by decide)
    (fun c hc => by rw [isFoldedChar_of_isKeyChar (hname c hc), Bool.true_or])
    (fun c hc => by
      rcases List.mem_cons.mp hc with rfl | hc
      · have halpha : (folded c).isAlpha = true := hd
        rw [isFoldedChar, Char.isAlphanum, halpha, Bool.true_or, Bool.true_or, Bool.true_or]
      · have hscheme := hscheme.mayConsume hc
        change isSchemeChar c = true at hscheme
        rw [isSchemeChar, Bool.or_eq_true] at hscheme
        rw [isFoldedChar, Bool.or_assoc, Bool.or_eq_true, Bool.or_eq_true]
        exact hscheme.imp_right .inr) (by decide)
    (by rw [h]; simp only [List.append_assoc]; rfl)
  rcases htail.head hcut.2 with ⟨hd, -⟩ | ⟨-, more, hmore⟩
  · cases hd
  · cases hmore

omit htail in
/-- A word is behind the start of a line, a space or some signs, which no name has. -/
theorem not_assignmentRe {c d : Char} {y : Text} (hy : name = c :: y) (hb : b = some d)
    (hd : d ≠ '\n') (h : name ++ tail = w ++ a) : ¬assignmentRe.Matches b w a := by
  rintro ⟨u, v, rfl, hstart, -⟩
  rcases hstart with ⟨-, hline⟩ | ⟨e, rfl, he⟩
  · rw [hb] at hline
    exact hd (of_decide_eq_true hline)
  · rw [hy] at h
    obtain ⟨rfl, -⟩ := List.cons.inj h
    have hkey := isFoldedChar_of_isKeyChar (hname c (hy ▸ List.mem_cons_self))
    rw [Bool.or_eq_true, decide_eq_true_eq] at he
    rcases he with he | he
    · rw [not_isFoldedChar_of_isSpace he] at hkey
      cases hkey
    · have hall : (",\x7b;".toList.all fun c => !isFoldedChar c) = true := by decide
      rw [(Bool.not_eq_true' _).mp (List.all_eq_true.mp hall c he)] at hkey
      cases hkey

/-- **No pattern matches from within a name on.** -/
theorem not_matches_name {r : Regex} (hr : r ∈ secretValuePatterns alnum) {c d : Char} {y : Text}
    (hy : name = c :: y) (hb : b = some d) (hd : d ≠ '\n') (h : name ++ tail = w ++ a) :
    ¬r.Matches b w a := by
  rcases hr with _ | ⟨_, _ | ⟨_, _ | ⟨_, _ | ⟨_, _ | ⟨_, hr⟩⟩⟩⟩⟩
  · rintro ⟨u, v, rfl, hu, -⟩
    obtain rfl := matches_word_eq.mp hu
    have hdashes : "-----BEGIN ".toList = '-' :: "----BEGIN ".toList := by decide
    rw [hy, hdashes] at h
    have hkey := hname c (hy ▸ List.mem_cons_self)
    rw [(List.cons.inj h).1] at hkey
    exact absurd hkey (by decide)
  · exact not_bearerRe htail hname h
  · exact not_accessTokenRe htail hname h
  · exact not_urlRe htail hname h
  · exact not_assignmentRe hname hy hb hd h
  · cases hr

/-- An assignment from the brace before a name on is one to the name. -/
theorem assignmentRe_brace (h : '{' :: (name ++ tail) = w ++ a) :
    assignmentRe.Matches (some '$') w a → secretWord.fullMatch name = true ∧
      ∃ rest, tail = ':' :: '?' :: rest := by
  rintro ⟨u, v, rfl, hstart, u₁, v₁, rfl, hword, s, v₂, rfl, hspaces, u₂, v₃, rfl, ⟨e, rfl, he⟩, -⟩
  rcases hstart with ⟨-, hline⟩ | ⟨e', rfl, -⟩
  · have hnewline : ('$' : Char) = '\n' := of_decide_eq_true hline
    cases hnewline
  have h : name ++ tail = u₁ ++ (s ++ ([e] ++ v₃)) ++ a := (List.cons.inj h).2
  -- Behind the word comes a space, a colon or an equals sign.
  have hp : (∀ c ∈ u₁, (isFoldedChar c || c = '-') = true) := fun c hc => by
    rw [Bool.or_eq_true, decide_eq_true_eq]
    exact isFoldedChar_of_secretWord (hword.mayConsume hc)
  have hn : (∀ c ∈ name, (isFoldedChar c || c = '-') = true) := fun c hc => by
    rw [isFoldedChar_of_isKeyChar (hname c hc), Bool.true_or]
  cases s with
  | nil =>
    have hsign : (isFoldedChar e || e = '-') = false :=
      (Bool.not_eq_true' _).mp (List.all_eq_true.mp
        (by decide : (":=".toList.all fun e => !(isFoldedChar e || e = '-')) = true) e
        (of_decide_eq_true he))
    have hcut := htail.cut (p := fun c => isFoldedChar c || c = '-') (u := u₁) (d := e)
      (r := v₃ ++ a) (by decide) hn hp hsign
      (by rw [h]; simp only [List.append_assoc]; rfl)
    obtain ⟨rfl, htail'⟩ := hcut
    refine ⟨fullMatch_iff.mpr (hword.plain secretWord_isPlain _ _), ?_⟩
    rcases htail.head htail' with ⟨rfl, -⟩ | ⟨rfl, more, hmore⟩
    · exact absurd he (by decide)
    · exact ⟨more, htail'.trans (congrArg (':' :: ·) hmore)⟩
  | cons d s =>
    have hspace : isSpace d = true := matches_star_chars.mp hspaces d List.mem_cons_self
    have hdash : d ≠ '-' := by
      rintro rfl
      exact absurd hspace (by decide)
    have hcut := htail.cut (p := fun c => isFoldedChar c || c = '-') (u := u₁) (d := d)
      (r := s ++ (e :: v₃ ++ a)) (by decide) hn hp
      (by rw [not_isFoldedChar_of_isSpace hspace, decide_eq_false hdash, Bool.or_false])
      (by rw [h]; simp only [List.append_assoc]; rfl)
    rcases htail.head hcut.2 with ⟨rfl, -⟩ | ⟨rfl, -⟩
    · exact absurd hspace (by decide)
    · exact absurd hspace (by decide)

omit htail hname

/-- A word for secrets between a brace and a colon is assigned to. -/
theorem assignmentRe_word (h : secretWord.fullMatch name = true) (rest : Text) :
    assignmentRe.Matches (some '$') ('{' :: (name ++ [':'])) ('?' :: rest) := by
  refine ⟨['{'], name ++ [':'], rfl, .inr ⟨'{', rfl, by decide⟩, name, [':'], rfl,
    (fullMatch_iff.mp h).plain secretWord_isPlain _ _, [], [':'], rfl, matches_star_chars.mpr nofun,
    [':'], [], rfl, ⟨':', rfl, by decide⟩, [], [], rfl, matches_star_chars.mpr nofun, [], [], rfl,
    ⟨rfl, ?_⟩, rfl, ['?'], rest, rfl, '?', rfl, by decide⟩
  rintro ⟨u, v, huv, hu⟩
  obtain rfl := matches_word_eq.mp hu
  cases huv

/-- Only assignments start with a brace. -/
theorem eq_assignmentRe_of_brace {r : Regex} (hr : r ∈ secretValuePatterns alnum) {t : Text}
    (h : '{' :: t = w ++ a) (hmatches : r.Matches b w a) : r = assignmentRe := by
  have hstart : r.mayStart '{' = true := by
    cases w with
    | nil =>
      have hempty := hmatches.mayBeEmpty
      rw [mayBeEmpty_eq_false r hr] at hempty
      cases hempty
    | cons c w =>
      obtain ⟨rfl, -⟩ := List.cons.inj h
      exact hmatches.mayStart
  have hnot : privateKeyRe.mayStart '{' = false ∧ (bearerRe fun _ => false).mayStart '{' = false ∧
      (accessTokenRe fun _ => false).mayStart '{' = false ∧ urlRe.mayStart '{' = false := by decide
  rcases hr with _ | ⟨_, _ | ⟨_, _ | ⟨_, _ | ⟨_, _ | ⟨_, hr⟩⟩⟩⟩⟩
  · exact absurd (hnot.1.symm.trans hstart) Bool.false_ne_true
  · exact absurd (hnot.2.1.symm.trans hstart) Bool.false_ne_true
  · exact absurd (hnot.2.2.1.symm.trans hstart) Bool.false_ne_true
  · exact absurd (hnot.2.2.2.symm.trans hstart) Bool.false_ne_true
  · rfl
  · cases hr

/-- A pattern matches a reference from its brace on, or behind its name. -/
theorem search_name {r : Regex} (hr : r ∈ secretValuePatterns alnum) (htail : IsTail tail)
    (hname : ∀ c ∈ name, isKeyChar c = true) :
    r.search ('$' :: '{' :: (name ++ tail)) = true ↔
      (∃ w a, '{' :: (name ++ tail) = w ++ a ∧ r.Matches (some '$') w a) ∨
        r.searchFrom (lastOr (some '{') name) tail = true := by
  rw [search, searchFrom_cons (mayBeEmpty_eq_false r hr) (mayStart_eq_false (by decide) r hr),
    searchFrom, Bool.or_eq_true, decide_eq_true_eq, ends_ne_nil, searchFrom_append]
  refine or_congr_right (or_iff_right ?_)
  rintro ⟨x, c, y, w, a, rfl, heq, hmatches⟩
  -- What is before the place is no line break.
  have hbefore : ∃ d, lastOr (some '{') x = some d ∧ d ≠ '\n' := by
    rw [lastOr]
    cases hlast : x.getLast? with
    | none => exact ⟨'{', rfl, by decide⟩
    | some d =>
      refine ⟨d, rfl, ?_⟩
      rintro rfl
      have hmem := List.mem_append_left (c :: y) (List.mem_of_getLast? hlast)
      exact absurd (hname _ hmem) (by decide)
  obtain ⟨d, hd, hne⟩ := hbefore
  exact not_matches_name htail (fun e he => hname e (List.mem_append_right _ he)) hr rfl hd hne heq
    hmatches

/-- **A reference with a message looks like a secret** if and only if its variable is a word for
secrets, or its message and what is around it does. -/
theorem isSecretValue_requiring (hname : ∀ c ∈ name, isKeyChar c = true) :
    isSecretValue alnum (requiring name message) = true ↔
      secretWord.fullMatch name = true ∨
        isSecretValue alnum ('?' :: (message ++ ['}'])) = true := by
  have htail : IsTail (':' :: '?' :: (message ++ ['}'])) := .inr ⟨_, rfl⟩
  have hmessage : ∀ r ∈ secretValuePatterns alnum, ∀ b,
      r.searchFrom b (':' :: '?' :: (message ++ ['}'])) = r.search ('?' :: (message ++ ['}'])) := by
    intro r hr b
    have hempty := mayBeEmpty_eq_false r hr
    rw [search, searchFrom_cons hempty (mayStart_eq_false (by decide) r hr),
      searchFrom_cons hempty (mayStart_eq_false (by decide) r hr),
      searchFrom_cons hempty (mayStart_eq_false (by decide) r hr)]
  rw [isSecretValue, isSecretValue, List.any_eq_true, List.any_eq_true]
  constructor
  · rintro ⟨r, hr, hsearch⟩
    rcases (search_name hr htail hname).mp hsearch with ⟨w, a, heq, hmatches⟩ | hbehind
    · obtain rfl := eq_assignmentRe_of_brace hr heq hmatches
      exact .inl (assignmentRe_brace htail hname heq hmatches).1
    · exact .inr ⟨r, hr, hmessage r hr _ ▸ hbehind⟩
  · rintro (hword | ⟨r, hr, hsearch⟩)
    · have hr : assignmentRe ∈ secretValuePatterns alnum :=
        List.mem_of_getLast? (l := secretValuePatterns alnum) rfl
      refine ⟨assignmentRe, hr, (search_name hr htail hname).mpr (.inl ⟨_, _, ?_,
        assignmentRe_word hword (message ++ ['}'])⟩)⟩
      rw [List.cons_append, List.append_assoc, List.singleton_append]
    · exact ⟨r, hr, (search_name hr htail hname).mpr (.inr ((hmessage r hr _).trans hsearch))⟩

/-- A reference without a message does not look like a secret. -/
theorem isSecretValue_reference (hname : ∀ c ∈ name, isKeyChar c = true) :
    isSecretValue alnum (reference name) = false := by
  rw [isSecretValue, List.any_eq_false]
  intro r hr hsearch
  rcases (search_name hr (.inl rfl) hname).mp hsearch with ⟨w, a, heq, hmatches⟩ | hbehind
  · obtain rfl := eq_assignmentRe_of_brace hr heq hmatches
    obtain ⟨-, rest, hrest⟩ := assignmentRe_brace (.inl rfl) hname heq hmatches
    cases hrest
  · have hempty := mayBeEmpty_eq_false r hr
    rw [searchFrom_cons hempty (mayStart_eq_false (by decide) r hr), searchFrom_nil hempty]
      at hbehind
    cases hbehind

end

/-! ### The message of a required key -/

section

variable {alnum : Char → Bool} {key : Text} (hkey : ∀ c ∈ key, isKeyChar c = true)

include hkey

theorem mem_required {c : Char} (hc : c ∈ '?' :: (key ++ " is required".toList ++ ['}'])) :
    c ≠ '-' ∧ c ≠ ':' ∧ c ≠ '=' := by
  have hall : (('?' :: (" is required".toList ++ ['}'])).all
      fun c => decide (c ≠ '-' ∧ c ≠ ':' ∧ c ≠ '=')) = true := by decide
  replace hall := fun c hc => of_decide_eq_true (List.all_eq_true.mp hall c hc)
  rw [List.append_assoc, List.mem_cons, List.mem_append] at hc
  rcases hc with rfl | hc | hc
  · exact hall _ List.mem_cons_self
  · refine ⟨?_, ?_, ?_⟩
    all_goals
      rintro rfl
      exact absurd (hkey _ hc) (by decide)
  · exact hall c (List.mem_cons_of_mem _ hc)

/-- The last space has few characters behind it. -/
theorem not_bearerRe_required {x w a : Text}
    (h : '?' :: (key ++ " is required".toList ++ ['}']) = x ++ (w ++ a)) :
    ¬(bearerRe alnum).Matches b w a := by
  rintro ⟨u₀, v₀, rfl, ⟨rfl, -⟩, u, v₁, rfl, -, s, v₂, rfl, ⟨s₁, s₂, rfl, ⟨d, rfl, hd⟩, -⟩,
    v₃, v₄, rfl, htimes, -⟩
  obtain ⟨hlength, hbearer⟩ := matches_times_chars.mp htimes
  have hcut : '?' :: key ++ ' ' :: "is required\x7d".toList =
      (x ++ u) ++ d :: (s₂ ++ (v₃ ++ v₄) ++ a) := by
    have hspace : " is required".toList ++ ['}'] = ' ' :: "is required\x7d".toList := by decide
    rw [List.cons_append, ← hspace, ← List.append_assoc, h]
    simp only [List.append_assoc, List.nil_append]
    rfl
  have hkeySpace : ∀ c ∈ '?' :: key, isSpace c = false := by
    intro c hc
    rcases List.mem_cons.mp hc with rfl | hc
    · decide
    · exact isSpace_of_isKeyChar (hkey c hc)
  -- What is behind the space is the end of the message.
  obtain ⟨z, hz⟩ : ∃ z, "is required\x7d".toList = z ++ (s₂ ++ (v₃ ++ v₄) ++ a) := by
    rcases List.append_eq_append_iff.mp hcut with ⟨z, -, hz⟩ | ⟨z, hz, hrest⟩
    · cases z with
      | nil => exact ⟨[], (List.cons.inj hz).2⟩
      | cons c z => exact ⟨z ++ [d], (List.cons.inj hz).2.trans (List.append_cons z d _)⟩
    · cases z with
      | nil => exact ⟨[], (List.cons.inj hrest).2.symm⟩
      | cons c z =>
        obtain ⟨rfl, -⟩ := List.cons.inj hrest
        rw [hkeySpace d (hz ▸ List.mem_append_right _ List.mem_cons_self)] at hd
        cases hd
  have hshort : ("is required\x7d".toList).length = 12 := by decide
  have htotal := congrArg List.length hz
  rw [hshort] at htotal
  simp only [List.length_append] at htotal
  obtain rfl : z = [] := List.length_eq_zero_iff.mp (by omega)
  obtain rfl : s₂ = [] := List.length_eq_zero_iff.mp (by omega)
  obtain rfl : v₄ = [] := List.length_eq_zero_iff.mp (by omega)
  obtain rfl : a = [] := List.length_eq_zero_iff.mp (by omega)
  have hbrace : '}' ∈ v₃ := by
    have hmem : '}' ∈ "is required\x7d".toList := by decide
    rw [hz] at hmem
    simpa only [List.nil_append, List.append_nil] using hmem
  exact absurd (hbearer '}' hbrace) (by decide)

/-- The message of a required key does not look like a secret. -/
theorem isSecretValue_required :
    isSecretValue alnum ('?' :: (key ++ " is required".toList ++ ['}'])) = false := by
  rw [isSecretValue, List.any_eq_false]
  intro r hr hsearch
  obtain ⟨x, w, a, heq, hmatches⟩ := searchFrom_iff.mp hsearch
  have hmem : ∀ c ∈ w, c ≠ '-' ∧ c ≠ ':' ∧ c ≠ '=' := fun c hc =>
    mem_required hkey (heq ▸ List.mem_append_right _ (List.mem_append_left _ hc))
  -- By the expression that would match: each needs a dash, a colon, an equals sign or a token.
  rcases hr with _ | ⟨_, _ | ⟨_, _ | ⟨_, _ | ⟨_, _ | ⟨_, hr⟩⟩⟩⟩⟩
  · obtain ⟨u, v, rfl, hu, -⟩ := hmatches
    obtain rfl := matches_word_eq.mp hu
    exact (hmem '-' (List.mem_append_left _ (by decide))).1 rfl
  · exact not_bearerRe_required hkey heq hmatches
  · obtain ⟨u₀, v₀, rfl, -, u, v₁, rfl, -, s, v₂, rfl, hdash, -⟩ := hmatches
    obtain rfl := matches_word_eq.mp hdash
    refine (hmem '-' ?_).1 rfl
    simp only [List.mem_append]
    exact .inr (.inr (.inl (by decide)))
  · obtain ⟨u₀, v₀, rfl, -, u, v₁, rfl, -, s, v₂, rfl, hsep, -⟩ := hmatches
    obtain rfl := matches_word_eq.mp hsep
    refine (hmem ':' ?_).2.1 rfl
    simp only [List.mem_append]
    exact .inr (.inr (.inl (by decide)))
  · obtain ⟨u₀, v₀, rfl, -, u, v₁, rfl, -, s, v₂, rfl, -, u₂, v₃, rfl, ⟨e, rfl, he⟩, -⟩ := hmatches
    have hsign : e = ':' ∨ e = '=' := by
      have he : e ∈ [':', '='] := of_decide_eq_true he
      simpa only [List.mem_cons, List.not_mem_nil, or_false] using he
    have hne := hmem e (by
      simp only [List.mem_append]
      exact .inr (.inr (.inr (.inl (List.mem_singleton_self e)))))
    exact hsign.elim hne.2.1 hne.2.2
  · cases hr

end

end Palimpsest.Project
