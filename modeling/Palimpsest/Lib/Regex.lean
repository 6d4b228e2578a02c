import Mathlib.Data.List.Forall2

/-!
# Regular expressions

Expressions with assertions and lookaheads, and the ways in which they match the beginning of a
text (`Regex.ends`), which depend on the character before it and on the text behind the match as
well. `Regex.Matches` says the same about one such way (`Regex.mem_ends`).

Which of several ways a matcher finds first does not matter for whether there is one
(`Regex.search`, `Regex.fullMatch`).

Most texts are not matched for reasons that show at the first character (`Regex.mayStart`) or in
the characters that a match is made of (`Regex.mayConsume`).
-/

inductive Regex
  | empty
  /-- One character. -/
  | chars (p : Char → Bool)
  | seq (r s : Regex)
  | alt (r s : Regex)
  | star (r : Regex)
  /-- The character before and the text behind are so. -/
  | assert (p : Option Char → List Char → Bool)
  | ahead (r : Regex)
  | notAhead (r : Regex)

namespace Regex

/-- The character before what comes after a text. -/
def lastOr (b : Option Char) (w : List Char) : Option Char := w.getLast?.or b

/-- The ways to match a part of the text again and again, at most so often. -/
def repeatEnds (f : Option Char → List Char → List (List Char × List Char)) :
    ℕ → Option Char → List Char → List (List Char × List Char)
  | 0, _, t => [([], t)]
  | n + 1, b, t => ([], t) :: (f b t).flatMap fun p =>
      if p.1 = [] then []
      else (repeatEnds f n (lastOr b p.1) p.2).map fun q => (p.1 ++ q.1, q.2)

/-- The ways to match the beginning of a text after this character: what is matched, and what is
behind it. -/
def ends : Regex → Option Char → List Char → List (List Char × List Char)
  | empty, _, t => [([], t)]
  | chars p, _, c :: t => if p c then [([c], t)] else []
  | chars _, _, [] => []
  | seq r s, b, t => (r.ends b t).flatMap fun p =>
      (s.ends (lastOr b p.1) p.2).map fun q => (p.1 ++ q.1, q.2)
  | alt r s, b, t => r.ends b t ++ s.ends b t
  | star r, b, t => repeatEnds r.ends t.length b t
  | assert p, b, t => if p b t then [([], t)] else []
  | ahead r, b, t => if r.ends b t = [] then [] else [([], t)]
  | notAhead r, b, t => if r.ends b t = [] then [([], t)] else []

/-- Whether some place of a text, which stands after this character, is matched. -/
def searchFrom (r : Regex) : Option Char → List Char → Bool
  | b, [] => r.ends b [] ≠ []
  | b, c :: t => r.ends b (c :: t) ≠ [] || searchFrom r (some c) t

/-- Whether some place of a text is matched. -/
def search (r : Regex) (t : List Char) : Bool := r.searchFrom none t

/-- Whether a text as a whole is matched. -/
def fullMatch (r : Regex) (t : List Char) : Bool := (r.ends none t).any fun p => p.2 = []

/-! ### Derived expressions -/

/-- The characters of a text one by one. -/
def word (same : Char → Char → Bool) : List Char → Regex
  | [] => empty
  | c :: t => seq (chars (same c)) (word same t)

def opt (r : Regex) : Regex := alt r empty

def many1 (r : Regex) : Regex := seq r (star r)

/-- So many times. -/
def times : ℕ → Regex → Regex
  | 0, _ => empty
  | n + 1, r => seq r (times n r)

/-- At most so many times. -/
def upTo : ℕ → Regex → Regex
  | 0, _ => empty
  | n + 1, r => opt (seq r (upTo n r))

/-- One of these, and at least the first one. -/
def oneOf (r : Regex) : List Regex → Regex
  | [] => r
  | s :: l => alt r (oneOf s l)

/-! ### What is matched -/

/-- Parts of a text that are matched one after the other. -/
inductive Iterated (P : Option Char → List Char → List Char → Prop) :
    Option Char → List Char → List Char → Prop
  | nil (b : Option Char) (a : List Char) : Iterated P b [] a
  | cons {b : Option Char} {u v a : List Char} (hu : u ≠ []) (hP : P b u (v ++ a))
      (hrest : Iterated P (lastOr b u) v a) : Iterated P b (u ++ v) a

/-- A text is matched after this character and before this text. -/
def Matches : Regex → Option Char → List Char → List Char → Prop
  | empty, _, w, _ => w = []
  | chars p, _, w, _ => ∃ c, w = [c] ∧ p c
  | seq r s, b, w, a => ∃ u v, w = u ++ v ∧ r.Matches b u (v ++ a) ∧ s.Matches (lastOr b u) v a
  | alt r s, b, w, a => r.Matches b w a ∨ s.Matches b w a
  | star r, b, w, a => Iterated r.Matches b w a
  | assert p, b, w, a => w = [] ∧ p b a
  | ahead r, b, w, a => w = [] ∧ ∃ u v, a = u ++ v ∧ r.Matches b u v
  | notAhead r, b, w, a => w = [] ∧ ¬∃ u v, a = u ++ v ∧ r.Matches b u v

variable {r s : Regex} {p : Char → Bool} {b : Option Char} {t u v w a : List Char}

theorem mem_repeatEnds {f : Option Char → List Char → List (List Char × List Char)}
    {P : Option Char → List Char → List Char → Prop}
    (hf : ∀ b t w a, (w, a) ∈ f b t ↔ t = w ++ a ∧ P b w a) {n : ℕ} (hn : t.length ≤ n) :
    (w, a) ∈ repeatEnds f n b t ↔ t = w ++ a ∧ Iterated P b w a := by
  induction n generalizing b t w with
  | zero =>
    obtain rfl := List.length_eq_zero_iff.mp (Nat.le_zero.mp hn)
    rw [repeatEnds, List.mem_singleton, Prod.mk.injEq]
    constructor
    · rintro ⟨rfl, rfl⟩
      exact ⟨rfl, .nil b []⟩
    · rintro ⟨ht, -⟩
      exact ⟨(List.append_eq_nil_iff.mp ht.symm).1, (List.append_eq_nil_iff.mp ht.symm).2⟩
  | succ n ih =>
    rw [repeatEnds, List.mem_cons, List.mem_flatMap, Prod.mk.injEq]
    constructor
    · rintro (⟨rfl, rfl⟩ | ⟨⟨u, t'⟩, hmem, hrest⟩)
      · exact ⟨rfl, .nil b a⟩
      · obtain ⟨rfl, hP⟩ := (hf b t u t').mp hmem
        dsimp only at hrest
        -- A round that takes nothing is dropped, so the rounds that are left have a shorter text.
        split_ifs at hrest with hu
        · cases hrest
        · obtain ⟨⟨v, a'⟩, hq, heq⟩ := List.mem_map.mp hrest
          obtain ⟨rfl, rfl⟩ := Prod.mk.inj heq
          have hshort : t'.length ≤ n := by
            have hpos := List.length_pos_iff.mpr hu
            rw [List.length_append] at hn
            omega
          obtain ⟨rfl, hiter⟩ := (ih hshort).mp hq
          exact ⟨(List.append_assoc u v a').symm, .cons hu hP hiter⟩
    · rintro ⟨rfl, hiter⟩
      cases hiter with
      | nil => exact .inl ⟨rfl, rfl⟩
      | @cons _ u v _ hu hP hrest =>
        refine .inr ⟨(u, v ++ a), (hf _ _ _ _).mpr ⟨List.append_assoc u v a, hP⟩, ?_⟩
        rw [if_neg hu]
        have hshort : (v ++ a).length ≤ n := by
          have hpos := List.length_pos_iff.mpr hu
          rw [List.append_assoc, List.length_append] at hn
          omega
        exact List.mem_map.mpr ⟨(v, a), (ih hshort).mpr ⟨rfl, hrest⟩, rfl⟩

/-- Something is listed if and only if something is matched. -/
theorem exists_of_ends_ne_nil {P : List Char → List Char → Prop}
    (h : ∀ w a, (w, a) ∈ r.ends b t ↔ t = w ++ a ∧ P w a) :
    r.ends b t ≠ [] ↔ ∃ w a, t = w ++ a ∧ P w a := by
  constructor
  · intro hne
    obtain ⟨⟨w, a⟩, hmem⟩ := List.exists_mem_of_ne_nil _ hne
    exact ⟨w, a, (h w a).mp hmem⟩
  · rintro ⟨w, a, hwa⟩
    exact List.ne_nil_of_mem ((h w a).mpr hwa)

/-- **What is listed is what is matched.** -/
theorem mem_ends : (w, a) ∈ r.ends b t ↔ t = w ++ a ∧ r.Matches b w a := by
  induction r generalizing b t w a with
  | empty =>
    rw [ends, List.mem_singleton, Prod.mk.injEq, Matches]
    constructor
    · rintro ⟨rfl, rfl⟩
      exact ⟨rfl, rfl⟩
    · rintro ⟨rfl, rfl⟩
      exact ⟨rfl, rfl⟩
  | chars p =>
    rw [Matches]
    constructor
    · intro h
      cases t with
      | nil => cases h
      | cons c t =>
        rw [ends] at h
        split_ifs at h with hp
        · obtain ⟨rfl, rfl⟩ := Prod.mk.inj (List.mem_singleton.mp h)
          exact ⟨rfl, c, rfl, hp⟩
        · cases h
    · rintro ⟨rfl, c, rfl, hp⟩
      rw [List.singleton_append, ends, if_pos hp]
      exact List.mem_singleton_self _
  | seq r s ihr ihs =>
    rw [ends, List.mem_flatMap, Matches]
    constructor
    · rintro ⟨⟨u, t'⟩, hu, hv⟩
      obtain ⟨⟨v, a'⟩, hq, heq⟩ := List.mem_map.mp hv
      obtain ⟨rfl, rfl⟩ := Prod.mk.inj heq
      obtain ⟨rfl, hr⟩ := ihr.mp hu
      obtain ⟨rfl, hs⟩ := ihs.mp hq
      exact ⟨(List.append_assoc u v a').symm, u, v, rfl, hr, hs⟩
    · rintro ⟨rfl, u, v, rfl, hr, hs⟩
      exact ⟨(u, v ++ a), ihr.mpr ⟨List.append_assoc u v a, hr⟩,
        List.mem_map.mpr ⟨(v, a), ihs.mpr ⟨rfl, hs⟩, rfl⟩⟩
  | alt r s ihr ihs =>
    rw [ends, List.mem_append, ihr, ihs, Matches, ← and_or_left]
  -- The rounds are as many as the text has characters: each but the last takes some.
  | star r ih =>
    rw [ends, Matches]
    exact mem_repeatEnds (P := r.Matches) (fun b t w a => ih) (Nat.le_refl _)
  | assert p =>
    rw [ends, Matches]
    split_ifs with hp
    · rw [List.mem_singleton, Prod.mk.injEq]
      constructor
      · rintro ⟨rfl, rfl⟩
        exact ⟨rfl, rfl, hp⟩
      · rintro ⟨rfl, rfl, -⟩
        exact ⟨rfl, rfl⟩
    · refine iff_of_false nofun ?_
      rintro ⟨rfl, rfl, hp'⟩
      exact hp hp'
  | ahead r ih =>
    have hexists : ∀ t, r.ends b t ≠ [] ↔ ∃ u v, t = u ++ v ∧ r.Matches b u v :=
      fun t => exists_of_ends_ne_nil fun _ _ => ih
    rw [ends, Matches, ← hexists]
    split_ifs with hnil
    · refine iff_of_false nofun ?_
      rintro ⟨rfl, rfl, hne⟩
      exact hne hnil
    · rw [List.mem_singleton, Prod.mk.injEq]
      constructor
      · rintro ⟨rfl, rfl⟩
        exact ⟨rfl, rfl, hnil⟩
      · rintro ⟨rfl, rfl, -⟩
        exact ⟨rfl, rfl⟩
  | notAhead r ih =>
    have hexists : ∀ t, r.ends b t ≠ [] ↔ ∃ u v, t = u ++ v ∧ r.Matches b u v :=
      fun t => exists_of_ends_ne_nil fun _ _ => ih
    rw [ends, Matches, ← hexists, not_not]
    split_ifs with hnil
    · rw [List.mem_singleton, Prod.mk.injEq]
      constructor
      · rintro ⟨rfl, rfl⟩
        exact ⟨rfl, rfl, hnil⟩
      · rintro ⟨rfl, rfl, -⟩
        exact ⟨rfl, rfl⟩
    · refine iff_of_false nofun ?_
      rintro ⟨rfl, rfl, hnil'⟩
      exact hnil hnil'

/-- A place of a text is matched. -/
theorem ends_ne_nil : r.ends b t ≠ [] ↔ ∃ w a, t = w ++ a ∧ r.Matches b w a :=
  exists_of_ends_ne_nil fun _ _ => mem_ends

theorem fullMatch_iff : r.fullMatch t = true ↔ r.Matches none t [] := by
  rw [fullMatch, List.any_eq_true]
  constructor
  · rintro ⟨⟨w, a⟩, hmem, ha⟩
    obtain rfl : a = [] := of_decide_eq_true ha
    obtain ⟨rfl, hmatches⟩ := mem_ends.mp hmem
    rwa [List.append_nil]
  · intro h
    exact ⟨(t, []), mem_ends.mpr ⟨(List.append_nil t).symm, h⟩, rfl⟩

/-- The places of a text are those of its parts. -/
theorem searchFrom_append :
    r.searchFrom b (u ++ t) = true ↔
      (∃ x c y w a, u = x ++ c :: y ∧ c :: y ++ t = w ++ a ∧ r.Matches (lastOr b x) w a) ∨
        r.searchFrom (lastOr b u) t = true := by
  induction u generalizing b with
  | nil =>
    refine ⟨.inr, ?_⟩
    rintro (⟨x, c, y, _, _, hx, -⟩ | h)
    · cases x with
      | nil => cases hx
      | cons d x => cases hx
    · exact h
  | cons d u ih =>
    -- The character before a place is the last one that was read.
    have hlast : lastOr b (d :: u) = lastOr (some d) u := by
      rw [lastOr, lastOr, List.getLast?_cons]
      cases u.getLast? with
      | none => rfl
      | some c => rfl
    have hlast' : ∀ x, lastOr b (d :: x) = lastOr (some d) x := by
      intro x
      rw [lastOr, lastOr, List.getLast?_cons]
      cases x.getLast? with
      | none => rfl
      | some c => rfl
    rw [List.cons_append, searchFrom, Bool.or_eq_true, decide_eq_true_eq, ends_ne_nil, ih, hlast,
      ← or_assoc]
    refine or_congr_left ⟨?_, ?_⟩
    · rintro (⟨w, a, heq, hmatches⟩ | ⟨x, c, y, w, a, rfl, heq, hmatches⟩)
      · exact ⟨[], d, u, w, a, rfl, heq, hmatches⟩
      · exact ⟨d :: x, c, y, w, a, rfl, heq, hlast' x ▸ hmatches⟩
    · rintro ⟨x, c, y, w, a, hx, heq, hmatches⟩
      cases x with
      | nil =>
        obtain ⟨rfl, rfl⟩ := List.cons.inj hx
        exact .inl ⟨w, a, heq, hmatches⟩
      | cons e x =>
        obtain ⟨rfl, rfl⟩ := List.cons.inj hx
        exact .inr ⟨x, c, y, w, a, rfl, heq, (hlast' x).symm ▸ hmatches⟩

/-! ### What a match is made of -/

/-- The empty text may be matched. -/
def mayBeEmpty : Regex → Bool
  | chars _ => false
  | seq r s => r.mayBeEmpty && s.mayBeEmpty
  | alt r s => r.mayBeEmpty || s.mayBeEmpty
  | _ => true

/-- A match may begin with this character. -/
def mayStart (c : Char) : Regex → Bool
  | chars p => p c
  | seq r s => r.mayStart c || r.mayBeEmpty && s.mayStart c
  | alt r s => r.mayStart c || s.mayStart c
  | star r => r.mayStart c
  | _ => false

/-- A match may have this character. -/
def mayConsume (c : Char) : Regex → Bool
  | chars p => p c
  | seq r s => r.mayConsume c || s.mayConsume c
  | alt r s => r.mayConsume c || s.mayConsume c
  | star r => r.mayConsume c
  | _ => false

/-- What is around a text does not matter for whether it is matched. -/
def isPlain : Regex → Bool
  | empty | chars _ => true
  | seq r s | alt r s => r.isPlain && s.isPlain
  | star r => r.isPlain
  | _ => false

variable {c : Char}

theorem Matches.mayBeEmpty (h : r.Matches b [] a) : r.mayBeEmpty = true := by
  induction r generalizing b a with
  | chars p =>
    obtain ⟨c, hc, -⟩ := h
    cases hc
  | seq r s ihr ihs =>
    obtain ⟨u, v, huv, hr, hs⟩ := h
    obtain ⟨rfl, rfl⟩ := List.append_eq_nil_iff.mp huv.symm
    exact Bool.and_eq_true_iff.mpr ⟨ihr hr, ihs hs⟩
  | alt r s ihr ihs => exact Bool.or_eq_true_iff.mpr (h.imp ihr ihs)
  | empty => rfl
  | star r ih => rfl
  | assert p => rfl
  | ahead r ih => rfl
  | notAhead r ih => rfl

theorem Matches.mayConsume (h : r.Matches b w a) (hc : c ∈ w) : r.mayConsume c = true := by
  induction r generalizing b w a with
  | chars p =>
    obtain ⟨d, rfl, hd⟩ := h
    obtain rfl := List.mem_singleton.mp hc
    exact hd
  | seq r s ihr ihs =>
    obtain ⟨u, v, rfl, hr, hs⟩ := h
    exact Bool.or_eq_true_iff.mpr ((List.mem_append.mp hc).imp (ihr hr) (ihs hs))
  | alt r s ihr ihs => exact Bool.or_eq_true_iff.mpr (h.imp (fun h => ihr h hc) fun h => ihs h hc)
  | star r ih =>
    change Iterated r.Matches b w a at h
    induction h with
    | nil => cases hc
    | cons hu hP _ ihrest => exact (List.mem_append.mp hc).elim (ih hP) ihrest
  | empty =>
    obtain rfl : w = [] := h
    cases hc
  | assert p =>
    obtain ⟨rfl, -⟩ := h
    cases hc
  | ahead r ih =>
    obtain ⟨rfl, -⟩ := h
    cases hc
  | notAhead r ih =>
    obtain ⟨rfl, -⟩ := h
    cases hc

theorem Matches.mayStart (h : r.Matches b (c :: w) a) : r.mayStart c = true := by
  induction r generalizing b w a with
  | chars p =>
    obtain ⟨d, hd, hp⟩ := h
    obtain ⟨rfl, -⟩ := List.cons.inj hd
    exact hp
  | seq r s ihr ihs =>
    obtain ⟨u, v, huv, hr, hs⟩ := h
    cases u with
    | nil =>
      obtain rfl : v = c :: w := huv.symm
      exact Bool.or_eq_true_iff.mpr (.inr (Bool.and_eq_true_iff.mpr ⟨hr.mayBeEmpty, ihs hs⟩))
    | cons d u =>
      obtain ⟨rfl, -⟩ := List.cons.inj huv
      exact Bool.or_eq_true_iff.mpr (.inl (ihr hr))
  | alt r s ihr ihs => exact Bool.or_eq_true_iff.mpr (h.imp ihr ihs)
  | star r ih =>
    generalize hw : c :: w = w' at h
    change Iterated r.Matches b w' a at h
    cases h with
    | nil => cases hw
    | @cons _ u v _ hu hP hrest =>
      obtain ⟨d, u, rfl⟩ := List.exists_cons_of_ne_nil hu
      obtain ⟨rfl, -⟩ := List.cons.inj hw
      exact ih hP
  | empty => cases h
  | assert p => cases h.1
  | ahead r ih => cases h.1
  | notAhead r ih => cases h.1

/-- What an expression without assertions matches, it matches everywhere. -/
theorem Matches.plain (hr : r.isPlain = true) (h : r.Matches b w a) (b' : Option Char)
    (a' : List Char) : r.Matches b' w a' := by
  induction r generalizing b w a b' a' with
  | empty => exact h
  | chars p => exact h
  | seq r s ihr ihs =>
    obtain ⟨hr, hs⟩ := Bool.and_eq_true_iff.mp hr
    obtain ⟨u, v, rfl, hu, hv⟩ := h
    exact ⟨u, v, rfl, ihr hr hu _ _, ihs hs hv _ _⟩
  | alt r s ihr ihs =>
    obtain ⟨hr, hs⟩ := Bool.and_eq_true_iff.mp hr
    exact h.imp (fun h => ihr hr h _ _) fun h => ihs hs h _ _
  | star r ih =>
    change Iterated r.Matches b w a at h
    change Iterated r.Matches b' w a'
    induction h generalizing b' a' with
    | nil => exact .nil b' a'
    | cons hu hP _ ihrest => exact .cons hu (ih hr hP _ _) (ihrest _ _)
  | assert p => cases hr
  | ahead r ih => cases hr
  | notAhead r ih => cases hr

/-- So many characters. -/
theorem matches_times_chars {n : ℕ} :
    (times n (chars p)).Matches b w a ↔ w.length = n ∧ ∀ c ∈ w, p c = true := by
  induction n generalizing b w with
  | zero =>
    rw [List.length_eq_zero_iff]
    refine ⟨fun h => ⟨h, fun c hc => ?_⟩, And.left⟩
    obtain rfl : w = [] := h
    cases hc
  | succ n ih =>
    constructor
    · rintro ⟨u, v, rfl, ⟨c, rfl, hc⟩, hv⟩
      obtain ⟨hlength, hall⟩ := ih.mp hv
      exact ⟨congrArg Nat.succ hlength, List.forall_mem_cons.mpr ⟨hc, hall⟩⟩
    · rintro ⟨hlength, hall⟩
      cases w with
      | nil => cases hlength
      | cons c w =>
        obtain ⟨hc, hall⟩ := List.forall_mem_cons.mp hall
        exact ⟨[c], w, rfl, ⟨c, rfl, hc⟩, ih.mpr ⟨Nat.succ.inj hlength, hall⟩⟩

/-- At most so many characters. -/
theorem matches_upTo_chars {n : ℕ} :
    (upTo n (chars p)).Matches b w a ↔ w.length ≤ n ∧ ∀ c ∈ w, p c = true := by
  induction n generalizing b w with
  | zero =>
    refine ⟨fun h => ?_, fun h => List.length_eq_zero_iff.mp (Nat.le_zero.mp h.1)⟩
    obtain rfl : w = [] := h
    exact ⟨Nat.le_refl 0, nofun⟩
  | succ n ih =>
    constructor
    · rintro (⟨u, v, rfl, ⟨c, rfl, hc⟩, hv⟩ | h)
      · obtain ⟨hlength, hall⟩ := ih.mp hv
        exact ⟨Nat.succ_le_succ hlength, List.forall_mem_cons.mpr ⟨hc, hall⟩⟩
      · obtain rfl : w = [] := h
        exact ⟨Nat.zero_le _, nofun⟩
    · rintro ⟨hlength, hall⟩
      cases w with
      | nil => exact .inr rfl
      | cons c w =>
        obtain ⟨hc, hall⟩ := List.forall_mem_cons.mp hall
        exact .inl ⟨[c], w, rfl, ⟨c, rfl, hc⟩, ih.mpr ⟨Nat.le_of_succ_le_succ hlength, hall⟩⟩

/-- An expression without assertions again and again: one part of the text after the other. -/
theorem matches_star_plain (hr : r.isPlain = true) :
    (star r).Matches b w a ↔ ∃ l : List (List Char), w = l.flatten ∧
      ∀ u ∈ l, u ≠ [] ∧ r.Matches none u [] := by
  constructor
  · intro h
    change Iterated r.Matches b w a at h
    induction h with
    | nil => exact ⟨[], rfl, nofun⟩
    | @cons _ u _ _ hu hP _ ih =>
      obtain ⟨l, rfl, hl⟩ := ih
      exact ⟨u :: l, rfl, List.forall_mem_cons.mpr ⟨⟨hu, hP.plain hr none []⟩, hl⟩⟩
  · rintro ⟨l, rfl, hl⟩
    induction l generalizing b with
    | nil => exact .nil b a
    | cons u l ih =>
      obtain ⟨⟨hu, hP⟩, hl⟩ := List.forall_mem_cons.mp hl
      exact .cons hu (hP.plain hr _ _) (ih hl)

/-- Any number of characters. -/
theorem matches_star_chars :
    (star (chars p)).Matches b w a ↔ ∀ c ∈ w, p c = true := by
  refine ⟨fun h c hc => h.mayConsume hc, fun hall => ?_⟩
  induction w generalizing b with
  | nil => exact .nil b a
  | cons c w ih =>
    obtain ⟨hc, hall⟩ := List.forall_mem_cons.mp hall
    exact .cons (u := [c]) (List.cons_ne_nil c []) ⟨c, rfl, hc⟩ (ih hall)

/-- The characters of a text one by one. -/
theorem matches_word {same : Char → Char → Bool} :
    (word same t).Matches b w a ↔ List.Forall₂ (fun c d => same c d = true) t w := by
  induction t generalizing b w with
  | nil => exact List.forall₂_nil_left_iff.symm
  | cons c t ih =>
    rw [List.forall₂_cons_left_iff]
    constructor
    · rintro ⟨u, v, rfl, ⟨d, rfl, hd⟩, hv⟩
      exact ⟨d, v, hd, ih.mp hv, rfl⟩
    · rintro ⟨d, v, hd, hv, rfl⟩
      exact ⟨[d], v, rfl, ⟨d, rfl, hd⟩, ih.mpr hv⟩

theorem mayConsume_word {same : Char → Char → Bool} :
    (word same t).mayConsume c = t.any fun d => same d c := by
  induction t with
  | nil => rfl
  | cons d t ih => rw [word, mayConsume, mayConsume, ih, List.any_cons]

/-- A text and nothing else. -/
theorem matches_word_eq : (word (fun c d => c = d) t).Matches b w a ↔ w = t := by
  rw [matches_word]
  simp only [decide_eq_true_eq]
  exact ⟨fun h => (List.forall₂_eq_eq_eq ▸ h : t = w).symm, fun h => h ▸ List.forall₂_refl _⟩

/-- Two texts that go on alike up to a first character that is different are cut there. -/
theorem cut_inj {c d : Char} (hu : ∀ c ∈ u, p c = true) (hv : ∀ c ∈ v, p c = true)
    (hc : p c = false) (hd : p d = false) (h : u ++ c :: w = v ++ d :: a) :
    u = v ∧ c = d ∧ w = a := by
  induction u generalizing v with
  | nil =>
    cases v with
    | nil => exact ⟨rfl, (List.cons.inj h).1, (List.cons.inj h).2⟩
    | cons e v =>
      rw [(List.cons.inj h).1, hv e List.mem_cons_self] at hc
      cases hc
  | cons e u ih =>
    obtain ⟨he, hu⟩ := List.forall_mem_cons.mp hu
    cases v with
    | nil =>
      rw [← (List.cons.inj h).1, he] at hd
      cases hd
    | cons f v =>
      obtain ⟨rfl, hrest⟩ := List.cons.inj h
      obtain ⟨rfl, hcd⟩ := ih hu (List.forall_mem_cons.mp hv).2 hrest
      exact ⟨rfl, hcd⟩

/-! ### Places that are not matched -/

theorem searchFrom_iff :
    r.searchFrom b t = true ↔ ∃ x w a, t = x ++ (w ++ a) ∧ r.Matches (lastOr b x) w a := by
  rw [← List.append_nil t, searchFrom_append, searchFrom, decide_eq_true_eq, ends_ne_nil]
  constructor
  · rintro (⟨x, c, y, w, a, rfl, heq, hmatches⟩ | ⟨w, a, heq, hmatches⟩)
    · exact ⟨x, w, a, by rw [List.append_assoc, heq], hmatches⟩
    · exact ⟨t, w, a, congrArg (t ++ ·) heq, hmatches⟩
  · rintro ⟨x, w, a, heq, hmatches⟩
    rw [List.append_nil] at heq
    cases hrest : w ++ a with
    | nil =>
      rw [hrest, List.append_nil] at heq
      exact .inr ⟨w, a, hrest.symm, heq ▸ hmatches⟩
    | cons c y => exact .inl ⟨x, c, y, w, a, heq.trans (congrArg (x ++ ·) hrest),
        by rw [List.append_nil, hrest], hmatches⟩

/-- A place is passed over where no match starts with its character. -/
theorem searchFrom_cons (hempty : r.mayBeEmpty = false) (hstart : r.mayStart c = false) :
    r.searchFrom b (c :: t) = r.searchFrom (some c) t := by
  rw [searchFrom, Bool.or_eq_right_iff_imp, decide_eq_true_eq, ends_ne_nil]
  rintro ⟨w, a, heq, hmatches⟩
  cases w with
  | nil =>
    rw [hmatches.mayBeEmpty] at hempty
    cases hempty
  | cons d w =>
    obtain ⟨rfl, -⟩ := List.cons.inj heq
    rw [hmatches.mayStart] at hstart
    cases hstart

theorem searchFrom_nil (hempty : r.mayBeEmpty = false) : r.searchFrom b [] = false := by
  rw [searchFrom, decide_eq_false_iff_not, ends_ne_nil]
  rintro ⟨w, a, heq, hmatches⟩
  obtain ⟨rfl, -⟩ := List.append_eq_nil_iff.mp heq.symm
  rw [hmatches.mayBeEmpty] at hempty
  cases hempty

end Regex
