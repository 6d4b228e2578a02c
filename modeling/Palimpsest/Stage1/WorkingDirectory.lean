import Palimpsest.Lib.PathComponents
import Palimpsest.Process.ProcessSpec
import Palimpsest.Stage1.Spans

/-!
# The working directory on both sides

The host compares a working directory with its normal form (`os.path.normpath`). The guest scans
the string as it stands in the plan, escapes and all, for empty components and dots
(`Palimpsest.Stage1.Init.validCwd`). No escape stands for a slash or a dot, so both let the same
directories through (`Palimpsest.Stage1.Init.validCwd_encode_escape`).
-/

namespace Palimpsest.Stage1.Init

open Json PosixPath
open Utf8 (asciiByte encode)

/-- The byte of a slash. -/
abbrev slash : UInt8 := asciiByte '/'

/-- The byte of a dot. -/
abbrev dot : UInt8 := asciiByte '.'

/-- Whether a component that begins here is `.` or `..`. -/
def dotsHere : List UInt8 → Bool
  | [] => false
  | [d] => d = dot
  | [d, e] => d = dot && (e = slash || e = dot)
  | d :: e :: f :: _ => d = dot && (e = slash || (e = dot && f = slash))

/-- The loop of `valid_cwd`, with the byte before. -/
def cwdLoop (before : UInt8) : List UInt8 → Bool
  | [] => true
  | b :: s =>
    if before = slash ∧ (b = slash ∨ dotsHere (b :: s)) then false else cwdLoop b s

/-- `valid_cwd` -/
def validCwd : List UInt8 → Bool
  | [] => false
  | b :: s => b = slash && s.getLast? ≠ some slash && cwdLoop b s

/-- What stands between two slashes. -/
def IsPart (part : List UInt8) : Prop := part ≠ [] ∧ part ≠ [dot] ∧ part ≠ [dot, dot]

variable {part rest : List UInt8} {b : UInt8}

/-- Within a component nothing is looked at. -/
theorem cwdLoop_append (rest : List UInt8) (hb : b ≠ slash) (hpart : slash ∉ part) :
    cwdLoop b (part ++ slash :: rest) = cwdLoop slash rest ∧ cwdLoop b part = true := by
  induction part generalizing b with
  | nil =>
    exact ⟨if_neg fun h => hb h.1, rfl⟩
  | cons c part ih =>
    rw [List.mem_cons, not_or] at hpart
    obtain ⟨hc, hpart⟩ := hpart
    rw [List.cons_append, cwdLoop, cwdLoop, if_neg fun h => hb h.1, if_neg fun h => hb h.1]
    exact ih (Ne.symm hc) hpart

/-- Where a component begins, what it is decides whether it is one of dots. -/
theorem dotsHere_append (rest : List UInt8) (hne : part ≠ []) (hpart : slash ∉ part) :
    (dotsHere (part ++ slash :: rest) = true ↔ part = [dot] ∨ part = [dot, dot]) ∧
      (dotsHere part = true ↔ part = [dot] ∨ part = [dot, dot]) := by
  have hdot : slash ≠ dot := by decide
  rcases part with - | ⟨c, - | ⟨d, - | ⟨e, part⟩⟩⟩
  · exact absurd rfl hne
  · constructor
    · cases rest with
      | nil => simp [dotsHere]
      | cons f rest => simp [dotsHere]
    · simp [dotsHere]
  · have hd : d ≠ slash := fun h => hpart (by simp [h])
    simp [dotsHere, hd]
  · have hd : d ≠ slash := fun h => hpart (by simp [h])
    have he : e ≠ slash := fun h => hpart (by simp [h])
    simp [dotsHere, hd, he]

theorem cwdLoop_slash_cons {c : UInt8} (hc : c ≠ slash) (s : List UInt8) :
    cwdLoop slash (c :: s) = true ↔ ¬dotsHere (c :: s) = true ∧ cwdLoop c s = true := by
  have hcond : slash = slash ∧ (c = slash ∨ dotsHere (c :: s) = true) ↔
    dotsHere (c :: s) = true := by
    rw [and_iff_right rfl, or_iff_right hc]
  by_cases hdots : dotsHere (c :: s) = true
  · rw [cwdLoop, if_pos (hcond.mpr hdots)]
    exact iff_of_false Bool.false_ne_true fun h => h.1 hdots
  · rw [cwdLoop, if_neg fun h => hdots (hcond.mp h), and_iff_right hdots]

theorem cwdLoop_slash_append (rest : List UInt8) (hpart : slash ∉ part) :
    (cwdLoop slash (part ++ slash :: rest) = true ↔ IsPart part ∧ cwdLoop slash rest = true) ∧
      (part ≠ [] → (cwdLoop slash part = true ↔ IsPart part)) := by
  cases part with
  | nil =>
    refine ⟨?_, fun h => absurd rfl h⟩
    rw [List.nil_append, cwdLoop, if_pos ⟨rfl, Or.inl rfl⟩]
    exact iff_of_false Bool.false_ne_true fun h => h.1.1 rfl
  | cons c part =>
    obtain ⟨hthere, hhere⟩ := dotsHere_append rest (List.cons_ne_nil c part) hpart
    rw [List.mem_cons, not_or] at hpart
    obtain ⟨hc, hpart⟩ := hpart
    obtain ⟨hcut, hend⟩ := cwdLoop_append rest (Ne.symm hc) hpart
    have hiff : IsPart (c :: part) ↔ ¬(c :: part = [dot] ∨ c :: part = [dot, dot]) := by
      rw [IsPart, not_or, and_iff_right (List.cons_ne_nil c part)]
    refine ⟨?_, fun _ => ?_⟩
    · rw [List.cons_append, cwdLoop_slash_cons (Ne.symm hc), ← List.cons_append, hthere, hcut, hiff]
    · rw [cwdLoop_slash_cons (Ne.symm hc), hhere, hiff, and_iff_left hend]

/-- **The loop** lets through what has names between its slashes and does not end in one. -/
theorem cwdLoop_iff (s : List UInt8) : cwdLoop slash s = true ∧ s.getLast? ≠ some slash ↔
    s = [] ∨ ∀ part ∈ s.splitOn slash, IsPart part := by
  induction hn : s.length using Nat.strongRecOn generalizing s with
  | ind n ih =>
    -- The loop looks at the part before the next slash, and what follows is shorter.
    by_cases hmem : slash ∈ s
    · obtain ⟨part, rest, rfl, hpart⟩ := List.eq_append_cons_of_mem hmem
      have hlen : rest.length < n := by
        rw [← hn, List.length_append, List.length_cons]
        omega
      have hlast : (part ++ slash :: rest).getLast? ≠ some slash ↔
          rest ≠ [] ∧ rest.getLast? ≠ some slash := by
        cases rest with
        | nil => simp
        | cons c rest =>
          rw [List.getLast?_append_of_ne_nil _ (List.cons_ne_nil _ _),
            List.getLast?_cons_of_ne_nil (List.cons_ne_nil c rest),
            and_iff_right (List.cons_ne_nil c rest)]
      have hne : part ++ slash :: rest ≠ [] :=
        List.append_ne_nil_of_right_ne_nil _ (List.cons_ne_nil _ _)
      rw [(cwdLoop_slash_append _ hpart).1, hlast, or_iff_right hne,
        List.splitOn_append_cons_self_of_not_mem hpart, List.forall_mem_cons, and_assoc]
      refine and_congr_right fun _ => ?_
      have hrest := ih rest.length hlen rest rfl
      constructor
      · rintro ⟨hloop, hnil, hend⟩
        exact (hrest.mp ⟨hloop, hend⟩).resolve_left hnil
      · intro hall
        obtain ⟨hloop, hend⟩ := hrest.mpr (Or.inr hall)
        refine ⟨hloop, ?_, hend⟩
        rintro rfl
        rw [List.splitOn_nil] at hall
        exact (hall [] (List.mem_singleton_self [])).1 rfl
    · have hlast : s.getLast? ≠ some slash := fun h => hmem (List.mem_of_getLast? h)
      rw [List.splitOn_eq_singleton hmem, and_iff_left hlast]
      by_cases hs : s = []
      · subst hs
        exact iff_of_true rfl (Or.inl rfl)
      · rw [(cwdLoop_slash_append [] hmem).2 hs, or_iff_right hs, List.forall_mem_singleton]

/-! ### Escapes -/

theorem slash_notMem_escapeChar {c : Char} (hc : c ≠ '/') : '/' ∉ escapeChar c := by
  have hdigit : ∀ n, n < 16 → '/' ≠ hexDigit n := by decide
  unfold escapeChar
  split_ifs
  any_goals decide
  · simp only [List.mem_cons, List.not_mem_nil, or_false, not_or]
    have hlow := hdigit (c.toNat % 16) (Nat.mod_lt _ (by decide))
    have hhigh := hdigit (c.toNat / 16) (by omega)
    exact ⟨by decide, by decide, by decide, by decide, hhigh, hlow⟩
  · exact fun h => hc (List.mem_singleton.mp h).symm

theorem escape_append (s t : Text) : escape (s ++ t) = escape s ++ escape t := List.flatMap_append

/-- Cut at the slashes, a text with its escapes has the pieces of the text with theirs. -/
theorem splitOn_escape (t : Text) : (escape t).splitOn '/' = (t.splitOn '/').map escape := by
  have hnot : ∀ s : Text, '/' ∉ s → '/' ∉ escape s := by
    intro s hs hmem
    obtain ⟨c, hc, hchar⟩ := List.mem_flatMap.mp hmem
    exact slash_notMem_escapeChar (fun heq => hs (heq ▸ hc)) hchar
  induction hn : t.length using Nat.strongRecOn generalizing t with
  | ind n ih =>
    by_cases hmem : '/' ∈ t
    · obtain ⟨first, rest, rfl, hfirst⟩ := List.eq_append_cons_of_mem hmem
      have hcut : escape (first ++ '/' :: rest) = escape first ++ '/' :: escape rest :=
        escape_append _ _
      have hlen : rest.length < n := by
        rw [← hn, List.length_append, List.length_cons]
        omega
      rw [hcut, List.splitOn_append_cons_self_of_not_mem (hnot first hfirst),
        List.splitOn_append_cons_self_of_not_mem hfirst, List.map_cons,
        ih rest.length hlen rest rfl]
    · rw [List.splitOn_eq_singleton (hnot t hmem), List.splitOn_eq_singleton hmem,
        List.map_singleton]

theorem escape_injective : Function.Injective escape := by
  intro s t h
  have hs := scanText_escape (String.ofList s) []
  have ht := scanText_escape (String.ofList t) []
  rw [String.toList_ofList] at hs ht
  rw [h, ht] at hs
  exact (String.ofList_inj.mp (Prod.mk.inj (Option.some.inj hs)).1).symm

theorem escapeChar_ne_nil (c : Char) : escapeChar c ≠ [] := by
  unfold escapeChar
  split_ifs <;> exact List.cons_ne_nil _ _

theorem isPart_encode_escape (comp : Text) : IsPart (encode (escape comp)) ↔ IsComponent comp := by
  have hinj : ∀ u : Text, encode (escape comp) = encode (escape u) ↔ comp = u := fun u => by
    rw [encode_inj, escape_injective.eq_iff]
  have hnil := hinj []
  have hdot := hinj ['.']
  have hdots := hinj ['.', '.']
  exact and_congr (not_congr hnil) (and_congr (not_congr hdot) (not_congr hdots))

theorem escape_cons (c : Char) (t : Text) : escape (c :: t) = escapeChar c ++ escape t := rfl

/-- A text begins with a slash if its bytes with the escapes do. -/
theorem head?_encode_escape (t : Text) :
    (encode (escape t)).head? = some slash ↔ t.head? = some '/' := by
  cases t with
  | nil => exact iff_of_false (by rintro ⟨⟩) (by rintro ⟨⟩)
  | cons c t =>
    rw [List.head?_cons, Option.some.injEq]
    constructor
    · intro h
      by_contra hc
      have hne : encode (escapeChar c) ≠ [] := fun hnil =>
        absurd (Utf8.encode_eq_nil.mp hnil) (escapeChar_ne_nil c)
      rw [escape_cons, Utf8.encode_append, List.head?_append_of_ne_nil _ hne] at h
      exact slash_notMem_escapeChar hc ((Utf8.mem_encode (by decide)).mp (List.mem_of_head? h))
    · rintro rfl
      rfl

/-- **Both sides let the same working directories through.** -/
theorem validCwd_encode_escape (t : Text) : validCwd (encode (escape t)) = true ↔
    ∃ rest, t = '/' :: rest ∧ Normal rest := by
  by_cases hhead : t.head? = some '/'
  · obtain ⟨rest, rfl⟩ : ∃ rest, t = '/' :: rest := by
      cases t with
      | nil => cases hhead
      | cons c t => exact ⟨t, by rw [Option.some.inj hhead]⟩
    have hcut : encode (escape ('/' :: rest)) = slash :: encode (escape rest) := rfl
    have hparts : encode (escape rest) = [] ↔ rest = [] := by
      have hinj := escape_injective.eq_iff (a := rest) (b := [])
      rwa [Utf8.encode_eq_nil]
    have hiff := cwdLoop_iff (encode (escape rest))
    rw [Utf8.splitOn_encode (by decide), splitOn_escape, hparts] at hiff
    simp only [List.forall_mem_map, isPart_encode_escape] at hiff
    rw [hcut, validCwd, Bool.and_eq_true, Bool.and_eq_true, decide_eq_true_eq, decide_eq_true_eq,
      and_iff_right rfl, and_comm, hiff]
    constructor
    · exact fun h => ⟨rest, rfl, h⟩
    · rintro ⟨rest', heq, h⟩
      rwa [(List.cons.inj heq).2]
  · refine iff_of_false (fun h => hhead ?_) ?_
    · rw [← head?_encode_escape]
      cases hs : encode (escape t) with
      | nil => rw [hs] at h; cases h
      | cons b s =>
        rw [hs, validCwd, Bool.and_eq_true, Bool.and_eq_true, decide_eq_true_eq] at h
        rw [List.head?_cons, h.1.1]
    · rintro ⟨rest, rfl, -⟩
      exact hhead rfl

end Palimpsest.Stage1.Init
