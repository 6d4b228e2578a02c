import Mathlib.Control.Monad.Basic
import Palimpsest.Lib.JsonText
import Palimpsest.Lib.Utf8Bytes

/-!
# Parsers of bytes

A parser takes a value off the front of a list of bytes, or fails. What each one takes is said by
an equivalence: it leaves `r` of `l` if and only if `l` is a text it knows, in UTF-8, followed by
`r`. The equivalences are put together along `ByteParser.bind_eq_some`, and for a list whose items
are read one after the other by `ByteParser.array_eq_some`.
-/

/-- A parser: from a list of bytes, what is read off its front and what is left of it. -/
abbrev ByteParser := StateT (List UInt8) Option

namespace ByteParser

open Json

variable {α β σ ι : Type} {l r : List UInt8}

theorem bind_eq_some {p : ByteParser α} {f : α → ByteParser β} {b : β} :
    (p >>= f) l = some (b, r) ↔ ∃ a m, p l = some (a, m) ∧ f a m = some (b, r) := by
  simp only [bind, StateT.bind, Option.bind_eq_some_iff, Prod.exists]

theorem pure_eq_some {a b : α} : (pure a : ByteParser α) l = some (b, r) ↔ a = b ∧ l = r := by
  have hpure : (pure a : ByteParser α) l = some (a, l) := rfl
  rw [hpure, Option.some.injEq, Prod.mk.injEq]

/-- A check that takes nothing. -/
def check (ok : Bool) : ByteParser Unit := if ok then pure () else failure

theorem check_eq_some {ok : Bool} {u : Unit} :
    check ok l = some (u, r) ↔ ok = true ∧ l = r := by
  cases ok with
  | true => exact pure_eq_some.trans (and_congr_left' (iff_of_true rfl rfl))
  | false => exact iff_of_false (by rintro ⟨⟩) (by rintro ⟨⟨⟩, -⟩)

/-- A value that is there or not. -/
def ofOption : Option α → ByteParser α
  | some a => pure a
  | none => failure

theorem ofOption_eq_some {o : Option α} {a : α} :
    ofOption o l = some (a, r) ↔ o = some a ∧ l = r := by
  cases o with
  | none => exact iff_of_false (by rintro ⟨⟩) (by rintro ⟨⟨⟩, -⟩)
  | some b => rw [ofOption, pure_eq_some, Option.some.injEq]

/-- What is read if nothing is left. -/
def whole (p : ByteParser α) (l : List UInt8) : Option α :=
  match p l with
  | some (a, []) => some a
  | _ => none

theorem whole_eq_some {p : ByteParser α} {a : α} : whole p l = some a ↔ p l = some (a, []) := by
  rw [whole]
  split
  · next b heq => rw [heq, Option.some.injEq, Option.some.injEq, Prod.mk.injEq, and_iff_left rfl]
  · next hne => exact iff_of_false (by rintro ⟨⟩) (hne a)

/-- What is read, and the bytes it is read from. -/
def withBytes (p : ByteParser α) : ByteParser (α × List UInt8) := do
  let start ← get
  let a ← p
  let rest ← get
  return (a, start.take (start.length - rest.length))

theorem withBytes_eq_some {p : ByteParser α} {a : α} {b : List UInt8} :
    withBytes p l = some ((a, b), r) ↔
      p l = some (a, r) ∧ b = l.take (l.length - r.length) := by
  have hget : ∀ m s n : List UInt8, (get : ByteParser (List UInt8)) m = some (s, n) ↔
      s = m ∧ n = m := by
    intro m s n
    have hrun : (get : ByteParser (List UInt8)) m = some (m, m) := rfl
    rw [hrun, Option.some.injEq, Prod.mk.injEq]
    exact and_congr eq_comm eq_comm
  simp only [withBytes, bind_eq_some, hget, pure_eq_some]
  constructor
  · rintro ⟨_, _, ⟨rfl, rfl⟩, a', m, hp, _, _, ⟨rfl, rfl⟩, heq, rfl⟩
    obtain ⟨rfl, rfl⟩ := Prod.mk.inj heq
    exact ⟨hp, rfl⟩
  · rintro ⟨hp, rfl⟩
    exact ⟨l, l, ⟨rfl, rfl⟩, a, r, hp, r, r, ⟨rfl, rfl⟩, rfl, rfl⟩

/-- The bytes of a text that stands in front of what is left. -/
theorem take_encode (t : Text) (r : List UInt8) :
    (Utf8.encode t ++ r).take ((Utf8.encode t ++ r).length - r.length) = Utf8.encode t := by
  rw [List.length_append, Nat.add_sub_cancel, List.take_left]

/-! ### One character -/

/-- The byte of a character is taken if it is the next one. -/
def takeChar (c : Char) : ByteParser Bool
  | [] => some (false, [])
  | b :: l => if b = Utf8.asciiByte c then some (true, l) else some (false, b :: l)

/-- The byte of a character has to be the next one. -/
def expect (c : Char) : ByteParser Unit := do
  check (← takeChar c)

theorem takeChar_eq_true {c : Char} (hc : c.toNat < 0x80) :
    takeChar c l = some (true, r) ↔ l = Utf8.encode [c] ++ r := by
  rw [Utf8.encode_singleton hc, List.singleton_append]
  cases l with
  | nil => exact iff_of_false (by rintro ⟨⟩) (by rintro ⟨⟩)
  | cons b l =>
    rw [takeChar, List.cons.injEq]
    split_ifs with hb
    · rw [Option.some.injEq, Prod.mk.injEq, and_iff_right rfl, and_iff_right hb]
    · exact iff_of_false (by rintro ⟨⟩) fun h => hb h.1

theorem takeChar_eq_false {c : Char} :
    takeChar c l = some (false, r) ↔ l.head? ≠ some (Utf8.asciiByte c) ∧ l = r := by
  cases l with
  | nil =>
    rw [takeChar, Option.some.injEq, Prod.mk.injEq, and_iff_right rfl]
    exact (and_iff_right (by rintro ⟨⟩)).symm
  | cons b l =>
    rw [takeChar, List.head?_cons, Ne, Option.some.injEq]
    split_ifs with hb
    · exact iff_of_false (by rintro ⟨⟩) fun h => h.1 hb
    · rw [Option.some.injEq, Prod.mk.injEq, and_iff_right rfl, and_iff_right hb]

theorem comma_ascii : ','.toNat < 0x80 := by decide

theorem brace_ascii : '{'.toNat < 0x80 := by decide

theorem closing_ascii : '}'.toNat < 0x80 := by decide

theorem expect_eq_some {c : Char} (hc : c.toNat < 0x80) {u : Unit} :
    expect c l = some (u, r) ↔ l = Utf8.encode [c] ++ r := by
  rw [expect, bind_eq_some]
  constructor
  · rintro ⟨found, m, htake, hcheck⟩
    obtain ⟨rfl, rfl⟩ := check_eq_some.mp hcheck
    exact (takeChar_eq_true hc).mp htake
  · intro h
    exact ⟨true, r, (takeChar_eq_true hc).mpr h, check_eq_some.mpr ⟨rfl, rfl⟩⟩

/-! ### Items one after the other -/

/-- Items with commas between them up to the closing bracket, at least one and at most so many,
with what is remembered from one to the next. -/
def items (item : σ → ByteParser (α × σ)) : ℕ → σ → ByteParser (List α × σ)
  | 0, _ => failure
  | n + 1, s => do
    let p ← item s
    if ← takeChar ']' then return ([p.1], p.2)
    else
      expect ','
      let q ← items item n p.2
      return (p.1 :: q.1, q.2)

/-- A list of at most so many items. -/
def array (item : σ → ByteParser (α × σ)) (most : ℕ) (s : σ) : ByteParser (List α × σ) := do
  expect '['
  if ← takeChar ']' then return ([], s)
  else items item most s

/-- What holds of a list where each item may depend on those before it. -/
def Chain (ok : σ → ι → Prop) (next : σ → ι → σ) : σ → List ι → Prop
  | _, [] => True
  | s, x :: xs => ok s x ∧ Chain ok next (next s x) xs

/-- How a parser of items reads them: an item `x` that is in order is read as `view x` from its
text, and `next` says what is remembered then. -/
structure Reads (item : σ → ByteParser (α × σ)) (ok : σ → ι → Prop) (next : σ → ι → σ)
    (view : ι → α) (text : ι → Text) : Prop where
  eq_some : ∀ {s l a s' r}, item s l = some ((a, s'), r) ↔
    ∃ x, ok s x ∧ a = view x ∧ s' = next s x ∧ l = Utf8.encode (text x) ++ r
  /-- No item looks like the end of the list. -/
  head_ne : ∀ {s x}, ok s x → ∃ c t, text x = c :: t ∧ c.toNat < 0x80 ∧ c ≠ ']'

variable {item : σ → ByteParser (α × σ)} {ok : σ → ι → Prop} {next : σ → ι → σ} {view : ι → α}
  {text : ι → Text}

/-- A text that begins with another character does not begin with this one. -/
theorem head?_encode_ne {c d : Char} {t : Text} (hc : c.toNat < 0x80) (hd : d.toNat < 0x80)
    (hne : c ≠ d) (r : List UInt8) :
    (Utf8.encode (c :: t) ++ r).head? ≠ some (Utf8.asciiByte d) := by
  rw [Utf8.encode_cons, Utf8.utf8EncodeChar_of_ascii hc]
  exact fun h => hne (Utf8.asciiByte_injective hc hd (Option.some.inj h))

theorem commaJoin_cons_ne {t : Text} {ts : List Text} (h : ts ≠ []) :
    commaJoin (t :: ts) = t ++ ',' :: commaJoin ts := by
  cases ts with
  | nil => exact absurd rfl h
  | cons u ts => rfl

theorem encode_items_cons {x : ι} {xs : List ι} (hne : xs ≠ []) (r : List UInt8) :
    Utf8.encode (commaJoin ((x :: xs).map text) ++ [']']) ++ r = Utf8.encode (text x) ++
      (Utf8.encode [','] ++ (Utf8.encode (commaJoin (xs.map text) ++ [']']) ++ r)) := by
  rw [List.map_cons, commaJoin_cons_ne (by simpa using hne), List.append_assoc, List.cons_append,
    ← List.singleton_append, Utf8.encode_append, Utf8.encode_append, List.append_assoc,
    List.append_assoc]

theorem items_eq_some (h : Reads item ok next view text) {n : ℕ} {s s' : σ} {as : List α} :
    items item n s l = some ((as, s'), r) ↔ ∃ xs, xs ≠ [] ∧ xs.length ≤ n ∧ Chain ok next s xs ∧
      as = xs.map view ∧ s' = xs.foldl next s ∧
        l = Utf8.encode (commaJoin (xs.map text) ++ [']']) ++ r := by
  induction n generalizing s l as with
  | zero =>
    refine iff_of_false (by rintro ⟨⟩) ?_
    rintro ⟨xs, hne, hlen, -⟩
    exact hne (List.length_eq_zero_iff.mp (Nat.le_zero.mp hlen))
  | succ n ih =>
    simp only [items, bind_eq_some]
    constructor
    · rintro ⟨⟨a, s₁⟩, m, hitem, found, m₁, htake, hrest⟩
      obtain ⟨x, hx, rfl, rfl, rfl⟩ := h.eq_some.mp hitem
      -- After an item comes the end of the list or a comma.
      cases found with
      | true =>
        obtain rfl := (takeChar_eq_true (by decide)).mp htake
        obtain ⟨heq, rfl⟩ := pure_eq_some.mp hrest
        obtain ⟨rfl, rfl⟩ := Prod.mk.inj heq
        refine ⟨[x], List.cons_ne_nil x [], by simp, ⟨hx, trivial⟩, rfl, rfl, ?_⟩
        rw [List.map_singleton, commaJoin, Utf8.encode_append, List.append_assoc]
      | false =>
        obtain ⟨-, rfl⟩ := takeChar_eq_false.mp htake
        simp only [Bool.false_eq_true, if_false, bind_eq_some] at hrest
        obtain ⟨_, m₂, hcomma, ⟨as', s₂⟩, m₃, hitems, hrest⟩ := hrest
        obtain rfl := (expect_eq_some (by decide)).mp hcomma
        obtain ⟨heq, rfl⟩ := pure_eq_some.mp hrest
        obtain ⟨rfl, rfl⟩ := Prod.mk.inj heq
        obtain ⟨xs, hne, hlen, hxs, rfl, rfl, rfl⟩ := ih.mp hitems
        refine ⟨x :: xs, List.cons_ne_nil x xs, by simpa using hlen, ⟨hx, hxs⟩, rfl, rfl, ?_⟩
        rw [encode_items_cons hne]
    · rintro ⟨xs, hne, hlen, hxs, rfl, rfl, rfl⟩
      -- The last item is the one before the bracket.
      cases xs with
      | nil => exact absurd rfl hne
      | cons x xs =>
        obtain ⟨hx, hxs⟩ := hxs
        by_cases hxs_ne : xs = []
        · subst hxs_ne
          refine ⟨(view x, next s x), Utf8.encode [']'] ++ r,
            h.eq_some.mpr ⟨x, hx, rfl, rfl, ?_⟩, true, r, (takeChar_eq_true (by decide)).mpr rfl,
            pure_eq_some.mpr ⟨rfl, rfl⟩⟩
          rw [List.map_singleton, commaJoin, Utf8.encode_append, List.append_assoc]
        · have hnot := head?_encode_ne (c := ',') (d := ']') (t := []) (by decide) (by decide)
            (by decide) (Utf8.encode (commaJoin (xs.map text) ++ [']']) ++ r)
          refine ⟨(view x, next s x), _,
            h.eq_some.mpr ⟨x, hx, rfl, rfl, encode_items_cons hxs_ne r⟩, false, _,
            takeChar_eq_false.mpr ⟨hnot, rfl⟩, ?_⟩
          simp only [Bool.false_eq_true, if_false, bind_eq_some]
          have hlen' : xs.length ≤ n := by simpa using hlen
          exact ⟨(), _, (expect_eq_some (by decide)).mpr rfl, _, r,
            ih.mpr ⟨xs, hxs_ne, hlen', hxs, rfl, rfl, rfl⟩, pure_eq_some.mpr ⟨rfl, rfl⟩⟩

/-- **What a list is read from** is the text of its items, which are in order one after the
other. -/
theorem array_eq_some (h : Reads item ok next view text) {most : ℕ} {s s' : σ} {as : List α} :
    array item most s l = some ((as, s'), r) ↔ ∃ xs, xs.length ≤ most ∧ Chain ok next s xs ∧
      as = xs.map view ∧ s' = xs.foldl next s ∧
        l = Utf8.encode (listText (xs.map text)) ++ r := by
  simp only [array, bind_eq_some, expect_eq_some (show '['.toNat < 0x80 by decide)]
  constructor
  · rintro ⟨_, m, rfl, found, m₁, htake, hrest⟩
    cases found with
    | true =>
      obtain rfl := (takeChar_eq_true (by decide)).mp htake
      obtain ⟨heq, rfl⟩ := pure_eq_some.mp hrest
      obtain ⟨rfl, rfl⟩ := Prod.mk.inj heq
      exact ⟨[], Nat.zero_le _, trivial, rfl, rfl, rfl⟩
    | false =>
      obtain ⟨-, rfl⟩ := takeChar_eq_false.mp htake
      obtain ⟨xs, -, hlen, hxs, rfl, rfl, rfl⟩ := (items_eq_some h).mp hrest
      exact ⟨xs, hlen, hxs, rfl, rfl, rfl⟩
  · rintro ⟨xs, hlen, hxs, rfl, rfl, rfl⟩
    refine ⟨(), _, rfl, ?_⟩
    cases xs with
    | nil =>
      exact ⟨true, r, (takeChar_eq_true (by decide)).mpr rfl, pure_eq_some.mpr ⟨rfl, rfl⟩⟩
    | cons x xs =>
      -- No item starts with the bracket that would end the list.
      obtain ⟨c, t, htext, hc, hne⟩ := h.head_ne hxs.1
      have hbegin : ∃ u, commaJoin ((x :: xs).map text) ++ [']'] = c :: u := by
        rw [List.map_cons, htext]
        cases xs <;> exact ⟨_, rfl⟩
      obtain ⟨u, hu⟩ := hbegin
      refine ⟨false, _, takeChar_eq_false.mpr ⟨?_, rfl⟩,
        (items_eq_some h).mpr ⟨x :: xs, List.cons_ne_nil x xs, hlen, hxs, rfl, rfl, rfl⟩⟩
      rw [hu]
      exact head?_encode_ne hc (by decide) hne r

/-! ### Fields one after the other -/

/-- What stands in front of a value: the character before its key, the key, and a colon. -/
def fieldStart (c : Char) (k : String) (m : List UInt8) : List UInt8 :=
  Utf8.encode [c] ++ (Utf8.encode (quote k) ++ (Utf8.encode [':'] ++ m))

/-- The bytes of the fields that are left of a dictionary, with what follows it. -/
def fieldsText (r : List UInt8) : List (String × Text) → List UInt8
  | [] => Utf8.encode ['}'] ++ r
  | f :: fs => fieldStart ',' f.1 (Utf8.encode f.2 ++ fieldsText r fs)

/-- **The text of a dictionary**, from the front. -/
theorem encode_objText (k : String) (t : Text) (fs : List (String × Text)) (r : List UInt8) :
    Utf8.encode (objText ((k, t) :: fs)) ++ r =
      fieldStart '{' k (Utf8.encode t ++ fieldsText r fs) := by
  have hfields : Utf8.encode (commaJoin (((k, t) :: fs).map fieldText) ++ ['}']) ++ r =
      Utf8.encode (quote k) ++ (Utf8.encode [':'] ++ (Utf8.encode t ++ fieldsText r fs)) := by
    induction fs generalizing k t with
    | nil =>
      rw [List.map_singleton, commaJoin, fieldText, ← List.singleton_append, Utf8.encode_append,
        Utf8.encode_append, Utf8.encode_append, List.append_assoc, List.append_assoc,
        List.append_assoc, fieldsText]
    | cons f fs ih =>
      obtain ⟨k', t'⟩ := f
      have hrest : commaJoin (((k, t) :: (k', t') :: fs).map fieldText) ++ ['}'] = quote k ++
          ([':'] ++ (t ++ ([','] ++ (commaJoin (((k', t') :: fs).map fieldText) ++ ['}'])))) := by
        rw [List.map_cons, commaJoin_cons_ne (by simp), fieldText]
        simp only [List.append_assoc, List.cons_append, List.nil_append]
      rw [hrest, Utf8.encode_append, Utf8.encode_append, Utf8.encode_append, Utf8.encode_append,
        List.append_assoc, List.append_assoc, List.append_assoc, List.append_assoc, ih k' t',
        fieldsText, fieldStart]
  rw [objText, ← List.singleton_append, Utf8.encode_append, List.append_assoc, hfields, fieldStart]

end ByteParser
