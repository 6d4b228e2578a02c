import Palimpsest.Lib.JsonLoads
import Palimpsest.Lib.JsonWidth

/-!
# JSON in ASCII

The strings that `json.dumps` writes by default, with every character that is not a printable
one of ASCII escaped (`Json.asciiQuote`); of plain characters they are what they are without that
(`Json.asciiQuote_of_plain`).

Without a hook `json.loads` takes dictionaries with a key twice, of whose values the last one
counts (`Json.loadsFields`). The fields that are written are read back
(`Json.loadsFields_commaJoin`).
-/

namespace Json

/-- A code of sixteen bits. -/
def unicodeEscape (n : ℕ) : Text :=
  ['\\', 'u', hexDigit (n / 4096), hexDigit (n / 256 % 16), hexDigit (n / 16 % 16),
    hexDigit (n % 16)]

/-- A character inside a string of ASCII. Beyond sixteen bits it is a pair of surrogates. -/
def asciiChar (c : Char) : Text :=
  if c = '"' then ['\\', '"']
  else if c = '\\' then ['\\', '\\']
  else if c = '\n' then ['\\', 'n']
  else if c = '\r' then ['\\', 'r']
  else if c = '\t' then ['\\', 't']
  else if c = '\x0c' then ['\\', 'f']
  else if c = '\x08' then ['\\', 'b']
  else if 0x20 ≤ c.toNat ∧ c.toNat < 0x7f then [c]
  else if c.toNat < 0x10000 then unicodeEscape c.toNat
  else unicodeEscape (0xd800 + (c.toNat - 0x10000) / 0x400) ++
    unicodeEscape (0xdc00 + (c.toNat - 0x10000) % 0x400)

/-- A string in its quotes, in ASCII. -/
def asciiQuote (s : String) : Text := '"' :: (s.toList.flatMap asciiChar ++ ['"'])

theorem asciiQuote_of_plain {s : String} (h : ∀ c ∈ s.toList, isPlain c) :
    asciiQuote s = '"' :: (s.toList ++ ['"']) := by
  have hself : ∀ l : Text, (∀ c ∈ l, isPlain c) → l.flatMap asciiChar = l := by
    intro l hl
    induction l with
    | nil => rfl
    | cons c l ih =>
      obtain ⟨hc, hl⟩ := List.forall_mem_cons.mp hl
      simp only [isPlain, Bool.and_eq_true, decide_eq_true_eq] at hc
      have hother : ∀ e : Char, e.toNat < 0x20 → c ≠ e := by
        rintro e he rfl
        omega
      have hchar : asciiChar c = [c] := by
        rw [asciiChar, if_neg hc.1.2, if_neg hc.2, if_neg (hother _ (by decide)),
          if_neg (hother _ (by decide)), if_neg (hother _ (by decide)),
          if_neg (hother _ (by decide)), if_neg (hother _ (by decide)), if_pos (by omega)]
      rw [List.flatMap_cons, hchar, ih hl]
      rfl
  rw [asciiQuote, hself _ h]

/-- Plain characters are written in the same way where other characters are left as they are. -/
theorem quote_eq_asciiQuote {s : String} (h : ∀ c ∈ s.toList, isPlain c) :
    quote s = asciiQuote s := by
  rw [asciiQuote_of_plain h, quote, escape_of_plain h]

/-- The fields of a text that is a dictionary, as they are written. -/
def loadsFields (t : Text) : Option (List (String × Value)) :=
  match skipBlanks t with
  | '{' :: t =>
    match skipBlanks t with
    | '}' :: rest => if skipBlanks rest = [] then some [] else none
    | t =>
      match scanFields (2 * t.length + 2) t with
      | .ok (fields, rest) => if skipBlanks rest = [] then some fields else none
      | .error _ => none
  | _ => none

/-- **The fields of a dictionary are read back.** -/
theorem loadsFields_commaJoin {z : List (String × Value × Text)} (hne : z ≠ [])
    (hdistinct : ∀ p ∈ z, p.2.1.Distinct) (hdumps : ∀ p ∈ z, dumps p.2.1 = some p.2.2) :
    loadsFields ('{' :: (commaJoin (z.map fun p => fieldText (p.1, p.2.2)) ++ ['}'])) =
      some (z.map fun p => (p.1, p.2.1.sorted)) := by
  obtain ⟨u, hcons⟩ : ∃ u, commaJoin (z.map fun p => fieldText (p.1, p.2.2)) ++ ['}'] =
      '"' :: u := by
    obtain ⟨p, z, rfl⟩ := List.exists_cons_of_ne_nil hne
    cases z with
    | nil => exact ⟨_, rfl⟩
    | cons q z => exact ⟨_, rfl⟩
  have hscan := scanFields_commaJoin hne (fun p hp => reads_of_distinct (hdistinct p hp)) hdumps []
    (2 * ('"' :: u).length + 2) (by rw [← hcons, List.length_append]; omega)
  rw [hcons] at hscan ⊢
  simp only [loadsFields, skipBlanks_cons (by decide : isBlank '{' = false),
    skipBlanks_cons (by decide : isBlank '"' = false)]
  split
  case h_1 heq => cases heq
  case h_2 =>
    rw [hscan]
    rfl

end Json
