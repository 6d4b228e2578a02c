import Mathlib.Data.Bool.AllAny
import Palimpsest.Control.Grammar
import Palimpsest.Lib.Base64
import Palimpsest.Lib.JsonAscii

/-!
# Cursors of the package registry

A listing is asked for page by page, and a cursor says where the next page begins: behind a
package name, or behind the time of a push and the digest that was pushed (`Position`). A cursor
is for one listing of one actor, with the hash of which it is bound (`cursorBinding`). It is a
JSON text in base64 without the padding (`makeCursor`), and what the registry reads from a cursor
it has made is where the next page begins (`readCursor_makeCursor`).
-/

namespace Palimpsest.Hub.Listing

open Json Control

/-- `RegistryError` -/
structure RegistryError where
  status : ℕ
  code : String
  message : String
  deriving DecidableEq

/-- The packages a key is for. -/
inductive Scope
  /-- `{"all_packages": true}` -/
  | allPackages
  /-- `{"packages": [...]}` -/
  | packages (names : List String)
  deriving DecidableEq

/-- `Actor`, as far as listings need one. -/
structure Actor where
  projectId : String
  namespaceName : String
  keyId : Option String
  scope : Scope
  actions : List String
  canWrite : Bool

/-! ### The texts -/

/-- Texts in brackets, with what stands between any two. -/
def bracketed (sep : Text) (l : List Text) : Text := '[' :: ((sep.intercalate l) ++ [']'])

def nullable : Option String → Text
  | none => "null".toList
  | some s => asciiQuote s

def Scope.text : Scope → Text
  | allPackages => "\x7b\"all_packages\": true\x7d".toList
  | packages names =>
    "\x7b\"packages\": ".toList ++ bracketed ", ".toList (names.map asciiQuote) ++ ['}']

/-- `cursor_binding` -/
def cursorBinding (actor : Actor) (kind : String) (extra : Option String) : String :=
  String.ofList (hexText (Sha256.digest (encodeUtf8 (bracketed ", ".toList
    [asciiQuote actor.projectId, asciiQuote actor.namespaceName, nullable actor.keyId,
      actor.scope.text, asciiQuote kind, nullable extra]))))

/-- Behind what a page begins. -/
inductive Position
  | package (name : String)
  | version (pushedAt rootDigest : String)

def Position.text : Position → Text
  | package name => asciiQuote name
  | version pushedAt rootDigest =>
    '[' :: (commaJoin [asciiQuote pushedAt, asciiQuote rootDigest] ++ [']'])

/-- `make_cursor` -/
def makeCursor (binding : String) (after : Position) : Text :=
  (Base64.encode (encodeUtf8 ('{' :: (commaJoin [fieldText ("binding", asciiQuote binding),
    fieldText ("after", after.text)] ++ ['}'])))).rdropWhile (· = '=')

/-- What a cursor says, if it is for this listing. -/
def cursorValue (cursor : Text) (binding : String) : Option Value := do
  if 2048 < cursor.length then none
  let fields ← loadsFields (← decodeUtf8 (← Base64.decode (cursor ++ Base64.padding cursor)))
  -- of a key that is there twice the last value counts
  let value := fields.reverse
  if "binding" ∈ keys value ∧ "after" ∈ keys value ∧
      (∀ k ∈ keys value, k = "binding" ∨ k = "after") ∧
      lookup "binding" value = some (.str binding) then
    lookup "after" value
  else none

/-- `read_cursor`, of cursors in UTF-8. -/
def readCursor (cursor : Option Text) (binding : String) :
    Except RegistryError (Option Value) :=
  match cursor with
  | none | some [] => .ok none
  | some cursor =>
    match cursorValue cursor binding with
    | none => .error ⟨422, "INVALID_CURSOR", "invalid pagination cursor"⟩
    | some .null => .ok none
    | some after => .ok (some after)

/-! ### A cursor is read back -/

/-- The value a cursor is read as. -/
def Position.value : Position → Value
  | package name => .str name
  | version pushedAt rootDigest => .list [.str pushedAt, .str rootDigest]

/-- The texts are of plain characters, and short enough for a cursor. -/
def Position.Plain : Position → Prop
  | package name => (∀ c ∈ name.toList, isPlain c) ∧ name.toList.length ≤ 256
  | version pushedAt rootDigest =>
    ((∀ c ∈ pushedAt.toList, isPlain c) ∧ ∀ c ∈ rootDigest.toList, isPlain c) ∧
      pushedAt.toList.length + rootDigest.toList.length ≤ 256

theorem dumps_value {after : Position} (h : after.Plain) :
    dumps after.value = some after.text := by
  cases after with
  | package name => rw [Position.value, dumps, quote_eq_asciiQuote h.1, Position.text]
  | version pushedAt rootDigest =>
    simp only [Position.value, dumps, dumpsItems, Option.bind_some, Option.map_some,
      quote_eq_asciiQuote h.1.1, quote_eq_asciiQuote h.1.2, Position.text]

theorem sorted_value (after : Position) : after.value.sorted = after.value := by
  cases after <;> rfl

theorem distinct_value (after : Position) : after.value.Distinct := by
  cases after with
  | package name => trivial
  | version pushedAt rootDigest => exact ⟨trivial, trivial, trivial⟩

/-- The text of a cursor before it is encoded. -/
def cursorText (binding : String) (after : Position) : Text :=
  '{' :: (commaJoin [fieldText ("binding", asciiQuote binding), fieldText ("after", after.text)] ++
    ['}'])

theorem plain_position {after : Position} (h : after.Plain) :
    (∀ c ∈ after.text, c.toNat < 128) ∧ after.text.length ≤ 263 := by
  have hascii : ∀ c, isPlain c → c.toNat < 128 := fun c hc => by
    simp only [isPlain, Bool.and_eq_true, decide_eq_true_eq] at hc
    omega
  -- Plain texts are quoted without an escape.
  have hquote : ∀ s : String, (∀ c ∈ s.toList, isPlain c) → ∀ c ∈ asciiQuote s, c.toNat < 128 := by
    intro s hs c hc
    rw [asciiQuote_of_plain hs, List.mem_cons, List.mem_append, List.mem_singleton] at hc
    rcases hc with rfl | hc | rfl
    · decide
    · exact hascii c (hs c hc)
    · decide
  cases after with
  | package name =>
    refine ⟨hquote name h.1, ?_⟩
    have := h.2
    rw [Position.text, asciiQuote_of_plain h.1, List.length_cons, List.length_append,
      List.length_singleton]
    omega
  | version pushedAt rootDigest =>
    refine ⟨fun c hc => ?_, ?_⟩
    · simp only [Position.text, commaJoin, List.mem_cons, List.mem_append, List.not_mem_nil,
        or_false] at hc
      rcases hc with rfl | (hc | rfl | hc) | rfl
      · decide
      · exact hquote pushedAt h.1.1 c hc
      · decide
      · exact hquote rootDigest h.1.2 c hc
      · decide
    · have := h.2
      simp only [Position.text, commaJoin, asciiQuote_of_plain h.1.1, asciiQuote_of_plain h.1.2,
        List.length_cons, List.length_append, List.length_nil]
      omega

theorem plain_cursorBinding (actor : Actor) (kind : String) (extra : Option String) :
    (∀ c ∈ (cursorBinding actor kind extra).toList, isPlain c) ∧
      (cursorBinding actor kind extra).toList.length = 64 := by
  rw [cursorBinding, String.toList_ofList, length_hexText, Sha256.length_digest]
  exact ⟨fun c hc => isPlain_of_isHex (isHex_of_mem_hexText hc), rfl⟩

theorem loadsFields_cursorText {binding : String} {after : Position}
    (hbinding : ∀ c ∈ binding.toList, isPlain c) (hafter : after.Plain) :
    loadsFields (cursorText binding after) =
      some [("binding", .str binding), ("after", after.value)] := by
  have hdumps : dumps (.str binding) = some (asciiQuote binding) := by
    rw [dumps, quote_eq_asciiQuote hbinding]
  have hread := loadsFields_commaJoin
    (z := [("binding", .str binding, asciiQuote binding), ("after", after.value, after.text)])
    (by simp) (by simp [distinct_value, Value.Distinct]) (by simp [hdumps, dumps_value hafter])
  rw [List.map_cons, List.map_cons, List.map_nil, List.map_cons, List.map_cons, List.map_nil,
    sorted_value] at hread
  exact hread

/-- A cursor is short, and of ASCII characters before it is encoded. -/
theorem length_cursorText {binding : String} {after : Position}
    (hbinding : ∀ c ∈ binding.toList, isPlain c) (hlength : binding.toList.length = 64)
    (hafter : after.Plain) : (encodeUtf8 (cursorText binding after)).length ≤ 360 := by
  obtain ⟨hascii, hshort⟩ := plain_position hafter
  have hkeys : quote "binding" = "\"binding\"".toList ∧ quote "after" = "\"after\"".toList := by
    decide
  have htext : cursorText binding after = "\x7b\"binding\":\"".toList ++ binding.toList ++
      "\",\"after\":".toList ++ after.text ++ ['}'] := by
    simp [cursorText, commaJoin, fieldText, hkeys, asciiQuote_of_plain hbinding]
  have hplain : ∀ c ∈ cursorText binding after, c.toNat < 128 := by
    have hfixed : ∀ c ∈ "\x7b\"binding\":\"".toList ++ "\",\"after\":".toList ++ ['}'],
        c.toNat < 128 := by
      rw [← List.all_iff_forall_prop]
      decide
    intro c hc
    rw [htext] at hc
    simp only [List.mem_append] at hc hfixed
    rcases hc with (((hc | hc) | hc) | hc) | hc
    · exact hfixed c (Or.inl (Or.inl hc))
    · have hc := hbinding c hc
      simp only [isPlain, Bool.and_eq_true, decide_eq_true_eq] at hc
      omega
    · exact hfixed c (Or.inl (Or.inr hc))
    · exact hascii c hc
    · exact hfixed c (Or.inr hc)
  have hfirst : "\x7b\"binding\":\"".toList.length = 12 := rfl
  have hsecond : "\",\"after\":".toList.length = 10 := rfl
  rw [length_encodeUtf8, byteLength_of_ascii hplain, htext]
  simp only [List.length_append, List.length_singleton, hfirst, hsecond, hlength]
  omega

/-- **What is read from a cursor is what it was made with.** -/
theorem readCursor_makeCursor {actor : Actor} {kind : String} {extra : Option String}
    {after : Position} (hafter : after.Plain) :
    readCursor (some (makeCursor (cursorBinding actor kind extra) after))
      (cursorBinding actor kind extra) = .ok (some after.value) := by
  obtain ⟨hbinding, hlength⟩ := plain_cursorBinding actor kind extra
  generalize cursorBinding actor kind extra = binding at hbinding hlength ⊢
  have hmake : makeCursor binding after =
      Base64.digits (encodeUtf8 (cursorText binding after)) := Base64.rdropWhile_encode _
  have hbytes := length_cursorText hbinding hlength hafter
  have hdigits := Base64.length_digits (encodeUtf8 (cursorText binding after))
  have hdecode := Base64.decode_encode (encodeUtf8 (cursorText binding after))
  rw [Base64.encode] at hdecode
  have hshort : ¬2048 < (makeCursor binding after).length := by
    rw [hmake]
    omega
  have hvalue : cursorValue (makeCursor binding after) binding = some after.value := by
    rw [cursorValue, if_neg hshort, hmake]
    simp only [hdecode, Option.bind_eq_bind, Option.bind_some, decodeUtf8_encodeUtf8,
      loadsFields_cursorText hbinding hafter]
    simp [keys, lookup]
  -- no cursor is empty, as an empty one says nothing
  have hne : makeCursor binding after ≠ [] := by
    intro hnil
    have hempty : encodeUtf8 (cursorText binding after) = encodeUtf8 [] :=
      Base64.eq_nil_of_digits (hmake ▸ hnil)
    have hdecoded := decodeUtf8_encodeUtf8 (cursorText binding after)
    rw [hempty, decodeUtf8_encodeUtf8] at hdecoded
    cases hdecoded
  obtain ⟨c, t, hcons⟩ := List.exists_cons_of_ne_nil hne
  rw [hcons] at hvalue ⊢
  simp only [readCursor, hvalue]
  cases after with
  | package name => rfl
  | version pushedAt rootDigest => rfl

end Palimpsest.Hub.Listing
