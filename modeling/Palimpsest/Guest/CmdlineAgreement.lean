import Mathlib.Data.Bool.AllAny
import Palimpsest.Guest.KernelCmdline
import Palimpsest.Lib.Partition
import Palimpsest.Lib.Results

/-!
# Where the two readers of the command line agree

Both readers look at the words of the line that begin with `palimpsest.`, and accept them when
they are, in any order, the six fields of bindings that pass the same checks
(`Palimpsest.Guest.Reference.parse_eq_ok`, `Palimpsest.Guest.Init.parse_eq_some`). What a word
is they do not agree on: a carriage return, a form feed or another of the rarer white space
characters ends a word of the reference and is part of a word of the guest. The main result
says of every line whether that makes a difference
(`Palimpsest.Guest.cmdline_agrees_iff`).
-/

namespace Palimpsest.Guest

/-! ### Fields -/

/-- A field of the command line. -/
def fieldOf (k : Key) (value : List UInt8) : List UInt8 := k.text ++ 61 :: value

theorem Key.not_mem_text (k : Key) : 61 ∉ k.text := by cases k <;> decide

theorem Key.text_inj {k k' : Key} (h : k.text = k'.text) : k = k' := by
  revert h
  cases k <;> cases k' <;> decide

theorem Key.find?_text (k : Key) : Key.all.find? (·.text = k.text) = some k := by
  cases k <;> decide

theorem palimpsest_isPrefix (k : Key) (value : List UInt8) : palimpsest <+: fieldOf k value := by
  have htext : palimpsest <+: k.text := by cases k <;> decide
  exact htext.trans (List.prefix_append ..)

theorem fieldOf_inj {k k' : Key} {v v' : List UInt8} (h : fieldOf k v = fieldOf k' v') :
    k = k' ∧ v = v' := by
  obtain ⟨htext, hvalue⟩ := Partition.append_inj k.not_mem_text k'.not_mem_text h
  exact ⟨Key.text_inj htext, hvalue⟩

/-- A word as a reader takes it: one that is not Palimpsest's is passed over, a field that is
not empty and not there yet is kept. -/
inductive Takes (values : Values) : List UInt8 → Values → Prop
  | skip {token : List UInt8} (h : ¬palimpsest <+: token) : Takes values token values
  | field (k : Key) (value : List UInt8) (hne : value ≠ []) (hnew : values k = none) :
      Takes values (fieldOf k value) (Function.update values k (some value))

/-- Words as a reader takes them, one after the other. -/
inductive Reads : Values → List (List UInt8) → Values → Prop
  | nil (values : Values) : Reads values [] values
  | cons {values values' values'' : Values} {token : List UInt8} {tokens : List (List UInt8)}
      (h : Takes values token values') (hrest : Reads values' tokens values'') :
      Reads values (token :: tokens) values''

/-- The words that are Palimpsest's. -/
def fieldsAmong (tokens : List (List UInt8)) : List (List UInt8) :=
  tokens.filter fun t => palimpsest <+: t

theorem fieldsAmong_cons_of_not {t : List UInt8} (h : ¬palimpsest <+: t)
    (tokens : List (List UInt8)) : fieldsAmong (t :: tokens) = fieldsAmong tokens :=
  List.filter_cons_of_neg (by simpa using h)

theorem fieldsAmong_cons (k : Key) (value : List UInt8) (tokens : List (List UInt8)) :
    fieldsAmong (fieldOf k value :: tokens) = fieldOf k value :: fieldsAmong tokens :=
  List.filter_cons_of_pos (by simpa using palimpsest_isPrefix k value)

/-- What a reader takes of words: fields of different keys, none of them empty. -/
theorem Reads.exists_fields {values values' : Values} {tokens : List (List UInt8)}
    (h : Reads values tokens values') : ∃ l : List (Key × List UInt8),
      fieldsAmong tokens = l.map (fun f => fieldOf f.1 f.2) ∧ (l.map Prod.fst).Nodup ∧
      (∀ f ∈ l, values f.1 = none ∧ f.2 ≠ [] ∧ values' f.1 = some f.2) ∧
      ∀ k ∉ l.map Prod.fst, values' k = values k := by
  induction h with
  | nil values => exact ⟨[], rfl, List.nodup_nil, by simp, fun _ _ => rfl⟩
  | cons htakes _ ih =>
    obtain ⟨l, hl, hnodup, hmem, hother⟩ := ih
    cases htakes with
    | skip hnot => exact ⟨l, (fieldsAmong_cons_of_not hnot _).trans hl, hnodup, hmem, hother⟩
    | field k value hne hnew =>
      have hk : k ∉ l.map Prod.fst := by
        intro hk
        obtain ⟨f, hf, rfl⟩ := List.mem_map.mp hk
        simpa using (hmem f hf).1
      refine ⟨(k, value) :: l, ?_, List.nodup_cons.mpr ⟨hk, hnodup⟩, ?_, ?_⟩
      · rw [fieldsAmong_cons, hl, List.map_cons]
      · rw [List.forall_mem_cons]
        refine ⟨⟨hnew, hne, ?_⟩, fun f hf => ?_⟩
        · rw [hother k hk, Function.update_self]
        · have hne' : f.1 ≠ k := fun heq => hk (List.mem_map.mpr ⟨f, hf, heq⟩)
          have hf' := hmem f hf
          rwa [Function.update_of_ne hne'] at hf'
      · intro k' hk'
        rw [List.map_cons, List.mem_cons, not_or] at hk'
        rw [hother k' hk'.2, Function.update_of_ne hk'.1]

/-- Words whose fields are those of a number of keys, in any order, are taken. -/
theorem reads_of_perm {vals : Key → List UInt8} (hvals : ∀ k, vals k ≠ []) {keys : List Key}
    (hkeys : keys.Nodup) {tokens : List (List UInt8)} {values : Values}
    (hperm : (fieldsAmong tokens).Perm (keys.map fun k => fieldOf k (vals k)))
    (hnew : ∀ k ∈ keys, values k = none) :
    Reads values tokens fun k => if k ∈ keys then some (vals k) else values k := by
  induction tokens generalizing keys values with
  | nil =>
    have hnil : keys = [] := by simpa using hperm.symm.eq_nil
    subst hnil
    simpa using Reads.nil values
  | cons token tokens ih =>
    -- A field is one of the keys that are left; any other word is passed over.
    by_cases hpal : palimpsest <+: token
    · have hmem : token ∈ keys.map fun k => fieldOf k (vals k) :=
        hperm.subset (List.mem_filter.mpr ⟨List.mem_cons_self, by simpa using hpal⟩)
      obtain ⟨k, hk, rfl⟩ := List.mem_map.mp hmem
      refine .cons (.field k (vals k) (hvals k) (hnew k hk)) ?_
      have hrest : (fieldsAmong tokens).Perm ((keys.erase k).map fun k => fieldOf k (vals k)) := by
        have hsplit := (List.perm_cons_erase hk).map fun k => fieldOf k (vals k)
        rw [fieldsAmong_cons] at hperm
        exact (List.perm_cons _).mp (hperm.trans hsplit)
      have hreads : Reads (Function.update values k (some (vals k))) tokens _ :=
        ih (hkeys.erase k) hrest fun k' hk' => by
          have hne : k' ≠ k := fun heq => hkeys.not_mem_erase (heq ▸ hk')
          rw [Function.update_of_ne hne]
          exact hnew k' (List.mem_of_mem_erase hk')
      convert hreads using 1
      funext k'
      by_cases heq : k' = k
      · subst heq
        simp [hk, hkeys.not_mem_erase]
      · simp [List.mem_erase_of_ne heq, Function.update_of_ne heq]
    · rw [fieldsAmong_cons_of_not hpal] at hperm
      exact .cons (.skip hpal) (ih hkeys hperm hnew)

theorem Key.nodup_all : Key.all.Nodup := by decide

/-- **Six fields are taken, when the words have exactly these**, in any order. -/
theorem reads_iff {tokens : List (List UInt8)} {vals : Key → List UInt8} :
    Reads (fun _ => none) tokens (fun k => some (vals k)) ↔
      (∀ k, vals k ≠ []) ∧ (fieldsAmong tokens).Perm (Key.all.map fun k => fieldOf k (vals k)) := by
  constructor
  · intro h
    obtain ⟨l, hl, hnodup, hmem, hother⟩ := h.exists_fields
    have hall : ∀ k, k ∈ l.map Prod.fst := by
      intro k
      by_contra hk
      cases hother k hk
    have hval : ∀ f ∈ l, f.2 = vals f.1 := fun f hf => (Option.some.inj (hmem f hf).2.2).symm
    constructor
    · intro k
      obtain ⟨f, hf, rfl⟩ := List.mem_map.mp (hall k)
      rw [← hval f hf]
      exact (hmem f hf).2.1
    · have hkeys : (l.map Prod.fst).Perm Key.all :=
        (List.perm_ext_iff_of_nodup hnodup Key.nodup_all).mpr fun k =>
          iff_of_true (hall k) k.mem_all
      have hfields : l.map (fun f => fieldOf f.1 f.2) =
          (l.map Prod.fst).map fun k => fieldOf k (vals k) := by
        rw [List.map_map]
        exact List.map_congr_left fun f hf => congrArg (fieldOf f.1) (hval f hf)
      rw [hl, hfields]
      exact hkeys.map _
  · rintro ⟨hvals, hperm⟩
    have hreads : Reads (fun _ => none) tokens _ :=
      reads_of_perm hvals Key.nodup_all hperm fun _ _ => rfl
    simpa only [Key.mem_all, if_true] using hreads

/-! ### Both loops take words -/

/-- What a word must be for a field to be taken of it. -/
theorem takes_iff_of_isPrefix {values values' : Values} {token : List UInt8}
    (h : palimpsest <+: token) : Takes values token values' ↔
      ∃ k value, token = fieldOf k value ∧ value ≠ [] ∧ values k = none ∧
        values' = Function.update values k (some value) := by
  constructor
  · rintro (hnot | ⟨k, value, hne, hnew⟩)
    · exact absurd h hnot
    · exact ⟨k, value, rfl, hne, hnew, rfl⟩
  · rintro ⟨k, value, rfl, hne, hnew, rfl⟩
    exact .field k value hne hnew

theorem takes_iff_of_not {values values' : Values} {token : List UInt8}
    (h : ¬palimpsest <+: token) : Takes values token values' ↔ values' = values := by
  constructor
  · rintro (_ | ⟨k, value, -, -⟩)
    · rfl
    · exact absurd (palimpsest_isPrefix k value) h
  · rintro rfl
    exact .skip h

namespace Reference

theorem readToken_eq_ok {values values' : Values} {token : List UInt8} :
    readToken values token = .ok values' ↔ Takes values token values' := by
  rw [readToken]
  by_cases hpal : palimpsest <+: token
  · rw [if_neg (not_not.mpr hpal), takes_iff_of_isPrefix hpal]
    by_cases heq : 61 ∈ token
    · rw [if_neg (not_not.mpr heq)]
      -- The word is cut at its first `=`.
      have htoken := Partition.eq_of_mem heq
      set key := token.takeWhile (· ≠ 61)
      set value := (token.dropWhile (· ≠ 61)).drop 1
      have hkey : 61 ∉ key := Partition.notMem_takeWhile
      have hfield : ∀ {k v}, token = fieldOf k v ↔ k.text = key ∧ v = value := by
        intro k v
        rw [htoken]
        constructor
        · intro h
          obtain ⟨htext, hvalue⟩ := Partition.append_inj hkey k.not_mem_text h
          exact ⟨htext.symm, hvalue.symm⟩
        · rintro ⟨htext, rfl⟩
          rw [fieldOf, htext]
      dsimp only
      split
      · next hnone =>
        refine iff_of_false (by rintro ⟨⟩) ?_
        rintro ⟨k, v, hkv, -⟩
        rw [← (hfield.mp hkv).1, Key.find?_text] at hnone
        cases hnone
      · next k hsome =>
        have htext : k.text = key := by simpa using List.find?_some hsome
        -- A field that was read before, or has no value, is refused.
        split
        · next hbad =>
          refine iff_of_false (by rintro ⟨⟩) ?_
          rintro ⟨k', v, hkv, hne, hnew, -⟩
          obtain ⟨htext', rfl⟩ := hfield.mp hkv
          obtain rfl := Key.text_inj (htext'.trans htext.symm)
          rcases hbad with hbad | hbad
          · rw [hnew] at hbad
            cases hbad
          · exact hne hbad
        · next hgood =>
          rw [not_or, Option.not_isSome_iff_eq_none] at hgood
          constructor
          · intro h
            cases h
            exact ⟨k, value, hfield.mpr ⟨htext, rfl⟩, hgood.2, hgood.1, rfl⟩
          · rintro ⟨k', v, hkv, -, -, rfl⟩
            obtain ⟨htext', rfl⟩ := hfield.mp hkv
            rw [Key.text_inj (htext'.trans htext.symm)]
    · rw [if_pos heq]
      refine iff_of_false (by rintro ⟨⟩) ?_
      rintro ⟨k, v, rfl, -⟩
      exact heq (by simp [fieldOf])
  · rw [if_pos hpal, takes_iff_of_not hpal, Except.ok.injEq, eq_comm]

theorem foldlM_eq_ok {tokens : List (List UInt8)} {values values' : Values} :
    tokens.foldlM readToken values = .ok values' ↔ Reads values tokens values' := by
  induction tokens generalizing values with
  | nil =>
    constructor
    · intro h
      cases h
      exact .nil _
    · intro h
      cases h
      rfl
  | cons token tokens ih =>
    rw [List.foldlM_cons, Results.bind_eq_ok]
    constructor
    · rintro ⟨next, htoken, hrest⟩
      exact .cons (readToken_eq_ok.mp htoken) (ih.mp hrest)
    · intro h
      cases h with
      | cons htakes hrest => exact ⟨_, readToken_eq_ok.mpr htakes, ih.mpr hrest⟩

end Reference

namespace Init

/-- A character that the scanner lets through. -/
def Plain (b : UInt8) : Prop := b ≠ 0 ∧ b < 128

theorem scanToken_eq_some {buf token rest : List UInt8} :
    scanToken buf = some (token, rest) ↔
      token = buf.takeWhile (!isSeparator ·) ∧ rest = buf.dropWhile (!isSeparator ·) ∧
        ∀ b ∈ token, Plain b := by
  induction buf generalizing token rest with
  | nil =>
    constructor
    · intro h
      cases h
      exact ⟨rfl, rfl, fun _ hb => absurd hb List.not_mem_nil⟩
    · rintro ⟨rfl, rfl, -⟩
      rfl
  | cons c buf ih =>
    rw [scanToken, List.takeWhile_cons, List.dropWhile_cons]
    -- The word ends at a separator; a byte that is not plain refuses the line.
    by_cases hc : isSeparator c
    · simp only [hc, if_true, Bool.not_true, Bool.false_eq_true, if_false, Option.some.injEq,
        Prod.mk.injEq, eq_comm]
      constructor
      · rintro ⟨rfl, rfl⟩
        exact ⟨rfl, rfl, fun _ hb => absurd hb List.not_mem_nil⟩
      · rintro ⟨rfl, rfl, -⟩
        exact ⟨rfl, rfl⟩
    · simp only [hc, Bool.false_eq_true, if_false, Bool.not_false, if_true]
      split
      · next hbad =>
        refine iff_of_false (by rintro ⟨⟩) ?_
        rintro ⟨rfl, -, hplain⟩
        obtain ⟨hzero, hlt⟩ := hplain c List.mem_cons_self
        exact hbad.elim hzero (UInt8.not_le.mpr hlt)
      · next hgood =>
        rw [not_or, UInt8.not_le] at hgood
        rw [Option.map_eq_some_iff]
        constructor
        · rintro ⟨⟨token', rest'⟩, hscan, heq⟩
          cases heq
          obtain ⟨rfl, rfl, hplain⟩ := ih.mp hscan
          exact ⟨rfl, rfl, List.forall_mem_cons.mpr ⟨hgood, hplain⟩⟩
        · rintro ⟨rfl, rfl, hplain⟩
          exact ⟨_, ih.mpr ⟨rfl, rfl, (List.forall_mem_cons.mp hplain).2⟩, rfl⟩

theorem keyOf_eq_some {token : List UInt8} {k : Key} :
    keyOf token = some k ↔ ∃ value, token = fieldOf k value ∧ value ≠ [] := by
  have hmatches : ∀ k : Key, (decide ((k.text ++ [61]).length < token.length) &&
      (k.text ++ [61]).isPrefixOf token) = true ↔
        ∃ value, token = fieldOf k value ∧ value ≠ [] := by
    intro k
    rw [Bool.and_eq_true, decide_eq_true_eq, List.isPrefixOf_iff_prefix]
    constructor
    · rintro ⟨hlength, value, rfl⟩
      refine ⟨value, by simp [fieldOf], ?_⟩
      rintro rfl
      simp at hlength
    · rintro ⟨value, rfl, hne⟩
      have hpos := List.length_pos_iff.mpr hne
      refine ⟨?_, value, by simp [fieldOf]⟩
      simp only [fieldOf, List.length_append, List.length_cons, List.length_nil]
      omega
  constructor
  · intro h
    have hfound := List.find?_some (keyOf.eq_def token ▸ h)
    exact (hmatches k).mp hfound
  · rintro ⟨value, htoken, hne⟩
    have hfound : (keyOf token).isSome := by
      rw [keyOf, List.find?_isSome]
      exact ⟨k, k.mem_all, (hmatches k).mpr ⟨value, htoken, hne⟩⟩
    obtain ⟨k', hk'⟩ := Option.isSome_iff_exists.mp hfound
    have hfound' := List.find?_some (keyOf.eq_def token ▸ hk')
    obtain ⟨value', htoken', -⟩ := (hmatches k').mp hfound'
    rw [hk', (fieldOf_inj (htoken'.symm.trans htoken)).1]

theorem drop_fieldOf (k : Key) (value : List UInt8) :
    (fieldOf k value).drop (k.text.length + 1) = value := by
  rw [fieldOf, ← List.drop_drop, List.drop_left]
  rfl

/-- **The guest takes the words between its separators**, when no character is one it refuses. -/
theorem scanFields_eq_some {buf : List UInt8} {values values' : Values} :
    scanFields buf values = some values' ↔
      (∀ w ∈ words isSeparator buf, ∀ b ∈ w, Plain b) ∧
        Reads values (words isSeparator buf) values' := by
  -- One word is taken at a time, so the line that is left is shorter.
  induction hn : buf.length using Nat.strongRecOn generalizing buf values with
  | ind n ih =>
    rw [scanFields, words_eq_match]
    split
    · next hskip =>
      rw [hskip]
      constructor
      · intro h
        cases h
        exact ⟨by simp, .nil _⟩
      · rintro ⟨-, hreads⟩
        cases hreads
        rfl
    · next start buf' hskip =>
      rw [hskip]
      dsimp only
      set word := (start :: buf').takeWhile (!isSeparator ·)
      set rest := (start :: buf').dropWhile (!isSeparator ·)
      rw [List.forall_mem_cons]
      split
      · next hnone =>
        refine iff_of_false (by rintro ⟨⟩) ?_
        rintro ⟨⟨hplain, -⟩, -⟩
        rw [scanToken_eq_some.mpr ⟨rfl, rfl, hplain⟩] at hnone
        cases hnone
      · next token rest' hscan =>
        have hless : rest'.length < n := hn ▸ length_scanToken_lt hskip hscan
        obtain ⟨rfl, rfl, hplain⟩ := scanToken_eq_some.mp hscan
        -- Words of other programs are skipped; the rest are fields, each once.
        by_cases hpal : palimpsest <+: word
        · rw [if_neg (not_not.mpr hpal)]
          cases hkey : keyOf word with
          | none =>
            refine iff_of_false (by rintro ⟨⟩) ?_
            rintro ⟨-, hreads⟩
            cases hreads with
            | cons htakes _ =>
              obtain ⟨k, value, hword, hne, -, -⟩ := (takes_iff_of_isPrefix hpal).mp htakes
              rw [keyOf_eq_some.mpr ⟨value, hword, hne⟩] at hkey
              cases hkey
          | some k =>
            obtain ⟨value, hword, hne⟩ := keyOf_eq_some.mp hkey
            have hvalue : word.drop (k.text.length + 1) = value := by rw [hword, drop_fieldOf]
            dsimp only
            rw [hvalue]
            split
            · next hold =>
              refine iff_of_false (by rintro ⟨⟩) ?_
              rintro ⟨-, hreads⟩
              cases hreads with
              | cons htakes _ =>
                obtain ⟨k', value', hword', -, hnew, -⟩ := (takes_iff_of_isPrefix hpal).mp htakes
                obtain ⟨rfl, -⟩ := fieldOf_inj (hword.symm.trans hword')
                rw [hnew] at hold
                cases hold
            · next hnew =>
              rw [Option.not_isSome_iff_eq_none] at hnew
              rw [ih rest.length hless rfl]
              have htakes : Takes values word (Function.update values k (some value)) :=
                (takes_iff_of_isPrefix hpal).mpr ⟨k, value, hword, hne, hnew, rfl⟩
              constructor
              · rintro ⟨hrest, hreads⟩
                exact ⟨⟨hplain, hrest⟩, .cons htakes hreads⟩
              · rintro ⟨⟨-, hrest⟩, hreads⟩
                cases hreads with
                | cons htakes' hreads =>
                  obtain ⟨k', value', hword', -, -, rfl⟩ :=
                    (takes_iff_of_isPrefix hpal).mp htakes'
                  obtain ⟨rfl, rfl⟩ := fieldOf_inj (hword.symm.trans hword')
                  exact ⟨hrest, hreads⟩
        · rw [if_pos hpal, ih rest.length hless rfl]
          constructor
          · rintro ⟨hrest, hreads⟩
            exact ⟨⟨hplain, hrest⟩, .cons (.skip hpal) hreads⟩
          · rintro ⟨⟨-, hrest⟩, hreads⟩
            cases hreads with
            | cons htakes hreads =>
              obtain rfl := (takes_iff_of_not hpal).mp htakes
              exact ⟨hrest, hreads⟩

end Init

/-! ### Valid bindings -/

/-- What both readers demand of bindings. -/
structure Bindings.Valid (b : Bindings) : Prop where
  resource : Init.validDigest b.resourceDigest
  core : Init.validDigest b.domainCoreDigest
  transport : Init.validDigest b.transportDigest
  transportSerial : isSerial b.transportSerial
  rootSerial : isSerial b.rootSerial
  lowers : ∀ s ∈ b.lowerSerials, isSerial s
  lowers_ne : b.lowerSerials ≠ []
  lowers_le : b.lowerSerials.length ≤ maxLowers
  nodup : (b.transportSerial :: b.rootSerial :: b.lowerSerials).Nodup
  serial_eq : b.transportSerial = Reference.transportSerial b.transportDigest

/-- The device with a serial. -/
def deviceOf (serial : List UInt8) : List UInt8 := virtio ++ serial

/-- The devices with a number of serials. -/
def devices (serials : List (List UInt8)) : List UInt8 := [44].intercalate (serials.map deviceOf)

/-- The value of each field, for bindings. -/
def Bindings.value (b : Bindings) : Key → List UInt8
  | .resource => b.resourceDigest
  | .core => b.domainCoreDigest
  | .stage1 => b.transportDigest
  | .stage1dev => deviceOf b.transportSerial
  | .root => deviceOf b.rootSerial
  | .lowers => devices b.lowerSerials

/-- The six fields of bindings. -/
def Bindings.fields (b : Bindings) : List (List UInt8) := Key.all.map fun k => fieldOf k (b.value k)

theorem length_of_isSerial {s : List UInt8} (h : isSerial s) : s.length = 20 := by
  simp only [isSerial, Bool.and_eq_true, decide_eq_true_eq] at h
  exact h.1

theorem isHex_of_isSerial {s : List UInt8} (h : isSerial s) {b : UInt8} (hb : b ∈ s) : isHex b := by
  simp only [isSerial, Bool.and_eq_true, List.all_eq_true] at h
  exact h.2 b hb

theorem not_isHex_comma : isHex 44 = false := by decide

theorem comma_not_mem_deviceOf {s : List UInt8} (h : isSerial s) : 44 ∉ deviceOf s := by
  rw [deviceOf, List.mem_append, not_or]
  refine ⟨by decide, fun hmem => ?_⟩
  have hhex := isHex_of_isSerial h hmem
  rw [not_isHex_comma] at hhex
  cases hhex

/-- The lower devices are told apart by their commas. -/
theorem splitOn_devices {serials : List (List UInt8)} (h : ∀ s ∈ serials, isSerial s)
    (hne : serials ≠ []) :
    (devices serials).splitOn 44 = serials.map deviceOf := by
  refine List.splitOn_intercalate 44 ?_ (by simpa using hne)
  intro device hdevice
  obtain ⟨s, hs, rfl⟩ := List.mem_map.mp hdevice
  exact comma_not_mem_deviceOf (h s hs)

namespace Reference

theorem check_eq_ok {p : Prop} [Decidable p] {message : String} {u : Unit} :
    check p message = .ok u ↔ p := by
  rw [check]
  split
  · next hp => exact iff_of_true rfl hp
  · next hp => exact iff_of_false nofun hp

theorem lower_of_isHex {b : UInt8} (h : isHex b) : lower b = b := by
  rw [lower, if_neg]
  simp only [isHex, Bool.or_eq_true, Bool.and_eq_true, decide_eq_true_eq, UInt8.le_iff_toNat_le,
    UInt8.reduceToNat] at h ⊢
  omega

/-- A canonical digest is one that the guest takes, and it is its own normal form. -/
theorem canonicalDigest_eq_ok {v v' : List UInt8} {fieldName : String} :
    canonicalDigest v fieldName = .ok v' ↔ Init.validDigest v ∧ v' = v := by
  have hvalid : Init.validDigest v = true ↔
      ascii "sha256:" <+: v ∧ (v.drop 7).length = 64 ∧ (v.drop 7).all isHex := by
    have hseven : (ascii "sha256:").length = 7 := by decide
    simp only [Init.validDigest, Bool.and_eq_true, decide_eq_true_eq, List.prefix_iff_eq_take,
      hseven, List.length_drop, eq_comm (a := v.take 7)]
    constructor
    · rintro ⟨⟨hlength, htake⟩, hall⟩
      exact ⟨htake, by omega, hall⟩
    · rintro ⟨htake, hlength, hall⟩
      exact ⟨⟨by omega, htake⟩, hall⟩
  rw [canonicalDigest, hvalid]
  by_cases h : ascii "sha256:" <+: v ∧ (v.drop 7).length = 64 ∧ (v.drop 7).all isHex
  · rw [if_neg (not_not.mpr h)]
    obtain ⟨htake, hlength, hall⟩ := h
    have hhex : ∀ b ∈ v.drop 7, isHex b := List.all_eq_true.mp hall
    -- The digits are small letters already, so lowering them changes nothing.
    have hlower : (v.drop 7).map lower = v.drop 7 := by
      calc (v.drop 7).map lower = (v.drop 7).map id :=
            List.map_congr_left fun b hb => lower_of_isHex (hhex b hb)
        _ = v.drop 7 := List.map_id _
    have hdigits : (v.drop 7).all isHexDigit := by
      refine List.all_eq_true.mpr fun b hb => ?_
      rw [isHexDigit, hhex b hb, Bool.true_or]
    have hsplit : ascii "sha256:" ++ v.drop 7 = v := by
      rw [List.prefix_iff_eq_take.mp htake]
      exact List.take_append_drop ..
    have hnormal : normalizeDigest v = some v := by
      simp only [normalizeDigest, if_pos htake, if_pos (And.intro hlength hdigits), hlower, hsplit]
    rw [hnormal]
    simp only [ne_eq, not_true, if_false, Except.ok.injEq]
    exact ⟨fun heq => ⟨⟨htake, hlength, hall⟩, heq.symm⟩, fun heq => heq.2.symm⟩
  · rw [if_pos h]
    exact iff_of_false nofun fun h' => h h'.1

theorem postInit_eq_ok {b b' : Bindings} : postInit b = .ok b' ↔ b.Valid ∧ b' = b := by
  simp only [postInit, Results.bind_eq_ok, canonicalDigest_eq_ok, check_eq_ok]
  constructor
  · rintro ⟨_, ⟨hresource, rfl⟩, _, ⟨hcore, rfl⟩, _, ⟨htransport, rfl⟩, _,
      ⟨hserial, hroot, ⟨hpos, hle⟩, hlowers⟩, _, hnodup, _, heq, hb⟩
    cases hb
    exact ⟨⟨hresource, hcore, htransport, hserial, hroot, List.all_eq_true.mp hlowers,
      List.length_pos_iff.mp hpos, hle, hnodup, heq⟩, rfl⟩
  · rintro ⟨h, rfl⟩
    exact ⟨_, ⟨h.resource, rfl⟩, _, ⟨h.core, rfl⟩, _, ⟨h.transport, rfl⟩, (),
      ⟨h.transportSerial, h.rootSerial, ⟨List.length_pos_iff.mpr h.lowers_ne, h.lowers_le⟩,
        List.all_eq_true.mpr h.lowers⟩, (), h.nodup, (), h.serial_eq, rfl⟩

theorem isDevice_iff {item : List UInt8} :
    isDevice item ↔ ∃ s, item = deviceOf s ∧ s.length = 20 := by
  rw [isDevice, Bool.and_eq_true, decide_eq_true_eq, decide_eq_true_eq]
  constructor
  · rintro ⟨⟨s, rfl⟩, hlength⟩
    rw [List.length_append] at hlength
    exact ⟨s, rfl, by omega⟩
  · rintro ⟨s, rfl, hlength⟩
    exact ⟨List.prefix_append .., by rw [deviceOf, List.length_append, hlength]⟩

theorem drop_deviceOf (s : List UInt8) : (deviceOf s).drop virtio.length = s := List.drop_left ..

/-- **The reference accepts the values of valid bindings**, and no others. -/
theorem bindingsOf_eq_ok {values : Key → List UInt8} {b : Bindings} :
    bindingsOf values = .ok b ↔ b.Valid ∧ values = b.value := by
  simp only [bindingsOf, Results.bind_eq_ok, check_eq_ok, postInit_eq_ok, isDevice_iff,
    List.all_eq_true]
  constructor
  · rintro ⟨_, ⟨⟨device, hdevice, -⟩, ⟨root, hroot, -⟩, -, hlowers⟩, hvalid, rfl⟩
    refine ⟨hvalid, ?_⟩
    have hmap : ((values .lowers).splitOn 44).map (deviceOf ∘ (·.drop virtio.length)) =
        (values .lowers).splitOn 44 := by
      calc _ = ((values .lowers).splitOn 44).map id := by
            refine List.map_congr_left fun item hitem => ?_
            obtain ⟨s, rfl, -⟩ := hlowers item hitem
            exact congrArg deviceOf (drop_deviceOf s)
        _ = _ := List.map_id _
    -- Of the fields only the devices are not their own values: the start of each is cut off.
    funext k
    cases k with
    | stage1dev => simp only [Bindings.value, hdevice, drop_deviceOf]
    | root => simp only [Bindings.value, hroot, drop_deviceOf]
    | lowers => simp only [Bindings.value, devices, List.map_map, hmap, List.intercalate_splitOn]
    | _ => rfl
  · rintro ⟨h, rfl⟩
    have hsplit : (b.value .lowers).splitOn 44 = b.lowerSerials.map deviceOf :=
      splitOn_devices h.lowers h.lowers_ne
    have hserials : (b.lowerSerials.map deviceOf).map (·.drop virtio.length) = b.lowerSerials := by
      rw [List.map_map]
      calc _ = b.lowerSerials.map id := List.map_congr_left fun s _ => drop_deviceOf s
        _ = _ := List.map_id _
    refine ⟨(), ⟨⟨_, rfl, length_of_isSerial h.transportSerial⟩,
      ⟨_, rfl, length_of_isSerial h.rootSerial⟩, ?_, ?_⟩, ?_⟩
    · rw [hsplit, List.length_map]
      exact ⟨List.length_pos_iff.mpr h.lowers_ne, h.lowers_le⟩
    · rw [hsplit]
      intro item hitem
      obtain ⟨s, hs, rfl⟩ := List.mem_map.mp hitem
      exact ⟨s, rfl, length_of_isSerial (h.lowers s hs)⟩
    · have heq : b = ⟨b.value .resource, b.value .core, b.value .stage1,
          (b.value .stage1dev).drop virtio.length, (b.value .root).drop virtio.length,
          ((b.value .lowers).splitOn 44).map (·.drop virtio.length)⟩ := by
        rw [hsplit, hserials]
        simp only [Bindings.value, drop_deviceOf]
      rw [← heq]
      exact ⟨h, rfl⟩

end Reference

namespace Init

/-- A device with a serial that is one. -/
theorem device_iff {device s : List UInt8} :
    (virtio <+: device ∧ device.length = 27 ∧ isSerial ((device.drop 7).take 20)) ∧
        s = (device.drop 7).take 20 ↔ device = deviceOf s ∧ isSerial s := by
  have hseven : virtio.length = 7 := by decide
  constructor
  · rintro ⟨⟨⟨t, rfl⟩, hlength, hserial⟩, rfl⟩
    rw [List.length_append, hseven] at hlength
    rw [← hseven, List.drop_left] at hserial ⊢
    rw [List.take_of_length_le (by omega)] at hserial ⊢
    exact ⟨rfl, hserial⟩
  · rintro ⟨rfl, hserial⟩
    have hlength := length_of_isSerial hserial
    have htake : ((deviceOf s).drop 7).take 20 = s := by
      rw [← hseven, deviceOf, List.drop_left, ← hlength, List.take_length]
    rw [htake]
    refine ⟨⟨List.prefix_append .., ?_, hserial⟩, rfl⟩
    rw [deviceOf, List.length_append, hseven, hlength]

theorem deviceSerial_eq_some {device s : List UInt8} :
    deviceSerial device = some s ↔ device = deviceOf s ∧ isSerial s := by
  rw [← device_iff, deviceSerial]
  split
  · next hbad =>
    refine iff_of_false nofun ?_
    rintro ⟨⟨hvirtio, hlength, hserial⟩, -⟩
    rcases hbad with hbad | hbad | hbad
    · exact hbad hvirtio
    · exact hbad hlength
    · exact hbad hserial
  · next hgood =>
    simp only [not_or, not_not] at hgood
    rw [Option.some.injEq, eq_comm]
    exact ⟨fun h => ⟨hgood, h⟩, fun h => h.2⟩

theorem lowersDistinct_iff {rootSerial transportSerial : List UInt8}
    {before lowers : List (List UInt8)} :
    lowersDistinct rootSerial transportSerial before lowers = true ↔
      (∀ l ∈ lowers, l ≠ rootSerial ∧ l ≠ transportSerial ∧ l ∉ before) ∧ lowers.Nodup := by
  induction lowers generalizing before with
  | nil => simp [lowersDistinct]
  | cons lower lowers ih =>
    rw [lowersDistinct, List.forall_mem_cons, List.nodup_cons]
    split
    · next hbad =>
      refine iff_of_false Bool.false_ne_true ?_
      rintro ⟨⟨⟨hroot, htransport, hbefore⟩, -⟩, -⟩
      rcases hbad with hbad | hbad | hbad
      · exact hroot hbad
      · exact htransport hbad
      · exact hbefore hbad
    · next hgood =>
      simp only [not_or] at hgood
      rw [ih]
      simp only [List.mem_append, List.mem_singleton, not_or]
      constructor
      · rintro ⟨hall, hnodup⟩
        exact ⟨⟨hgood, fun l hl => ⟨(hall l hl).1, (hall l hl).2.1, (hall l hl).2.2.1⟩⟩,
          fun hmem => (hall lower hmem).2.2.2 rfl, hnodup⟩
      · rintro ⟨⟨-, hall⟩, hlower, hnodup⟩
        refine ⟨fun l hl => ⟨(hall l hl).1, (hall l hl).2.1, (hall l hl).2.2, ?_⟩, hnodup⟩
        rintro rfl
        exact hlower hl

/-- The first device ends at its comma, or is the only one. -/
theorem cut_devices {t : List UInt8} (ht : isSerial t) (ts : List (List UInt8)) :
    (devices (t :: ts)).takeWhile (· ≠ 44) = deviceOf t ∧
      (devices (t :: ts)).dropWhile (· ≠ 44) = if ts = [] then [] else 44 :: devices ts := by
  have hcomma := comma_not_mem_deviceOf ht
  cases ts with
  | nil =>
    have hall : ∀ b ∈ deviceOf t, decide (b ≠ 44) = true := by
      intro b hb
      rw [decide_eq_true_eq]
      rintro rfl
      exact hcomma hb
    have hself : devices [t] = deviceOf t := by simp [devices]
    rw [hself, if_pos rfl]
    exact ⟨List.takeWhile_eq_self_iff.mpr hall, List.dropWhile_eq_nil_iff.mpr hall⟩
  | cons t' ts =>
    have hcons : devices (t :: t' :: ts) = deviceOf t ++ 44 :: devices (t' :: ts) := by
      simp [devices]
    rw [hcons, if_neg (List.cons_ne_nil _ _)]
    exact ⟨Partition.takeWhile_append hcomma, Partition.dropWhile_append hcomma⟩

theorem devices_ne_nil {serials : List (List UInt8)} (h : serials ≠ []) : devices serials ≠ [] := by
  obtain ⟨t, ts, rfl⟩ := List.exists_cons_of_ne_nil h
  have hvirtio : virtio ≠ [] := by decide
  rw [devices, List.map_cons]
  cases ts with
  | nil => simp [deviceOf, hvirtio]
  | cons t' ts => simp [deviceOf, hvirtio]

theorem eq_devices_iff {s t : List UInt8} (ht : isSerial t) {ts : List (List UInt8)} :
    s = devices (t :: ts) ↔ s.takeWhile (· ≠ 44) = deviceOf t ∧
      s.dropWhile (· ≠ 44) = if ts = [] then [] else 44 :: devices ts := by
  constructor
  · rintro rfl
    exact cut_devices ht ts
  · rintro ⟨htake, hdrop⟩
    obtain ⟨htake', hdrop'⟩ := cut_devices ht ts
    calc s = s.takeWhile (· ≠ 44) ++ s.dropWhile (· ≠ 44) := (List.takeWhile_append_dropWhile).symm
      _ = (devices (t :: ts)).takeWhile (· ≠ 44) ++ (devices (t :: ts)).dropWhile (· ≠ 44) := by
        rw [htake, hdrop, htake', hdrop']
      _ = devices (t :: ts) := List.takeWhile_append_dropWhile

/-- **The scan of the lower devices** finds them one after the other, no more than there may
be, and nothing after the last comma is a failure. -/
theorem scanLowers_eq_some {s : List UInt8} (hs : s ≠ []) {lowers result : List (List UInt8)} :
    scanLowers s lowers = some result ↔ ∃ serials, result = lowers ++ serials ∧ serials ≠ [] ∧
      s = devices serials ∧ (∀ t ∈ serials, isSerial t) ∧ result.length ≤ maxLowers := by
  induction hn : s.length using Nat.strongRecOn generalizing s lowers with
  | ind n ih =>
    rw [scanLowers, if_neg hs]
    dsimp only
    split
    · next hbad =>
      refine iff_of_false nofun ?_
      rintro ⟨serials, rfl, hserials, rfl, hall, hle⟩
      obtain ⟨t, ts, rfl⟩ := List.exists_cons_of_ne_nil hserials
      have ht := hall t List.mem_cons_self
      rw [(cut_devices ht ts).1] at hbad
      obtain ⟨⟨hvirtio, hlength, hserial⟩, -⟩ := device_iff.mpr ⟨rfl, ht⟩
      rw [List.length_append, List.length_cons] at hle
      rcases hbad with hbad | hbad | hbad | hbad
      · omega
      · exact hbad hlength
      · exact hbad (List.prefix_iff_eq_take.mp hvirtio).symm
      · exact hbad hserial
    · next hgood =>
      simp only [not_or, not_not, not_le] at hgood
      obtain ⟨hroom, hlength, hvirtio, hserial⟩ := hgood
      obtain ⟨hpiece, ht⟩ :=
        device_iff.mp ⟨⟨List.prefix_iff_eq_take.mpr hvirtio.symm, hlength, hserial⟩, rfl⟩
      set t := ((s.takeWhile (· ≠ 44)).drop 7).take 20
      -- what has been read is the first of the serials, if there are any
      have hfirst : (∃ serials, result = lowers ++ serials ∧ serials ≠ [] ∧ s = devices serials ∧
          (∀ t ∈ serials, isSerial t) ∧ result.length ≤ maxLowers) ↔
          ∃ ts, result = lowers ++ [t] ++ ts ∧
            s.dropWhile (· ≠ 44) = (if ts = [] then [] else 44 :: devices ts) ∧
            (∀ t ∈ ts, isSerial t) ∧ result.length ≤ maxLowers := by
        constructor
        · rintro ⟨serials, rfl, hserials, heq, hall, hle⟩
          obtain ⟨t', ts, rfl⟩ := List.exists_cons_of_ne_nil hserials
          obtain ⟨ht', hts⟩ := List.forall_mem_cons.mp hall
          obtain ⟨htake, hdrop⟩ := (eq_devices_iff ht').mp heq
          obtain rfl : t' = t := List.append_cancel_left (htake.symm.trans hpiece)
          exact ⟨ts, by rw [List.append_assoc]; rfl, hdrop, hts, hle⟩
        · rintro ⟨ts, rfl, hdrop, hts, hle⟩
          exact ⟨t :: ts, by rw [List.append_assoc]; rfl, List.cons_ne_nil _ _,
            (eq_devices_iff ht).mpr ⟨hpiece, hdrop⟩, List.forall_mem_cons.mpr ⟨ht, hts⟩, hle⟩
      rw [hfirst]
      split
      · next hrest =>
        rw [hrest]
        constructor
        · intro h
          cases h
          refine ⟨[], (List.append_nil _).symm, rfl, by simp, ?_⟩
          rw [List.length_append]
          exact hroom
        · rintro ⟨ts, rfl, hdrop, -⟩
          by_cases hts : ts = []
          · rw [hts, List.append_nil]
          · rw [if_neg hts] at hdrop
            cases hdrop
      · next x hrest =>
        rw [hrest]
        refine iff_of_false nofun ?_
        rintro ⟨ts, -, hdrop, -⟩
        by_cases hts : ts = []
        · rw [if_pos hts] at hdrop
          cases hdrop
        · rw [if_neg hts, List.cons.injEq] at hdrop
          exact devices_ne_nil hts hdrop.2.symm
      · next x rest hmore hrest =>
        have hless : rest.length < n := by
          have hle := (List.dropWhile_sublist (fun b : UInt8 => decide (b ≠ 44)) (l := s)).length_le
          rw [hrest, List.length_cons, hn] at hle
          exact hle
        have hcomma : x = 44 := by
          have hhead := List.head?_dropWhile_not (fun b : UInt8 => decide (b ≠ 44)) s
          rw [hrest] at hhead
          simpa using hhead
        rw [ih rest.length hless hmore rfl, hrest, hcomma]
        constructor
        · rintro ⟨ts, rfl, hts, rfl, hall, hle⟩
          exact ⟨ts, rfl, by rw [if_neg hts], hall, hle⟩
        · rintro ⟨ts, rfl, hdrop, hall, hle⟩
          by_cases hts : ts = []
          · rw [if_pos hts] at hdrop
            cases hdrop
          · rw [if_neg hts, List.cons.injEq] at hdrop
            exact ⟨ts, rfl, hts, hdrop.2, hall, hle⟩

theorem take_flatMap_hexPair (l : List UInt8) (n : ℕ) :
    (l.flatMap hexPair).take (2 * n) = (l.take n).flatMap hexPair := by
  induction l generalizing n with
  | nil => simp
  | cons b l ih =>
    cases n with
    | zero => rfl
    | succ n =>
      rw [List.flatMap_cons, List.take_succ_cons, List.flatMap_cons, ← ih]
      rfl

theorem demand_eq_some {p : Prop} [Decidable p] {u : Unit} : demand p = some u ↔ p := by
  rw [demand]
  split
  · next hp => exact iff_of_true rfl hp
  · next hp => exact iff_of_false nofun hp

/-- **The guest accepts the values of valid bindings**, and no others. -/
theorem bindingsOf_eq_some {fields : Key → List UInt8} (hne : ∀ k, fields k ≠ []) {b : Bindings} :
    bindingsOf fields = some b ↔ b.Valid ∧ fields = b.value := by
  have hserial : ∀ d, ((Sha256.digest (transportIdentity d)).take 10).flatMap hexPair =
      Reference.transportSerial d := fun d => (take_flatMap_hexPair _ 10).symm
  simp only [bindingsOf, hserial, Option.bind_eq_bind, Option.bind_eq_some_iff, demand_eq_some,
    deviceSerial_eq_some, scanLowers_eq_some (hne _), lowersDistinct_iff, List.nil_append]
  constructor
  · rintro ⟨_, ⟨hresource, hcore, htransport⟩, transport, ⟨hdevice, hserial⟩, root, ⟨hroot, hr⟩,
      lowers, ⟨_, rfl, -, hlowers, hall, hle⟩, _, hlowersNe, _, ⟨hdistinct, hnodup⟩, _, hne', _,
      heq, hb⟩
    cases hb
    refine ⟨⟨hresource, hcore, htransport, hserial, hr, hall, hlowersNe, hle, ?_, heq.symm⟩, ?_⟩
    · rw [List.nodup_cons, List.nodup_cons, List.mem_cons, not_or]
      exact ⟨⟨hne'.symm, fun hmem => (hdistinct _ hmem).2.1 rfl⟩,
        fun hmem => (hdistinct _ hmem).1 rfl, hnodup⟩
    · funext k
      cases k with
      | stage1dev => exact hdevice
      | root => exact hroot
      | lowers => exact hlowers
      | _ => rfl
  · rintro ⟨h, rfl⟩
    have hnodup := h.nodup
    rw [List.nodup_cons, List.nodup_cons, List.mem_cons, not_or] at hnodup
    obtain ⟨⟨hroot, htransport⟩, hlower, hlowers⟩ := hnodup
    refine ⟨(), ⟨h.resource, h.core, h.transport⟩, _, ⟨rfl, h.transportSerial⟩, _,
      ⟨rfl, h.rootSerial⟩, b.lowerSerials, ⟨_, rfl, h.lowers_ne, rfl, h.lowers, h.lowers_le⟩, (),
      h.lowers_ne, (), ⟨fun l hl => ⟨?_, ?_, List.not_mem_nil⟩, hlowers⟩, (), Ne.symm hroot, (),
      h.serial_eq.symm, rfl⟩
    · rintro rfl
      exact hlower hl
    · rintro rfl
      exact htransport hl

end Init

/-! ### Lines -/

/-- A line that neither reader turns away for its length or its characters. -/
structure LineOk (line : List UInt8) : Prop where
  pos : 1 ≤ line.length
  length_le : line.length ≤ maxGuestKernelCmdlineBytes
  plain : ∀ b ∈ line, Init.Plain b

theorem value_ne_nil {b : Bindings} (h : b.Valid) (k : Key) : b.value k ≠ [] := by
  have hdigest : ∀ d, Init.validDigest d = true → d ≠ [] := by
    rintro d hd rfl
    cases hd
  have hdevice : ∀ s, deviceOf s ≠ [] := by
    intro s hnil
    have hvirtio : virtio = [] := (List.append_eq_nil_iff.mp hnil).1
    exact absurd hvirtio (by decide)
  cases k with
  | resource => exact hdigest _ h.resource
  | core => exact hdigest _ h.core
  | stage1 => exact hdigest _ h.transport
  | stage1dev => exact hdevice _
  | root => exact hdevice _
  | lowers => exact Init.devices_ne_nil h.lowers_ne

theorem eq_some_getD {values : Values} (h : ∀ k ∈ Key.all, (values k).isSome) :
    values = fun k => some ((values k).getD []) := by
  funext k
  obtain ⟨v, hv⟩ := Option.isSome_iff_exists.mp (h k k.mem_all)
  rw [hv]
  rfl

/-- Words from which all six fields are taken give the values of bindings when they have
exactly the fields of these. -/
theorem exists_reads_iff {tokens : List (List UInt8)} {b : Bindings} (h : b.Valid) :
    (∃ values, Reads (fun _ => none) tokens values ∧ (∀ k ∈ Key.all, (values k).isSome) ∧
        (fun k => (values k).getD []) = b.value) ↔ (fieldsAmong tokens).Perm b.fields := by
  constructor
  · rintro ⟨values, hreads, hall, hvalue⟩
    rw [eq_some_getD hall] at hreads
    rw [Bindings.fields, ← hvalue]
    exact (reads_iff.mp hreads).2
  · intro hperm
    exact ⟨_, reads_iff.mpr ⟨value_ne_nil h, hperm⟩, fun _ _ => rfl, rfl⟩

/-- The fields that the reference sees in a line. -/
def Reference.fields (line : List UInt8) : List (List UInt8) :=
  fieldsAmong (words Reference.isSpace line)

/-- The fields that the guest sees in a line. -/
def Init.fields (line : List UInt8) : List (List UInt8) :=
  fieldsAmong (words Init.isSeparator line)

/-- **What the reference accepts.** -/
theorem Reference.parse_eq_ok {line : List UInt8} {b : Bindings} :
    parseGuestKernelCmdline line = .ok b ↔
      LineOk line ∧ b.Valid ∧ (Reference.fields line).Perm b.fields := by
  simp only [parseGuestKernelCmdline, Results.bind_eq_ok, check_eq_ok, foldlM_eq_ok,
    bindingsOf_eq_ok]
  constructor
  · rintro ⟨_, ⟨⟨hpos, hle⟩, hzero⟩, _, hascii, values, hreads, _, hall, hvalid, hvalue⟩
    refine ⟨⟨hpos, hle, fun c hc => ⟨?_, hascii c hc⟩⟩, hvalid,
      (exists_reads_iff hvalid).mp ⟨values, hreads, hall, hvalue⟩⟩
    rintro rfl
    exact hzero hc
  · rintro ⟨hline, hvalid, hperm⟩
    obtain ⟨values, hreads, hall, hvalue⟩ := (exists_reads_iff hvalid).mpr hperm
    exact ⟨(), ⟨⟨hline.pos, hline.length_le⟩, fun hzero => (hline.plain 0 hzero).1 rfl⟩, (),
      fun c hc => (hline.plain c hc).2, values, hreads, (), hall, hvalid, hvalue⟩

/-- **What the guest accepts.** -/
theorem Init.parse_eq_some {line : List UInt8} {b : Bindings} :
    parseCmdline line = some b ↔ LineOk line ∧ b.Valid ∧ (Init.fields line).Perm b.fields := by
  have hsep : ∀ c, isSeparator c = true → Plain c := by
    intro c hc
    simp only [isSeparator, decide_eq_true_eq, List.mem_cons, List.not_mem_nil, or_false] at hc
    rcases hc with rfl | rfl | rfl <;> exact ⟨by decide, by decide⟩
  simp only [parseCmdline, Option.bind_eq_bind, Option.bind_eq_some_iff, demand_eq_some,
    scanFields_eq_some, forall_mem_words hsep]
  have hne : ∀ {values}, Reads (fun _ => none) (words isSeparator line) values →
      (∀ k ∈ Key.all, (values k).isSome) → ∀ k, (values k).getD [] ≠ [] := by
    intro values hreads hall k
    rw [eq_some_getD hall] at hreads
    exact (reads_iff.mp hreads).1 k
  constructor
  · rintro ⟨_, ⟨hpos, hle⟩, values, ⟨hplain, hreads⟩, _, hall, hb⟩
    obtain ⟨hvalid, hvalue⟩ := (bindingsOf_eq_some (hne hreads hall)).mp hb
    exact ⟨⟨Nat.one_le_iff_ne_zero.mpr hpos, hle, hplain⟩, hvalid,
      (exists_reads_iff hvalid).mp ⟨values, hreads, hall, hvalue⟩⟩
  · rintro ⟨hline, hvalid, hperm⟩
    obtain ⟨values, hreads, hall, hvalue⟩ := (exists_reads_iff hvalid).mpr hperm
    exact ⟨(), ⟨Nat.one_le_iff_ne_zero.mp hline.pos, hline.length_le⟩, values,
      ⟨hline.plain, hreads⟩, (), hall,
      (bindingsOf_eq_some (hne hreads hall)).mpr ⟨hvalid, hvalue⟩⟩

/-! ### White space that only the reference knows -/

/-- The white space of the reference that is none for the guest: the vertical tab, the form
feed, the carriage return, and the four information separators. -/
def isOtherSpace (b : UInt8) : Bool := b ∈ [11, 12, 13, 28, 29, 30, 31]

theorem isSpace_eq : Reference.isSpace = fun b => Init.isSeparator b || isOtherSpace b := by
  funext b
  rw [Bool.eq_iff_iff, Bool.or_eq_true]
  simp only [Reference.isSpace, Init.isSeparator, isOtherSpace, decide_eq_true_eq, List.mem_cons,
    List.not_mem_nil, or_false]
  grind

theorem isHex_gt {c : UInt8} (h : isHex c) : 32 < c := by
  simp only [isHex, Bool.or_eq_true, Bool.and_eq_true, decide_eq_true_eq, UInt8.le_iff_toNat_le,
    UInt8.lt_iff_toNat_lt, UInt8.reduceToNat] at h ⊢
  omega

theorem deviceOf_gt {s : List UInt8} (h : isSerial s) : ∀ c ∈ deviceOf s, 32 < c := by
  have hvirtio : ∀ c ∈ virtio, 32 < c := by
    rw [← List.all_iff_forall_prop]
    decide
  intro c hc
  rcases List.mem_append.mp hc with hc | hc
  · exact hvirtio c hc
  · exact isHex_gt (isHex_of_isSerial h hc)

theorem digest_gt {d : List UInt8} (h : Init.validDigest d) : ∀ c ∈ d, 32 < c := by
  have hsha : ∀ c ∈ ascii "sha256:", 32 < c := by
    rw [← List.all_iff_forall_prop]
    decide
  simp only [Init.validDigest, Bool.and_eq_true, decide_eq_true_eq, List.all_eq_true] at h
  intro c hc
  rw [← List.take_append_drop 7 d, h.1.2] at hc
  rcases List.mem_append.mp hc with hc | hc
  · exact hsha c hc
  · exact isHex_gt (h.2 c hc)

theorem devices_gt {serials : List (List UInt8)} (h : ∀ s ∈ serials, isSerial s) :
    ∀ c ∈ devices serials, 32 < c := by
  induction serials with
  | nil => exact fun c hc => absurd hc List.not_mem_nil
  | cons t ts ih =>
    obtain ⟨ht, hts⟩ := List.forall_mem_cons.mp h
    intro c hc
    by_cases hne : ts = []
    · subst hne
      have hself : devices [t] = deviceOf t := by simp [devices]
      exact deviceOf_gt ht c (hself ▸ hc)
    · rw [devices, List.map_cons, List.intercalate_cons_of_ne_nil (by simpa using hne),
        List.mem_append, List.mem_append, List.mem_singleton] at hc
      rcases hc with (hc | rfl) | hc
      · exact deviceOf_gt ht c hc
      · decide
      · exact ih hts c hc

/-- The fields of valid bindings have no white space. -/
theorem not_isOtherSpace_of_mem_fields {b : Bindings} (h : b.Valid) {f : List UInt8}
    (hf : f ∈ b.fields) {c : UInt8} (hc : c ∈ f) : isOtherSpace c = false := by
  obtain ⟨k, -, rfl⟩ := List.mem_map.mp hf
  have htext : ∀ k : Key, ∀ c ∈ k.text, 32 < c := by
    intro k
    rw [← List.all_iff_forall_prop]
    cases k <;> decide
  have hvalue : ∀ c ∈ b.value k, 32 < c := by
    cases k with
    | resource => exact digest_gt h.resource
    | core => exact digest_gt h.core
    | stage1 => exact digest_gt h.transport
    | stage1dev => exact deviceOf_gt h.transportSerial
    | root => exact deviceOf_gt h.rootSerial
    | lowers => exact devices_gt h.lowers
  have hgt : 32 < c := by
    rcases List.mem_append.mp hc with hc | hc
    · exact htext k c hc
    · rcases List.mem_cons.mp hc with rfl | hc
      · decide
      · exact hvalue c hc
  rw [Bool.eq_false_iff]
  intro hother
  simp only [isOtherSpace, decide_eq_true_eq, List.mem_cons, List.not_mem_nil, or_false] at hother
  rcases hother with rfl | rfl | rfl | rfl | rfl | rfl | rfl <;> exact absurd hgt (by decide)

/-! ### When the readers agree -/

/-- Words that are, in any order, the six fields of valid bindings. -/
def ValidFields (fields : List (List UInt8)) : Prop :=
  ∃ b : Bindings, b.Valid ∧ fields.Perm b.fields

/-- Where both readers see the fields of valid bindings, they see the same. -/
theorem fields_eq_of_validFields {line : List UInt8} (hinit : ValidFields (Init.fields line))
    (hreference : ValidFields (Reference.fields line)) :
    Reference.fields line = Init.fields line := by
  obtain ⟨b, hb, hperm⟩ := hinit
  obtain ⟨b', -, hperm'⟩ := hreference
  have hlength : ∀ b : Bindings, b.fields.length = 6 := fun b => by simp [Bindings.fields, Key.all]
  rw [Reference.fields, isSpace_eq] at hperm' ⊢
  refine (words_or_eq_of_length (fun w hw hpal c hc => ?_) ?_).symm
  · exact not_isOtherSpace_of_mem_fields hb (hperm.subset (List.mem_filter.mpr ⟨hw, hpal⟩)) hc
  · exact (hperm.length_eq.trans (hlength b)).trans (hperm'.length_eq.trans (hlength b')).symm

/-- A line without the other white space has the same fields for both. -/
theorem fields_eq_of_not_isOtherSpace {line : List UInt8}
    (h : ∀ c ∈ line, isOtherSpace c = false) : Reference.fields line = Init.fields line := by
  rw [Reference.fields, isSpace_eq, Init.fields]
  exact congrArg fieldsAmong (words_congr fun c hc => by rw [h c hc, Bool.or_false])

/-- **When the readers agree on a line**: when they see the same fields in it, or neither sees
the fields of valid bindings, or the line is one that both turn away. -/
theorem cmdline_agrees_iff (line : List UInt8) :
    (∀ b, Reference.parseGuestKernelCmdline line = .ok b ↔ Init.parseCmdline line = some b) ↔
      Reference.fields line = Init.fields line ∨
        ¬ValidFields (Reference.fields line) ∧ ¬ValidFields (Init.fields line) ∨ ¬LineOk line := by
  simp only [Reference.parse_eq_ok, Init.parse_eq_some]
  constructor
  · intro hagree
    by_cases hline : LineOk line
    · have hiff : ValidFields (Reference.fields line) ↔ ValidFields (Init.fields line) := by
        constructor
        · rintro ⟨b, hb, hperm⟩
          exact ⟨b, ((hagree b).mp ⟨hline, hb, hperm⟩).2⟩
        · rintro ⟨b, hb, hperm⟩
          exact ⟨b, ((hagree b).mpr ⟨hline, hb, hperm⟩).2⟩
      by_cases hinit : ValidFields (Init.fields line)
      · exact .inl (fields_eq_of_validFields hinit (hiff.mpr hinit))
      · exact .inr (.inl ⟨fun h => hinit (hiff.mp h), hinit⟩)
    · exact .inr (.inr hline)
  · rintro (heq | ⟨hreference, hinit⟩ | hline) b
    · rw [heq]
    · exact iff_of_false (fun h => hreference ⟨b, h.2⟩) fun h => hinit ⟨b, h.2⟩
    · exact iff_of_false (fun h => hline h.1) fun h => hline h.1

/-- Bindings of a digest of zeros, with the serial that it has. -/
def zeroBindings : Bindings where
  resourceDigest := ascii "sha256:" ++ List.replicate 64 48
  domainCoreDigest := ascii "sha256:" ++ List.replicate 64 48
  transportDigest := ascii "sha256:" ++ List.replicate 64 48
  transportSerial := ascii "126a427aed9a5e891f78"
  rootSerial := ascii "00000000000000000000"
  lowerSerials := [ascii "00000000000000000001"]

/-- The fields of these bindings on a line that ends with a carriage return and a newline. -/
def carriageReturnLine : List UInt8 := [32].intercalate zeroBindings.fields ++ [13, 10]

theorem valid_zeroBindings : zeroBindings.Valid where
  resource := by decide
  core := by decide
  transport := by decide
  transportSerial := by decide
  rootSerial := by decide
  lowers_ne := List.cons_ne_nil _ _
  lowers_le := by decide
  lowers := by decide
  nodup := by decide
  serial_eq := by decide +kernel

theorem lineOk_carriageReturnLine : LineOk carriageReturnLine where
  pos := by decide +kernel
  length_le := by decide +kernel
  plain := by
    have hall : carriageReturnLine.all (fun b => b != 0 && decide (b < 128)) = true := by
      decide +kernel
    simpa [Init.Plain] using hall

/-- **A carriage return at the end of the line** is white space for the reference, which
accepts the line, and part of the last field for the guest, which does not. -/
theorem cmdline_carriageReturn :
    Reference.parseGuestKernelCmdline carriageReturnLine = .ok zeroBindings ∧
      Init.parseCmdline carriageReturnLine = none := by
  constructor
  · have hfields : Reference.fields carriageReturnLine = zeroBindings.fields := by decide
    exact Reference.parse_eq_ok.mpr
      ⟨lineOk_carriageReturnLine, valid_zeroBindings, .of_eq hfields⟩
  · rw [Option.eq_none_iff_forall_ne_some]
    intro b hb
    obtain ⟨-, hvalid, hperm⟩ := Init.parse_eq_some.mp hb
    have hmem : fieldOf .lowers (devices zeroBindings.lowerSerials ++ [13]) ∈
        Init.fields carriageReturnLine := by decide
    have hspace := not_isOtherSpace_of_mem_fields hvalid (hperm.subset hmem) (c := 13)
      (by simp [fieldOf])
    exact absurd hspace (by decide)

end Palimpsest.Guest
