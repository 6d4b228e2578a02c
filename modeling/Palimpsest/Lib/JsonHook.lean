import Palimpsest.Lib.JsonLoads
import Palimpsest.Lib.Results

/-!
# Reading JSON texts without a hook

What `json.loads` makes of a text on its own (`Json.loadsLast`): of several fields with one key
the last one counts. A text that is read where such fields are refused is read as the same value
here (`Json.loadsLast_of_loads`).
-/

namespace Json

/-- A field set in a dictionary: the key keeps its place. -/
def setField (d : List (String × Value)) (f : String × Value) : List (String × Value) :=
  if f.1 ∈ keys d then d.map fun g => if g.1 = f.1 then f else g else d ++ [f]

/-- The dictionary of fields that are set one after the other. -/
def dictOf (fields : List (String × Value)) : List (String × Value) := fields.foldl setField []

mutual

/-- The value a text begins with, and what follows it. -/
def scanValueLast : ℕ → Text → Except LoadError (Value × Text)
  | 0, _ => .error .invalid
  | fuel + 1, t =>
    match t with
    | '"' :: t =>
      match scanText t with
      | some (s, rest) => .ok (.str s, rest)
      | none => .error .invalid
    | '{' :: t =>
      match skipBlanks t with
      | '}' :: rest => .ok (.dict [], rest)
      | t => do
        let (fields, rest) ← scanFieldsLast fuel t
        .ok (.dict (dictOf fields), rest)
    | '[' :: t =>
      match skipBlanks t with
      | ']' :: rest => .ok (.list [], rest)
      | t => do
        let (items, rest) ← scanItemsLast fuel t
        .ok (.list items, rest)
    | 'n' :: 'u' :: 'l' :: 'l' :: rest => .ok (.null, rest)
    | 't' :: 'r' :: 'u' :: 'e' :: rest => .ok (.bool true, rest)
    | 'f' :: 'a' :: 'l' :: 's' :: 'e' :: rest => .ok (.bool false, rest)
    | 'N' :: 'a' :: 'N' :: rest => .ok (.nonfinite, rest)
    | 'I' :: 'n' :: 'f' :: 'i' :: 'n' :: 'i' :: 't' :: 'y' :: rest => .ok (.nonfinite, rest)
    | '-' :: 'I' :: 'n' :: 'f' :: 'i' :: 'n' :: 'i' :: 't' :: 'y' :: rest => .ok (.nonfinite, rest)
    | t =>
      match scanNumber t with
      | some p => .ok p
      | none => .error .invalid

/-- The items of a list that is not empty, and what follows it. -/
def scanItemsLast : ℕ → Text → Except LoadError (List Value × Text)
  | 0, _ => .error .invalid
  | fuel + 1, t => do
    let (v, t) ← scanValueLast fuel t
    match skipBlanks t with
    | ']' :: rest => .ok ([v], rest)
    | ',' :: t => do
      let (l, rest) ← scanItemsLast fuel (skipBlanks t)
      .ok (v :: l, rest)
    | _ => .error .invalid

/-- The fields of a dictionary that is not empty, and what follows it. -/
def scanFieldsLast : ℕ → Text → Except LoadError (List (String × Value) × Text)
  | 0, _ => .error .invalid
  | fuel + 1, t =>
    match t with
    | '"' :: t =>
      match scanText t with
      | none => .error .invalid
      | some (k, t) =>
        match skipBlanks t with
        | ':' :: t => do
          let (v, t) ← scanValueLast fuel (skipBlanks t)
          match skipBlanks t with
          | '}' :: rest => .ok ([(k, v)], rest)
          | ',' :: t => do
            let (d, rest) ← scanFieldsLast fuel (skipBlanks t)
            .ok ((k, v) :: d, rest)
          | _ => .error .invalid
        | _ => .error .invalid
    | _ => .error .invalid

end

/-- `json.loads` -/
def loadsLast (t : Text) : Except LoadError Value := do
  let (v, rest) ← scanValueLast (2 * t.length + 1) (skipBlanks t)
  if skipBlanks rest = [] then .ok v else .error .invalid

/-! ### Texts without a key twice -/

theorem foldl_setField {d fields : List (String × Value)} (h : (keys (d ++ fields)).Nodup) :
    fields.foldl setField d = d ++ fields := by
  induction fields generalizing d with
  | nil => exact (List.append_nil d).symm
  | cons f fields ih =>
    have hnew : f.1 ∉ keys d := by
      rw [keys, List.map_append, List.map_cons, List.nodup_middle] at h
      exact fun hmem => (List.nodup_cons.mp h).1 (List.mem_append_left _ hmem)
    have hsplit : d ++ f :: fields = d ++ [f] ++ fields := by simp
    rw [List.foldl_cons, setField, if_neg hnew, hsplit]
    exact ih (hsplit ▸ h)

/-- Fields with different keys are the fields of their dictionary. -/
theorem dictOf_of_nodup {fields : List (String × Value)} (h : (keys fields).Nodup) :
    dictOf fields = fields := foldl_setField h

theorem scanLast_of_scan (fuel : ℕ) :
    (∀ t p, scanValue fuel t = .ok p → scanValueLast fuel t = .ok p) ∧
      (∀ t p, scanItems fuel t = .ok p → scanItemsLast fuel t = .ok p) ∧
        ∀ t p, scanFields fuel t = .ok p → scanFieldsLast fuel t = .ok p := by
  induction fuel with
  | zero =>
    refine ⟨fun t p h => ?_, fun t p h => ?_, fun t p h => ?_⟩
    · rw [scanValue] at h; cases h
    · rw [scanItems] at h; cases h
    · rw [scanFields] at h; cases h
  | succ fuel ih =>
    obtain ⟨ihvalue, ihitems, ihfields⟩ := ih
    refine ⟨fun t p => ?_, fun t p => ?_, fun t p => ?_⟩
    · intro h
      unfold scanValue at h
      split at h
      · rw [scanValueLast]
        exact h
      · split at h
        · next heq =>
          rw [scanValueLast, heq]
          exact h
        · next t hne =>
          obtain ⟨⟨fields, rest⟩, hfields, h⟩ := Results.bind_eq_ok.mp h
          have hnodup : (keys fields).Nodup ∧ p = (.dict fields, rest) := by
            dsimp only at h
            by_cases hnodup : (fields.map Prod.fst).Nodup
            · rw [if_pos hnodup] at h
              exact ⟨hnodup, (Except.ok.inj h).symm⟩
            · rw [if_neg hnodup] at h
              cases h
          rw [hnodup.2, scanValueLast]
          · split
            · next heq => exact absurd heq (hne _)
            · rw [ihfields _ _ hfields]
              exact congrArg (fun d => Except.ok (Value.dict d, rest)) (dictOf_of_nodup hnodup.1)
      · split at h
        · next heq =>
          rw [scanValueLast, heq]
          exact h
        · next t hne =>
          obtain ⟨⟨items, rest⟩, hitems, h⟩ := Results.bind_eq_ok.mp h
          rw [scanValueLast]
          split
          · next heq => exact absurd heq (hne _)
          · rw [ihitems _ _ hitems]
            exact h
      case h_10 =>
        -- the text begins with none of the tokens above
        rw [scanValueLast]
        · exact h
        all_goals assumption
      all_goals
        rw [scanValueLast]
        exact h
    · intro h
      rw [scanItems] at h
      obtain ⟨⟨v, u⟩, hv, h⟩ := Results.bind_eq_ok.mp h
      rw [scanItemsLast]
      refine Results.bind_eq_ok.mpr ⟨_, ihvalue _ _ hv, ?_⟩
      dsimp only at h ⊢
      split at h
      · next heq => simpa only [heq] using h
      · next heq =>
        obtain ⟨⟨l, rest⟩, hl, h⟩ := Results.bind_eq_ok.mp h
        try rw [heq]
        exact Results.bind_eq_ok.mpr ⟨_, ihitems _ _ hl, h⟩
      · cases h
    · intro h
      unfold scanFields at h
      split at h
      · split at h
        · cases h
        · next htext =>
          split at h
          · next hcolon =>
            obtain ⟨⟨v, u⟩, hv, h⟩ := Results.bind_eq_ok.mp h
            rw [scanFieldsLast, htext]
            dsimp only at h ⊢
            rw [hcolon]
            refine Results.bind_eq_ok.mpr ⟨_, ihvalue _ _ hv, ?_⟩
            dsimp only
            split at h
            · next heq => simpa only [heq] using h
            · next heq =>
              obtain ⟨⟨d, rest⟩, hd, h⟩ := Results.bind_eq_ok.mp h
              try rw [heq]
              exact Results.bind_eq_ok.mpr ⟨_, ihfields _ _ hd, h⟩
            · cases h
          · cases h
      · cases h

/-- **What is read where a key may not be there twice is read so without that.** -/
theorem loadsLast_of_loads {t : Text} {v : Value} (h : loads t = .ok v) : loadsLast t = .ok v := by
  rw [loads] at h
  obtain ⟨p, hp, h⟩ := Results.bind_eq_ok.mp h
  rw [loadsLast]
  exact Results.bind_eq_ok.mpr ⟨p, (scanLast_of_scan _).1 _ _ hp, h⟩

end Json
