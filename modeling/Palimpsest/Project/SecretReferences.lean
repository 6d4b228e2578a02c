import Palimpsest.Project.SecretShapes

/-!
# Secret-shaped keys

A key that is secret-shaped needs a template that is a reference to a variable, with or without a
message (`isExternalSecretReference_iff`). All references are accepted that do not look like a
secret themselves (`parseEnvironment_references`), and what is accepted is accepted again where
the project is written (`assertStateSafe_of_checkPairs`).
-/

namespace Palimpsest.Project

open Json Regex

variable {alnum : Char → Bool} {context key name message : Text} {t : Template}

/-- A template is a reference to a variable and nothing else. -/
def Template.IsReference (t : Template) : Prop :=
  t.isLiteral = false ∧ ∃ name, IsKey name ∧ (t.text = reference name ∨
    ∃ message, (∀ c ∈ message, isOperandChar c = true) ∧ t.text = requiring name message)

theorem isExternalSecretReference_iff : isExternalSecretReference t = true ↔ t.IsReference := by
  rw [isExternalSecretReference, Bool.and_eq_true, Bool.not_eq_true', pureInterpolationRe_iff]
  rfl

/-! ### What is accepted -/

/-- No character is NUL or a carriage return. -/
def isPrintable (t : Text) : Bool := t.all fun c => c ≠ '\x00' && c ≠ '\r'

theorem stringValue_eq_ok (context : Text) :
    stringValue t.text context false = .ok () ↔ isPrintable t.text = true := by
  have hnot : (t.text.any fun c => c = '\x00' || c = '\r') = !isPrintable t.text := by
    rw [isPrintable, List.not_all_eq_any_not]
    congr 1
    funext c
    rw [Bool.not_and, decide_not, decide_not, Bool.not_not, Bool.not_not]
  rw [stringValue, hnot]
  cases isPrintable t.text with
  | false => exact iff_of_false nofun Bool.false_ne_true
  | true => exact iff_of_true rfl rfl

theorem rejectSecretValue_eq_ok (context : Text) {text : Text} :
    rejectSecretValue alnum text context = .ok () ↔ isSecretValue alnum text = false := by
  rw [rejectSecretValue]
  cases isSecretValue alnum text with
  | false => exact iff_of_true rfl rfl
  | true => exact iff_of_false nofun Bool.noConfusion

/-- A template with valid expressions is valid if it is printable and does not look like a
secret. -/
theorem validateTemplate_eq_ok (h : ∃ names, variablesFrom context none t.text = .ok names) :
    validateTemplate alnum t context = .ok () ↔
      isPrintable t.text = true ∧ isSecretValue alnum t.text = false := by
  obtain ⟨names, hnames⟩ := h
  have hvariables : ∃ names, interpolationVariables t context = .ok names := by
    rw [interpolationVariables]
    cases t.isLiteral with
    | true => exact ⟨[], rfl⟩
    | false =>
      rw [hnames]
      exact ⟨_, rfl⟩
  obtain ⟨names', hvariables⟩ := hvariables
  rw [← stringValue_eq_ok context, ← rejectSecretValue_eq_ok context,
    validateTemplate, hvariables]
  cases stringValue t.text context false with
  | error e => exact iff_of_false nofun fun h => nomatch h.1
  | ok a => exact ⟨fun h => ⟨rfl, h⟩, And.right⟩

/-- A reference is accepted for a key if and only if it is a valid template. -/
theorem checkPairs_singleton (hkey : IsKey key) (ht : t.IsReference) :
    checkPairs alnum context [] [(key, t)] = .ok () ↔
      validateTemplate alnum t (context ++ '.' :: key) = .ok () := by
  rw [checkPairs, checkPair, envKeyRe_iff.mpr hkey, isExternalSecretReference_iff.mpr ht]
  cases validateTemplate alnum t (context ++ '.' :: key) with
  | error e => exact iff_of_false (by rintro ⟨⟩) (by rintro ⟨⟩)
  | ok a =>
    cases isSensitiveKey key with
    | false => exact iff_of_true rfl rfl
    | true => exact iff_of_true rfl rfl

/-! ### What a check says -/

theorem isSecretValue_of_validateTemplate {a : Unit}
    (h : validateTemplate alnum t context = .ok a) : isSecretValue alnum t.text = false := by
  rw [validateTemplate] at h
  cases hstring : stringValue t.text context false with
  | error e =>
    rw [hstring] at h
    cases h
  | ok a =>
    cases hvariables : interpolationVariables t context with
    | error e =>
      rw [hstring, hvariables] at h
      cases h
    | ok names =>
      rw [hstring, hvariables] at h
      exact (rejectSecretValue_eq_ok _).mp h

theorem checkPair_spec {seen : List Text} {pair : Text × Template}
    (h : checkPair alnum context seen pair = .ok ()) :
    isSecretValue alnum pair.2.text = false ∧
      (isSensitiveKey pair.1 = true → pair.2.IsReference) := by
  rw [checkPair] at h
  split_ifs at h with hkey hseen hsecret
  · cases hvalid : validateTemplate alnum pair.2 (context ++ '.' :: pair.1) with
    | error e =>
      rw [hvalid] at h
      cases h
    | ok a =>
      rw [hvalid] at h
      cases h
  · cases hvalid : validateTemplate alnum pair.2 (context ++ '.' :: pair.1) with
    | error e =>
      rw [hvalid] at h
      cases h
    | ok a =>
      refine ⟨isSecretValue_of_validateTemplate hvalid, fun hsensitive => ?_⟩
      rw [hsensitive, Bool.true_and, Bool.not_eq_true', Bool.not_eq_false] at hsecret
      exact isExternalSecretReference_iff.mp hsecret

theorem checkPairs_spec {seen : List Text} {pairs : List (Text × Template)}
    (h : checkPairs alnum context seen pairs = .ok ()) :
    ∀ pair ∈ pairs, isSecretValue alnum pair.2.text = false ∧
      (isSensitiveKey pair.1 = true → pair.2.IsReference) := by
  induction pairs generalizing seen with
  | nil => exact nofun
  | cons pair pairs ih =>
    rw [checkPairs] at h
    cases hpair : checkPair alnum context seen pair with
    | error e =>
      rw [hpair] at h
      cases h
    | ok a =>
      rw [hpair] at h
      exact List.forall_mem_cons.mpr ⟨checkPair_spec hpair, ih h⟩

/-- What is accepted was checked. -/
theorem parseEnvironment_spec {value : EnvironmentValue} {result : List (Text × Template)}
    (h : parseEnvironment alnum value context = .ok result) :
    ∀ pair ∈ result, isSecretValue alnum pair.2.text = false ∧
      (isSensitiveKey pair.1 = true → pair.2.IsReference) := by
  rw [parseEnvironment] at h
  cases hpairs : environmentPairs context value with
  | error e =>
    rw [hpairs] at h
    cases h
  | ok pairs =>
    cases hcheck : checkPairs alnum context [] pairs with
    | error e =>
      rw [hpairs] at h
      change (checkPairs alnum context [] pairs >>= _) = _ at h
      rw [hcheck] at h
      cases h
    | ok a =>
      rw [hpairs] at h
      change (checkPairs alnum context [] pairs >>= _) = _ at h
      rw [hcheck] at h
      obtain rfl := Except.ok.inj h
      exact fun pair hpair => checkPairs_spec hcheck pair (List.mem_mergeSort.mp hpair)

/-- What was checked is written. -/
theorem assertStateSafe_eq_ok {environment : List (Text × Template)}
    (h : ∀ pair ∈ environment, isSecretValue alnum pair.2.text = false ∧
      (isSensitiveKey pair.1 = true → pair.2.IsReference)) :
    assertStateSafe alnum environment = .ok () := by
  induction environment with
  | nil => rfl
  | cons pair environment ih =>
    obtain ⟨⟨hsecret, hreference⟩, hrest⟩ := List.forall_mem_cons.mp h
    have hsafe : (isSensitiveKey pair.1 && !isExternalSecretReference pair.2) = false := by
      cases hsensitive : isSensitiveKey pair.1 with
      | false => rfl
      | true => rw [isExternalSecretReference_iff.mpr (hreference hsensitive)]; rfl
    rw [assertStateSafe, (rejectSecretValue_eq_ok _).mpr hsecret, hsafe]
    exact ih hrest

/-! ### The four references -/

theorem isPrintable_of_isKeyChar (h : ∀ c ∈ key, isKeyChar c = true) : isPrintable key = true := by
  refine List.all_eq_true.mpr fun c hc => ?_
  have hnot : isKeyChar '\x00' = false ∧ isKeyChar '\r' = false := by decide
  rw [Bool.and_eq_true, decide_eq_true_eq, decide_eq_true_eq]
  constructor
  · rintro rfl
    exact absurd (h _ hc) (by rw [hnot.1]; exact Bool.false_ne_true)
  · rintro rfl
    exact absurd (h _ hc) (by rw [hnot.2]; exact Bool.false_ne_true)

theorem isPrintable_reference (h : IsKey name) : isPrintable (reference name) = true := by
  have hname := isPrintable_of_isKeyChar h.chars
  rw [isPrintable] at hname ⊢
  rw [reference, List.all_cons, List.all_cons, List.all_append, hname]
  rfl

theorem isPrintable_requiring (h : IsKey name) :
    isPrintable (requiring name message) = isPrintable message := by
  have hname := isPrintable_of_isKeyChar h.chars
  rw [isPrintable] at hname
  rw [isPrintable, isPrintable, requiring, List.all_cons, List.all_cons, List.all_append, hname,
    List.all_cons, List.all_cons, List.all_append]
  exact Bool.and_true _

theorem isReference_reference (h : IsKey name) : (⟨reference name, false⟩ : Template).IsReference :=
  ⟨rfl, name, h, .inl rfl⟩

theorem isReference_requiring (h : IsKey name) (hm : ∀ c ∈ message, isOperandChar c = true) :
    (⟨requiring name message, false⟩ : Template).IsReference :=
  ⟨rfl, name, h, .inr ⟨message, hm, rfl⟩⟩

/-- A key alone, with a reference. -/
theorem parseEnvironment_eq_ok {value : EnvironmentValue} (hkey : IsKey key) (ht : t.IsReference)
    (hvariables : ∃ names, variablesFrom (context ++ '.' :: key) none t.text = .ok names)
    (hvalue : isPrintable t.text = true → environmentPairs context value = .ok [(key, t)])
    (hvalue' : ∀ pairs, environmentPairs context value = .ok pairs → pairs = [(key, t)]) :
    parseEnvironment alnum value context = .ok [(key, t)] ↔
      isPrintable t.text = true ∧ isSecretValue alnum t.text = false := by
  rw [← validateTemplate_eq_ok hvariables, ← checkPairs_singleton hkey ht]
  constructor
  · intro h
    rw [parseEnvironment] at h
    cases hpairs : environmentPairs context value with
    | error e =>
      rw [hpairs] at h
      cases h
    | ok pairs =>
      obtain rfl := hvalue' pairs hpairs
      rw [hpairs] at h
      change (checkPairs alnum context [] [(key, t)] >>= _) = _ at h
      cases hcheck : checkPairs alnum context [] [(key, t)] with
      | error e =>
        rw [hcheck] at h
        cases h
      | ok a => rfl
  · intro h
    -- One pair is sorted already.
    have hprintable := (validateTemplate_eq_ok hvariables).mp ((checkPairs_singleton hkey ht).mp h)
    rw [parseEnvironment, hvalue hprintable.1]
    change (checkPairs alnum context [] [(key, t)] >>= _) = _
    rw [h]
    change Except.ok (List.mergeSort [(key, t)] _) = _
    rw [List.mergeSort_singleton]

theorem environmentPairs_singleton (entry : Text × Scalar) :
    environmentPairs context (.mapping [entry]) =
      (entryTemplate context entry).map fun p => [p] := by
  rw [environmentPairs, List.mapM_cons, List.mapM_nil]
  cases entryTemplate context entry with
  | error e => rfl
  | ok pair => rfl

/-- The template of an entry is its text, or a reference to the key. -/
theorem entryTemplate_eq (context : Text) {raw : Scalar}
    (h : raw = .text t ∨ raw = .null ∧ t = ⟨requiredReference key, false⟩) :
    entryTemplate context (key, raw) =
      (stringValue t.text (context ++ '.' :: key) false).map fun _ => (key, t) := by
  rcases h with rfl | ⟨rfl, rfl⟩
  · change (stringValue t.text (context ++ '.' :: key) false >>= fun _ => pure (key, t)) = _
    cases stringValue t.text (context ++ '.' :: key) false with
    | error e => rfl
    | ok a => rfl
  · change (stringValue (requiredReference key) (context ++ '.' :: key) false >>= fun _ =>
      pure (key, (⟨requiredReference key, false⟩ : Template))) = _
    cases stringValue (requiredReference key) (context ++ '.' :: key) false with
    | error e => rfl
    | ok a => rfl

/-- A mapping of a key to a reference. -/
theorem parseEnvironment_mapping (alnum : Char → Bool) {raw : Scalar} (hkey : IsKey key)
    (ht : t.IsReference)
    (hraw : raw = .text t ∨ raw = .null ∧ t = ⟨requiredReference key, false⟩)
    (hvariables : ∃ names, variablesFrom (context ++ '.' :: key) none t.text = .ok names) :
    parseEnvironment alnum (.mapping [(key, raw)]) context = .ok [(key, t)] ↔
      isPrintable t.text = true ∧ isSecretValue alnum t.text = false := by
  have hpairs := (environmentPairs_singleton (key, raw)).trans
    (congrArg (Except.map fun p => [p]) (entryTemplate_eq context hraw))
  refine parseEnvironment_eq_ok hkey ht hvariables (fun hprintable => ?_) fun pairs h => ?_
  · rw [hpairs, (stringValue_eq_ok _).mpr hprintable]
    rfl
  · rw [hpairs] at h
    cases hstring : stringValue t.text (context ++ '.' :: key) false with
    | error e =>
      rw [hstring] at h
      cases h
    | ok a =>
      rw [hstring] at h
      exact (Except.ok.inj h).symm

theorem itemTemplate_text (key : Text) (index : ℕ) :
    itemTemplate context (.text ⟨key, false⟩) index =
      (stringValue key (context ++ '[' :: natText index ++ [']']) true >>= fun _ =>
        match key.dropWhile fun c => c ≠ '=' with
        | [] => pure (key.takeWhile fun c => c ≠ '=',
            (⟨requiredReference (key.takeWhile fun c => c ≠ '='), false⟩ : Template))
        | _ :: rawValue => pure (key.takeWhile fun c => c ≠ '=', ⟨rawValue, false⟩)) := rfl

/-- A key as an item. -/
theorem environmentPairs_item (hkey : IsKey key) :
    environmentPairs context (.sequence [.text ⟨key, false⟩]) =
      .ok [(key, ⟨requiredReference key, false⟩)] := by
  have hne : ∀ c ∈ key, decide (c ≠ '=') = true := by
    intro c hc
    refine decide_eq_true ?_
    rintro rfl
    exact absurd (hkey.chars _ hc) (by decide)
  have hspace : key.all isSpace = false := by
    obtain ⟨c, u, rfl, hc, -⟩ := hkey
    rw [List.all_cons, isSpace_of_isKeyChar (isKeyChar_of_isKeyStart hc), Bool.false_and]
  have hnot : (key.any fun c => c = '\x00' || c = '\r') = false := by
    have hprintable := isPrintable_of_isKeyChar hkey.chars
    rw [List.any_eq_false]
    intro c hc
    have hc := List.all_eq_true.mp hprintable c hc
    simpa only [Bool.and_eq_true, decide_eq_true_eq, Bool.or_eq_true, not_or] using hc
  have hitem : itemTemplate context (.text ⟨key, false⟩) 0 =
      .ok (key, ⟨requiredReference key, false⟩) := by
    have hstring : stringValue key (context ++ '[' :: natText 0 ++ [']']) true = .ok () := by
      rw [stringValue, hnot, hspace]
      rfl
    rw [itemTemplate_text, hstring, List.dropWhile_eq_nil_iff.mpr hne,
      List.takeWhile_eq_self_iff.mpr hne]
    rfl
  rw [environmentPairs, itemTemplates, hitem]
  rfl

/-- The template of a key without a template. -/
theorem required_iff (alnum : Char → Bool) (hkey : IsKey key) :
    isPrintable (requiredReference key) = true ∧
        isSecretValue alnum (requiredReference key) = false ↔
      secretWord.fullMatch key = false := by
  have hmessage : isPrintable (key ++ " is required".toList) = true := by
    have hprintable := isPrintable_of_isKeyChar hkey.chars
    rw [isPrintable] at hprintable ⊢
    rw [List.all_append, hprintable]
    decide
  rw [requiredReference_eq, isPrintable_requiring hkey, hmessage, ← Bool.not_eq_true,
    isSecretValue_requiring hkey.chars, isSecretValue_required hkey.chars]
  simp only [Bool.false_eq_true, or_false, true_and, Bool.not_eq_true]

theorem isOperandChar_required (hkey : IsKey key) :
    ∀ c ∈ key ++ " is required".toList, isOperandChar c = true := by
  intro c hc
  rcases List.mem_append.mp hc with hc | hc
  · have hnot : isKeyChar '{' = false ∧ isKeyChar '}' = false ∧ isKeyChar '$' = false := by decide
    have hc := hkey.chars c hc
    simp only [isOperandChar, Bool.and_eq_true, decide_eq_true_eq]
    refine ⟨⟨?_, ?_⟩, ?_⟩
    · rintro rfl
      exact absurd hc (by rw [hnot.1]; exact Bool.false_ne_true)
    · rintro rfl
      exact absurd hc (by rw [hnot.2.1]; exact Bool.false_ne_true)
    · rintro rfl
      exact absurd hc (by rw [hnot.2.2]; exact Bool.false_ne_true)
  · exact List.all_eq_true.mp (by decide : " is required".toList.all isOperandChar = true) c hc

/-- A key without a template is accepted, in a mapping and as an item. -/
theorem parseEnvironment_required (hkey : IsKey key) {value : EnvironmentValue}
    (hvalue : value = .mapping [(key, .null)] ∨ value = .sequence [.text ⟨key, false⟩]) :
    parseEnvironment alnum value context = .ok [(key, ⟨requiredReference key, false⟩)] ↔
      secretWord.fullMatch key = false := by
  have ht : (⟨requiredReference key, false⟩ : Template).IsReference :=
    requiredReference_eq key ▸ isReference_requiring hkey (isOperandChar_required hkey)
  have hvariables : ∃ names, variablesFrom (context ++ '.' :: key) none (requiredReference key) =
      .ok names :=
    requiredReference_eq key ▸ variablesFrom_requiring _ hkey (isOperandChar_required hkey)
  rw [← required_iff alnum hkey]
  rcases hvalue with rfl | rfl
  · exact parseEnvironment_mapping alnum hkey ht (.inr ⟨rfl, rfl⟩) hvariables
  · refine parseEnvironment_eq_ok hkey ht hvariables (fun _ => environmentPairs_item hkey)
      fun pairs h => ?_
    rw [environmentPairs_item hkey] at h
    exact (Except.ok.inj h).symm

/-- **References are accepted** for a key, also for a secret-shaped one, if and only if neither the
key nor the variable is a word for secrets, and the message is printable and does not look like a
secret between its question mark and its brace. A secret-shaped key has no other template, and
what is accepted is accepted where the project is written. -/
theorem parseEnvironment_references (alnum : Char → Bool) (context : Text) {key name message : Text}
    (hkey : envKeyRe.fullMatch key = true) (hname : envKeyRe.fullMatch name = true)
    (hm : ∀ c ∈ message, isOperandChar c = true) :
    (parseEnvironment alnum (.mapping [(key, .null)]) context =
          .ok [(key, ⟨requiredReference key, false⟩)] ∧
        parseEnvironment alnum (.sequence [.text ⟨key, false⟩]) context =
          .ok [(key, ⟨requiredReference key, false⟩)] ∧
        parseEnvironment alnum (.mapping [(key, .text ⟨reference name, false⟩)]) context =
          .ok [(key, ⟨reference name, false⟩)] ∧
        parseEnvironment alnum (.mapping [(key, .text ⟨requiring name message, false⟩)]) context =
          .ok [(key, ⟨requiring name message, false⟩)] ↔
      secretWord.fullMatch key = false ∧ secretWord.fullMatch name = false ∧
        isPrintable message = true ∧ isSecretValue alnum ('?' :: (message ++ ['}'])) = false) ∧
    (isSensitiveKey key = true → ∀ value result t,
      parseEnvironment alnum value context = .ok result → (key, t) ∈ result → t.IsReference) ∧
    ∀ value result, parseEnvironment alnum value context = .ok result →
      assertStateSafe alnum result = .ok () := by
  have hkey := envKeyRe_iff.mp hkey
  have hname := envKeyRe_iff.mp hname
  refine ⟨?_, fun hsensitive value result t h ht => (parseEnvironment_spec h _ ht).2 hsensitive,
    fun value result h => assertStateSafe_eq_ok (parseEnvironment_spec h)⟩
  have hreference := parseEnvironment_mapping alnum hkey (isReference_reference hname)
    (.inl rfl) (variablesFrom_reference (context ++ '.' :: key) hname)
  have hrequiring := parseEnvironment_mapping alnum hkey (isReference_requiring hname hm)
    (.inl rfl) (variablesFrom_requiring (context ++ '.' :: key) hname hm)
  rw [parseEnvironment_required hkey (.inl rfl), parseEnvironment_required hkey (.inr rfl),
    hreference, hrequiring, isPrintable_reference hname, isSecretValue_reference hname.chars,
    isPrintable_requiring hname, ← Bool.not_eq_true (isSecretValue alnum (requiring name message)),
    isSecretValue_requiring hname.chars, not_or, Bool.not_eq_true, Bool.not_eq_true]
  constructor
  · rintro ⟨h, -, -, hprintable, hword, hmessage⟩
    exact ⟨h, hword, hprintable, hmessage⟩
  · rintro ⟨h, hword, hprintable, hmessage⟩
    exact ⟨h, h, ⟨rfl, rfl⟩, hprintable, hword, hmessage⟩

/-- The key `DB_PASSWORD`, alone and with the variable `DB` and a message. -/
theorem parseEnvironment_references_db :
    parseEnvironment (fun _ => false) (.mapping [("DB_PASSWORD".toList, .null)])
          "environment".toList =
        .ok [("DB_PASSWORD".toList, ⟨requiredReference "DB_PASSWORD".toList, false⟩)] ∧
      parseEnvironment (fun _ => false) (.mapping [("DB_PASSWORD".toList,
          .text ⟨requiring "DB".toList "set it".toList, false⟩)]) "environment".toList =
        .ok [("DB_PASSWORD".toList, ⟨requiring "DB".toList "set it".toList, false⟩)] := by
  have hkey : envKeyRe.fullMatch "DB_PASSWORD".toList = true := by decide
  have hname : envKeyRe.fullMatch "DB".toList = true := by decide
  have hm : ∀ c ∈ "set it".toList, isOperandChar c = true :=
    List.all_eq_true.mp (by decide)
  obtain ⟨hnull, -, -, hrequiring⟩ := (parseEnvironment_references (fun _ => false)
    "environment".toList hkey hname hm).1.mpr
    ⟨by decide, by decide, by decide, by decide⟩
  exact ⟨hnull, hrequiring⟩

/-- The keys `PASSWORD` without a template, and `DB_PASSWORD` with a required variable `TOKEN`, are
rejected, although nothing in the message looks like a secret. -/
theorem parseEnvironment_rejects_reference :
    envKeyRe.fullMatch "PASSWORD".toList = true ∧ envKeyRe.fullMatch "TOKEN".toList = true ∧
      isSecretValue (fun _ => false) "set it".toList = false ∧
      parseEnvironment (fun _ => false) (.mapping [("PASSWORD".toList, .null)])
          "environment".toList = .error (.secretValue "environment.PASSWORD".toList) ∧
      parseEnvironment (fun _ => false) (.mapping [("DB_PASSWORD".toList,
          .text ⟨requiring "TOKEN".toList "set it".toList, false⟩)]) "environment".toList =
        .error (.secretValue "environment.DB_PASSWORD".toList) := by
  decide

end Palimpsest.Project
