import Palimpsest.Control.FrameDecoder
import Palimpsest.Control.Texts
import Palimpsest.Monitor.Identity

/-!
# Messages are read back

The content of a message is read back from its payload by the checks of the constructor
(`Palimpsest.Control.contentOf_payload`), and so every envelope is read back from its canonical
text. A frame is decoded to an envelope exactly when it is the frame of that envelope
(`Palimpsest.Control.decodeFrame_eq_ok_iff`). So the decoder gives a list of envelopes for a
stream without raising exactly when the stream is made of their frames, however it is cut into
chunks (`Palimpsest.Control.decodeChunks_iff`).
-/

namespace Palimpsest.Control

open Json

/-! ### Payloads -/

theorem Field.int_natCast {n low high : ℕ} (h : low ≤ n ∧ n ≤ high) (message : String) :
    Field.int (.int n) low high message = .ok ⟨n, h⟩ := by
  rw [Field.int, dif_pos (by omega)]
  rfl

theorem Field.counter_value (n : Counter) (label : String) :
    Field.counter (counterValue (some n)) label = .ok n := Field.counter_int n label

theorem Field.optional_value (n : Option Counter) (label : String) :
    Field.optional (counterValue n) label = .ok n := by
  cases n with
  | none => rfl
  | some n =>
    rw [Field.optional, if_neg (by simp [counterValue]), Field.counter_value]
    rfl

theorem sorted_counterValue (n : Option Counter) : (counterValue n).sorted = counterValue n := by
  cases n <;> rfl

theorem sorted_terminal (t : Terminal) : t.toValue.sorted = t.toValue := by
  cases t with
  | exitCode code h =>
    rw [Terminal.toValue, Value.sorted, sortFields_of_pairwise]
    · rfl
    · simp only [Value.sortedFields, List.map_cons, List.map_nil]
      decide
  | signal number h =>
    rw [Terminal.toValue, Value.sorted, sortFields_of_pairwise]
    · rfl
    · simp only [Value.sortedFields, List.map_cons, List.map_nil]
      decide

/-- A dictionary with the right keys. -/
theorem exact_dict {d : List (String × Value)} {fields : List String} (label : String)
    (h : hasKeys d fields) : exact (.dict d) fields label = .ok d := by
  simp only [hasKeys, Bool.and_eq_true, List.all_eq_true, decide_eq_true_eq] at h
  exact if_pos h

/-- A terminal result is read back. -/
theorem terminal_toValue (t : Terminal) : Control.terminal t.toValue = .ok t := by
  cases t with
  | exitCode code h =>
    have hcode : (0 : ℤ) ≤ code ∧ (code : ℤ) ≤ 255 := by omega
    rw [Control.terminal, Terminal.toValue, exact_dict "terminal" rfl]
    exact dif_pos hcode
  | signal number h =>
    have hnumber : (1 : ℤ) ≤ number ∧ (number : ℤ) ≤ 64 := by omega
    rw [Control.terminal, Terminal.toValue, exact_dict "terminal" rfl]
    exact dif_pos hnumber

theorem terminal_ne_null (t : Terminal) : t.toValue ≠ .null := by
  cases t <;> exact Value.noConfusion

/-- A dictionary with its fields in order. -/
theorem sorted_dict {d d' : List (String × Value)} (h : (Value.sortedFields d).Perm d')
    (hkeys : (keys d').Pairwise (· < ·)) : Value.sorted (.dict d) = .dict d' := by
  rw [Value.sorted, sortFields_of_perm h hkeys]

/-- The identity of a root directory is read back. -/
theorem validateRootIdentity_toValue (i : RootIdentity) :
    validateRootIdentity i.toValue.sorted = .ok i := by
  have hsorted : i.toValue.sorted = .dict [("device", .int i.device),
      ("filesystem", .str "overlayfs"), ("inode", .int i.inode), ("pid", .int 1),
      ("schema", .str "palimpsest.oci-root-identity.v1")] := by
    refine sorted_dict (perm_of_places (n := 5) [3, 2, 4, 1, 0] rfl (by decide) rfl) ?_
    simp only [keys, List.map_cons, List.map_nil]
    decide
  have hdevice := Field.int_natCast ⟨Nat.zero_le i.device, i.device_le⟩
    "root identity device is invalid"
  have hinode := Field.int_natCast ⟨i.inode_pos, i.inode_le⟩ "root identity inode is invalid"
  rw [hsorted, validateRootIdentity, exact_dict _ rfl]
  simp [bind, Except.bind, field, lookup, require, hdevice, hinode]
  rfl

/-- A payload whose fields are in order and hold nothing to be sorted. -/
theorem sorted_payload {d : List (String × Value)} (h : Value.sortedFields d = d)
    (hkeys : (keys d).Pairwise (· < ·)) : sortFields (Value.sortedFields d) = d := by
  rw [h, sortFields_of_pairwise hkeys]

/-- The public state of a workload, with its result in the field of a mapping. -/
theorem sortedFields_state (s : LifecycleState Terminal) :
    Value.sortedFields (s.fields Terminal.toValue) = s.fields Terminal.toValue := by
  have hterminal : (s.terminalValue Terminal.toValue).sorted =
      s.terminalValue Terminal.toValue := by
    cases s with
    | ready => rfl
    | stopping n => rfl
    | terminal n t => exact sorted_terminal t
  rw [LifecycleState.fields_eq]
  simp only [Value.sortedFields, hterminal, sorted_counterValue, Value.sorted]

theorem keys_state (s : LifecycleState Terminal) :
    (keys (s.fields Terminal.toValue)).Pairwise (· < ·) := by
  rw [LifecycleState.fields_eq]
  simp only [keys, List.map_cons, List.map_nil]
  decide

/-- A state is read back as the payload of a SNAPSHOT. -/
theorem snapshot_fields (s : LifecycleState Terminal) :
    snapshot (s.fields Terminal.toValue) = .ok s := by
  rw [LifecycleState.fields_eq, snapshot, exact_dict _ rfl]
  cases s with
  | ready => rfl
  | stopping n =>
    simp [bind, Except.bind, field, lookup, LifecycleState.name, LifecycleState.stopRequestId,
      LifecycleState.terminalValue, Field.counter_value]
    rfl
  | terminal n t =>
    simp [bind, Except.bind, field, lookup, LifecycleState.name, LifecycleState.stopRequestId,
      LifecycleState.terminalValue, terminal_toValue, Field.optional_value]
    rfl

/-- A state whose result is a mapping is read back as part of a BOUNDARY_ACK. -/
theorem lifecycleState_fields {s : LifecycleState TerminalResult} (h : s.Mapped) :
    lifecycleState (s.fields TerminalResult.toValue) = .ok s := by
  rw [LifecycleState.fields_eq, lifecycleState]
  cases s with
  | ready => rfl
  | stopping n =>
    simp [bind, Except.bind, field, lookup, LifecycleState.name, LifecycleState.stopRequestId,
      LifecycleState.terminalValue, Field.counter_value]
    rfl
  | terminal n r =>
    cases r with
    | pairs items t ht => exact h.elim
    | mapping t =>
      have hresult : terminalOfDict t.toValue = .ok (.mapping t) := by
        have ht := terminal_toValue t
        cases t <;> exact congrArg (TerminalResult.mapping <$> ·) ht
      simp [bind, Except.bind, field, lookup, LifecycleState.name, LifecycleState.stopRequestId,
        LifecycleState.terminalValue, Field.optional_value, require, terminal_ne_null,
        TerminalResult.toValue, hresult]
      rfl

/-- The payload of a BOUNDARY_ACK is read back. -/
theorem boundaryAck_payload {b : BoundaryAck} (h : b.lifecycleState.Mapped) (generation : Uuid)
    (replyTo : Counter) : boundaryAck (Content.boundaryAck generation replyTo b).payload =
      .ok b := by
  obtain ⟨hheader, hbytes, hexpected⟩ := b.parser_le
  have hparser := b.parser_ok
  have hcount : ∀ {n : ℕ} (hn : n ≤ maxCounter) message,
      Field.int (.int n) 0 maxCounter message = .ok ⟨n, Nat.zero_le n, hn⟩ :=
    fun hn => Field.int_natCast ⟨Nat.zero_le _, hn⟩
  have hsize : b.discardedHeaderBytes ≤ 3 ∧ b.discardedPayloadBytes ≤ maxPayloadBytes ∧
      b.discardedPayloadExpected ≤ maxPayloadBytes := by
    unfold ParserState at hparser
    omega
  have hsizes : ∀ {n : ℕ} (hn : n ≤ maxPayloadBytes) message,
      Field.int (.int n) 0 maxPayloadBytes message = .ok ⟨n, Nat.zero_le n, hn⟩ :=
    fun hn => Field.int_natCast ⟨Nat.zero_le _, hn⟩
  have hstate : exact (.dict (b.lifecycleState.fields TerminalResult.toValue))
      ["state", "stop_request_id", "terminal"] "BOUNDARY_ACK lifecycle state" =
      .ok (b.lifecycleState.fields TerminalResult.toValue) := exact_dict _ rfl
  rw [Content.payload, boundaryAck, exact_dict _ rfl]
  simp [bind, Except.bind, field, lookup, require, hcount, hheader, b.accepted_le,
    b.attempted_le, b.previous_le, hsizes, hsize, hparser, hstate, lifecycleState_fields h,
    Field.uuid_str, Field.digest_str, BoundaryAck.stateDigest]
  rfl

theorem mapM_strings {f : Value → Option String} (hf : ∀ s, f (.str s) = some s)
    (l : List String) : (l.map .str).mapM f = some l := by
  induction l with
  | nil => rfl
  | cons s l ih =>
    rw [List.map_cons, List.mapM_cons, hf, ih]
    rfl

theorem execArgv_strings (argv : {l : List String // ExecArgv l}) :
    execArgv (.list (argv.1.map .str)) = .ok argv := by
  obtain ⟨hn, hs, b, hb, hl⟩ := argv.2
  rw [execArgv, mapM_strings fun _ => rfl]
  dsimp only
  rw [validateExecArgv, dif_pos hn, dif_pos hs]
  split
  · next heq => cases heq.symm.trans hb
  · next b' heq =>
    obtain rfl := Except.ok.inj (heq.symm.trans hb)
    exact dif_pos hl

theorem execTimeout_int (timeout : {n : ℕ // 1 ≤ n ∧ n ≤ maxOCIExecTimeoutMs}) :
    execTimeout (.int timeout.1) = .ok timeout := by
  have hle : (1 : ℤ) ≤ timeout.1 ∧ (timeout.1 : ℤ) ≤ maxOCIExecTimeoutMs := by
    have h := timeout.2
    omega
  rw [execTimeout, validateExecTimeout, dif_pos hle]
  rfl

/-- The payload of an EXEC_OUTPUT is read back. -/
theorem execOutput_payload (o : ExecOutput) :
    execOutput [("data_hex", .str o.dataHex), ("offset", .int o.offset),
      ("stream", .str o.stream.text)] = .ok o := by
  have hoffset := o.offset_lt
  have hint := Field.int_natCast
    (show 0 ≤ o.offset ∧ o.offset ≤ maxOCIExecOutputBytes - 1 by omega)
    "exec output offset is invalid"
  have hstream : Stream.ofValue (.str o.stream.text) = .ok o.stream := by
    cases o.stream <;> rfl
  rw [execOutput, exact_dict _ rfl]
  simp [bind, Except.bind, field, lookup, hint, hstream, o.data_ok, o.end_le]
  rfl

/-- The payload of an EXEC_EXIT is read back. -/
theorem execExit_payload (x : ExecExit) :
    execExit [("reason", .str x.reason.text), ("stderr_bytes", .int x.stderrBytes),
      ("stdout_bytes", .int x.stdoutBytes), ("terminal", x.terminalValue)] = .ok x := by
  have htotal := x.total_le
  have hout := Field.int_natCast
    (show 0 ≤ x.stdoutBytes ∧ x.stdoutBytes ≤ maxOCIExecOutputBytes by omega)
    "exec output count is invalid"
  have herr := Field.int_natCast
    (show 0 ≤ x.stderrBytes ∧ x.stderrBytes ≤ maxOCIExecOutputBytes by omega)
    "exec output count is invalid"
  have hreason : ExecReason.ofValue (.str x.reason.text) = .ok x.reason := by
    cases x.reason <;> rfl
  obtain ⟨terminal, stdout, stderr, reason, htotal, hunstarted⟩ := x
  rw [execExit, exact_dict _ rfl]
  cases terminal with
  | none =>
    obtain ⟨rfl, rfl, rfl⟩ := hunstarted rfl
    rfl
  | some t =>
    simp [bind, Except.bind, field, lookup, hreason, hout, herr, htotal,
      ExecExit.terminalValue, terminal_ne_null, terminal_toValue]
    rfl

/-! ### Contents -/

/-- The payload as it is read back: its fields in order. -/
def Content.sortedPayload : Content → List (String × Value)
  | .boundaryAck g n b => (Content.boundaryAck g n b).payload
  | .ready _ _ (some i) => [("root_identity", i.toValue.sorted)]
  | .execOutput _ _ o =>
    [("data_hex", .str o.dataHex), ("offset", .int o.offset), ("stream", .str o.stream.text)]
  | .execExit _ _ x =>
    [("reason", .str x.reason.text), ("stderr_bytes", .int x.stderrBytes),
      ("stdout_bytes", .int x.stdoutBytes), ("terminal", x.terminalValue)]
  | c => c.payload

theorem sorted_strings (l : List String) :
    Value.sorted (.list (l.map .str)) = .list (l.map .str) := (spells_strings l).sorted

theorem sorted_payload_eq {c : Content} (h : c.Mapped) :
    sortFields (Value.sortedFields c.payload) = c.sortedPayload := by
  cases c with
  | hello n => rfl
  | keyAck g n => rfl
  | bootstrap g n key => rfl
  | reconnect g n digest boundaryId =>
    refine sorted_payload rfl ?_
    simp only [Content.payload, keys, List.map_cons, List.map_nil]
    decide
  | boundaryAck g n b =>
    have hstate := LifecycleState.Mapped.fields_eq h
    refine sorted_payload ?_ ?_
    · simp only [Content.payload, Value.sortedFields, Value.sorted, hstate, sortedFields_state,
        sortFields_of_pairwise (keys_state _)]
    · simp only [Content.payload, keys, List.map_cons, List.map_nil]
      decide
  | ready g n i =>
    cases i with
    | none => rfl
    | some i => rfl
  | snapshot g n s => exact sorted_payload (sortedFields_state s) (keys_state s)
  | stop g n signal => cases signal <;> rfl
  | exec g n argv timeout =>
    refine sorted_payload ?_ ?_
    · simp only [Content.payload, Value.sortedFields, sorted_strings]
      rfl
    · simp only [Content.payload, keys, List.map_cons, List.map_nil]
      decide
  -- The fields stand the other way round than they are sorted.
  | execOutput g n o =>
    refine sortFields_of_perm (perm_of_places (n := 3) [2, 1, 0] rfl (by decide) rfl) ?_
    simp only [Content.sortedPayload, List.map_cons, List.map_nil]
    decide
  | execExit g n x =>
    have hterminal : x.terminalValue.sorted = x.terminalValue := by
      unfold ExecExit.terminalValue
      cases x.terminal with
      | none => rfl
      | some t => exact sorted_terminal t
    have hpayload : Value.sortedFields (Content.execExit g n x).payload =
        [("terminal", x.terminalValue), ("stdout_bytes", .int x.stdoutBytes),
          ("stderr_bytes", .int x.stderrBytes), ("reason", .str x.reason.text)] :=
      congrArg (fun v => ("terminal", v) :: _) hterminal
    rw [hpayload]
    refine sortFields_of_perm (perm_of_places (n := 4) [3, 2, 1, 0] rfl (by decide) rfl) ?_
    simp only [Content.sortedPayload, List.map_cons, List.map_nil]
    decide
  | terminal g n t =>
    refine sorted_payload ?_ (List.pairwise_singleton ..)
    simp only [Content.payload, Value.sortedFields, sorted_terminal]

variable {c : Content} {epoch : ℕ}

/-- The identifiers of a content with a boot generation are read back. -/
theorem requestOf_content (hkind : c.kind ≠ .hello) (generation : Value) :
    requestOf c.kind ⟨counterValue c.requestId, generation, counterValue c.replyTo⟩ =
      .ok c.requestId := by
  have hrequest : c.kind.isRequest = c.requestId.isSome := by
    cases c <;> first | exact absurd rfl hkind | rfl
  have hreply : c.kind.isRequest → c.replyTo = none := by
    cases c <;> simp [Content.kind, Kind.isRequest, Content.replyTo]
  rw [requestOf]
  cases hn : c.requestId with
  | none =>
    rw [hn] at hrequest
    simp only [hrequest, Option.isSome_none, Bool.false_eq_true, if_false]
    rfl
  | some n =>
    rw [hn] at hrequest
    simp only [hrequest, Option.isSome_some, if_true, Field.counter_value, hreply hrequest]
    rfl

/-- **A content is read back** from its payload and its identifiers. -/
theorem contentOf_payload (h : c.Mapped) (hepoch : c.EpochOk epoch) :
    contentOf c.kind (sortFields (Value.sortedFields c.payload))
      ⟨counterValue c.requestId, stringValue (c.bootGeneration.map Subtype.val),
        counterValue c.replyTo⟩ epoch = .ok ⟨c, hepoch⟩ := by
  rw [sorted_payload_eq h]
  by_cases hkind : c.kind = .hello
  · cases c with
    | hello n => exact contentOf_hello n hepoch
    | _ => cases hkind
  obtain ⟨generation, hgeneration⟩ := Option.ne_none_iff_exists'.mp
    (mt Content.bootGeneration_eq_none.mp hkind)
  have hrequest := requestOf_content hkind (.str generation.1)
  rw [contentOf, if_neg hkind, hgeneration]
  simp only [Option.map_some, stringValue, Field.uuid_str, hrequest, bind, Except.bind]
  -- what is left are the checks of the payload and of what the message answers
  cases c with
  | hello n => exact absurd rfl hkind
  | bootstrap g n key =>
    obtain rfl := Option.some.inj hgeneration
    obtain rfl : epoch = 1 := hepoch
    have hkey : Field.hex32 (field [("boot_key", .str key.1)] "boot_key") "boot key" = .ok key :=
      Field.hex32_str ..
    have hexact : exact (.dict [("boot_key", .str key.1)]) ["boot_key"] "BOOTSTRAP payload" =
      .ok [("boot_key", .str key.1)] := exact_dict _ rfl
    simp only [Content.kind, Content.sortedPayload, Content.payload, Content.replyTo, hexact, hkey,
      Field.counter_value]
    rfl
  | keyAck g n =>
    obtain rfl := Option.some.inj hgeneration
    obtain rfl : epoch = 1 := hepoch
    have hexact : exact (.dict []) [] "KEY_ACK payload" = .ok [] := exact_dict _ rfl
    simp only [Content.kind, Content.sortedPayload, Content.payload, Content.replyTo, hexact,
      Field.counter_value]
    rfl
  | reconnect g n digest boundaryId =>
    obtain rfl := Option.some.inj hgeneration
    have hlt : 1 < epoch := hepoch
    have hexact : exact (.dict [("boundary_ack_digest", .str digest.1),
        ("boundary_id", .str boundaryId.1)]) ["boundary_ack_digest", "boundary_id"]
        "RECONNECT payload" = .ok [("boundary_ack_digest", .str digest.1),
          ("boundary_id", .str boundaryId.1)] := exact_dict _ rfl
    simp [Content.kind, Content.requestId, Content.sortedPayload, Content.payload, field, lookup,
      hexact, Field.digest_str, Field.uuid_str, checked, hlt]
    rfl
  | boundaryAck g n b =>
    obtain rfl := Option.some.inj hgeneration
    have hlt : 1 < epoch := hepoch
    have hpayload := boundaryAck_payload h g n
    simp only [Content.kind, Content.sortedPayload, Content.replyTo, hpayload,
      Field.counter_value, checked, dif_pos hlt]
    rfl
  | ready g n i =>
    obtain rfl := Option.some.inj hgeneration
    cases i with
    | none =>
      simp only [Content.kind, Content.sortedPayload, Content.payload, Content.replyTo,
        Field.counter_value]
      rfl
    | some i =>
      have hidentity : validateRootIdentity (field [("root_identity", i.toValue.sorted)]
        "root_identity") = .ok i := validateRootIdentity_toValue i
      have hexact : exact (.dict [("root_identity", i.toValue.sorted)]) ["root_identity"]
        "READY payload" = .ok [("root_identity", i.toValue.sorted)] := exact_dict _ rfl
      simp only [Content.kind, Content.sortedPayload, Content.replyTo, Field.counter_value, hexact,
        hidentity]
      rfl
  | snapshot g n s =>
    obtain rfl := Option.some.inj hgeneration
    simp only [Content.kind, Content.sortedPayload, Content.payload, Content.replyTo,
      Field.counter_value, snapshot_fields]
    rfl
  | stop g n signal =>
    obtain rfl := Option.some.inj hgeneration
    cases signal <;> rfl
  | exec g n argv timeout =>
    obtain rfl := Option.some.inj hgeneration
    have hexact : exact (.dict [("argv", .list (argv.1.map .str)), ("timeout_ms", .int timeout.1)])
      ["argv", "timeout_ms"] "EXEC payload" =
        .ok [("argv", .list (argv.1.map .str)), ("timeout_ms", .int timeout.1)] := exact_dict _ rfl
    simp [Content.kind, Content.requestId, Content.sortedPayload, Content.payload, field, lookup,
      hexact, execArgv_strings, execTimeout_int]
    rfl
  | execOutput g n o =>
    obtain rfl := Option.some.inj hgeneration
    simp only [Content.kind, Content.sortedPayload, Content.replyTo, Field.counter_value,
      execOutput_payload]
    rfl
  | execExit g n x =>
    obtain rfl := Option.some.inj hgeneration
    simp only [Content.kind, Content.sortedPayload, Content.replyTo, Field.counter_value,
      execExit_payload]
    rfl
  | terminal g n t =>
    obtain rfl := Option.some.inj hgeneration
    have hresult : Control.terminal (field [("terminal", t.toValue)] "terminal") = .ok t :=
      terminal_toValue t
    have hexact : exact (.dict [("terminal", t.toValue)]) ["terminal"] "TERMINAL payload" =
      .ok [("terminal", t.toValue)] := exact_dict _ rfl
    simp only [Content.kind, Content.sortedPayload, Content.payload, Content.replyTo, hexact,
      hresult, Field.optional_value]
    rfl

/-! ### How long the texts are -/

theorem byteLength_quote_uuid (u : Uuid) : byteLength (quote u.1) = 38 := Monitor.width_uuid u

theorem byteLength_quote_digest (d : Digest) : byteLength (quote d.1) = 73 := Monitor.width_digest d

theorem byteLength_quote_hex32 (x : Hex32) : byteLength (quote x.1) = 66 := by
  have h := x.2
  simp only [isHex32, Bool.and_eq_true, decide_eq_true_eq, List.all_eq_true] at h
  rw [byteLength_quote_of_plain fun c hc => isPlain_of_isHex (h.2 c hc), h.1]

theorem byteLength_natText_le {n : ℕ} (h : n < 10 ^ 20) : byteLength (natText n) ≤ 21 :=
  (byteLength_dumps_le (dumps_natCast h)).trans (Monitor.width_natCast h)

theorem byteLength_counterNat_le {n : ℕ} (h : n ≤ maxCounter) : byteLength (natText n) ≤ 21 :=
  byteLength_natText_le (h.trans_lt (by decide))

theorem byteLength_counterText_le (n : Option Counter) : byteLength (counterText n) ≤ 21 := by
  cases n with
  | none => exact (by decide : byteLength "null".toList ≤ 21)
  | some n => exact byteLength_counterNat_le n.2.2

theorem Terminal.byteLength_text_le (t : Terminal) : byteLength t.text ≤ 60 := by
  have hnull : byteLength "null".toList = 4 := by decide
  cases t with
  | exitCode code h =>
    have hcode := byteLength_natText_le (n := code) (by omega)
    refine (byteLength_objText_le ["exit_code", "signal"]
      (n := 19) (m := 25) rfl (by decide) ?_).trans (by decide)
    simp only [List.map_cons, List.map_nil, List.sum_cons, List.sum_nil]
    omega
  | signal number h =>
    have hnumber := byteLength_natText_le (n := number) (by omega)
    refine (byteLength_objText_le ["exit_code", "signal"]
      (n := 19) (m := 25) rfl (by decide) ?_).trans (by decide)
    simp only [List.map_cons, List.map_nil, List.sum_cons, List.sum_nil]
    omega

theorem LifecycleState.byteLength_text_le (s : LifecycleState Terminal) :
    byteLength s.text ≤ 200 := by
  have hname : byteLength (quote s.name) ≤ 10 := by
    cases s with
    | ready => exact (by decide : byteLength (quote "ready") ≤ 10)
    | stopping n => exact (by decide : byteLength (quote "stopping") ≤ 10)
    | terminal n t => exact (by decide : byteLength (quote "terminal") ≤ 10)
  have hterminal : byteLength s.terminalText ≤ 60 := by
    cases s with
    | ready => exact (by decide : byteLength "null".toList ≤ 60)
    | stopping n => exact (by decide : byteLength "null".toList ≤ 60)
    | terminal n t => exact t.byteLength_text_le
  have hstop := byteLength_counterText_le s.stopRequestId
  refine (byteLength_objText_le ["state", "stop_request_id", "terminal"]
    (n := 34) (m := 91) rfl (by decide) ?_).trans (by decide)
  simp only [List.map_cons, List.map_nil, List.sum_cons, List.sum_nil]
  omega

theorem RootIdentity.byteLength_text_le (i : RootIdentity) : byteLength i.text ≤ 300 := by
  have hdevice := byteLength_natText_le (i.device_le.trans_lt (by decide))
  have hinode := byteLength_natText_le (i.inode_le.trans_lt (by decide))
  have hpid := byteLength_natText_le (n := 1) (by decide)
  have hfilesystem : byteLength (quote "overlayfs") = 11 := by decide
  have hschema : byteLength (quote "palimpsest.oci-root-identity.v1") = 33 := by decide
  refine (byteLength_objText_le ["device", "filesystem", "inode", "pid", "schema"]
    (n := 40) (m := 110) rfl (by decide) ?_).trans (by decide)
  simp only [List.map_cons, List.map_nil, List.sum_cons, List.sum_nil]
  omega

theorem byteLength_argv_le (argv : {l : List String // ExecArgv l}) :
    byteLength (listText (argv.1.map quote)) ≤ maxOCIExecArgvBytes := by
  obtain ⟨-, -, b, hb, hl⟩ := argv.2
  rw [canonicalJsonBytes, (spells_strings argv.1).dumps_eq] at hb
  obtain rfl := Except.ok.inj hb
  rwa [length_encodeUtf8] at hl

theorem byteLength_dataHex_le (o : ExecOutput) : byteLength (quote o.dataHex) ≤ 2050 := by
  have h := o.data_ok
  simp only [isDataHex, Bool.and_eq_true, decide_eq_true_eq, List.all_eq_true] at h
  rw [byteLength_quote_of_plain fun c hc => isPlain_of_isHex (h.2 c hc)]
  omega

/-- The text of a payload. -/
theorem Content.byteLength_text_le (c : Content) : byteLength c.text ≤ 9000 := by
  cases c with
  | hello n => exact (by decide : byteLength (objText []) ≤ 9000)
  | keyAck g n => exact (by decide : byteLength (objText []) ≤ 9000)
  | bootstrap g n key =>
    have hkey := byteLength_quote_hex32 key
    refine (byteLength_objText_le ["boot_key"]
      (n := 20) (m := 66) rfl (by decide) ?_).trans (by decide)
    simp only [List.map_cons, List.map_nil, List.sum_cons, List.sum_nil]
    omega
  | reconnect g n digest boundaryId =>
    have hdigest := byteLength_quote_digest digest
    have hid := byteLength_quote_uuid boundaryId
    refine (byteLength_objText_le ["boundary_ack_digest", "boundary_id"]
      (n := 40) (m := 111) rfl (by decide) ?_).trans (by decide)
    simp only [List.map_cons, List.map_nil, List.sum_cons, List.sum_nil]
    omega
  | boundaryAck g n b =>
    obtain ⟨hheader, hbytes, hexpected⟩ := b.parser_le
    have hheader := byteLength_counterNat_le hheader
    have hbytes := byteLength_counterNat_le hbytes
    have hexpected := byteLength_counterNat_le hexpected
    have haccepted := byteLength_counterNat_le b.accepted_le
    have hattempted := byteLength_counterNat_le b.attempted_le
    have hprevious := byteLength_counterNat_le b.previous_le
    have hstate := (b.lifecycleState.map TerminalResult.result).byteLength_text_le
    have hid := byteLength_quote_uuid b.boundaryId
    have hdigest := byteLength_quote_digest b.stateDigest
    refine (byteLength_objText_le ["boundary_id", "discarded_header_bytes",
      "discarded_payload_bytes", "discarded_payload_expected", "last_accepted_h2g_wire_sequence",
      "last_attempted_g2h_wire_sequence", "lifecycle_state", "previous_epoch", "state_digest"]
      (n := 220) (m := 450) rfl (by decide) ?_).trans (by decide)
    simp only [List.map_cons, List.map_nil, List.sum_cons, List.sum_nil]
    omega
  | ready g n i =>
    cases i with
    | none => exact (by decide : byteLength (objText []) ≤ 9000)
    | some i =>
      have hidentity := i.byteLength_text_le
      refine (byteLength_objText_le ["root_identity"]
        (n := 20) (m := 300) rfl (by decide) ?_).trans (by decide)
      simp only [List.map_cons, List.map_nil, List.sum_cons, List.sum_nil]
      omega
  | snapshot g n s => exact s.byteLength_text_le.trans (by decide)
  | stop g n signal =>
    have hsignal : byteLength signal.text ≤ 4 := by cases signal <;> decide
    refine (byteLength_objText_le ["signal"]
      (n := 20) (m := 4) rfl (by decide) ?_).trans (by decide)
    simp only [List.map_cons, List.map_nil, List.sum_cons, List.sum_nil]
    omega
  | exec g n argv timeout =>
    have hargv := byteLength_argv_le argv
    have htimeout := byteLength_natText_le (timeout.2.2.trans_lt (by decide))
    refine (byteLength_objText_le ["argv", "timeout_ms"]
      (n := 20) (m := maxOCIExecArgvBytes + 21) rfl (by decide) ?_).trans (by decide)
    simp only [List.map_cons, List.map_nil, List.sum_cons, List.sum_nil]
    omega
  | execOutput g n o =>
    have hdata := byteLength_dataHex_le o
    have hoffset := byteLength_natText_le (o.offset_lt.trans (by decide))
    have hstream : byteLength (quote o.stream.text) ≤ 8 := by cases o.stream <;> decide
    refine (byteLength_objText_le ["data_hex", "offset", "stream"]
      (n := 40) (m := 2100) rfl (by decide) ?_).trans (by decide)
    simp only [List.map_cons, List.map_nil, List.sum_cons, List.sum_nil]
    omega
  | execExit g n x =>
    have htotal := x.total_le
    simp only [maxOCIExecOutputBytes] at htotal
    have hout := byteLength_natText_le (n := x.stdoutBytes) (by omega)
    have herr := byteLength_natText_le (n := x.stderrBytes) (by omega)
    have hreason : byteLength (quote x.reason.text) ≤ 14 := by cases x.reason <;> decide
    have hterminal : byteLength x.terminalText ≤ 60 := by
      unfold ExecExit.terminalText
      cases x.terminal with
      | none => exact (by decide : byteLength "null".toList ≤ 60)
      | some t => exact t.byteLength_text_le
    refine (byteLength_objText_le ["reason", "stderr_bytes", "stdout_bytes", "terminal"]
      (n := 60) (m := 120) rfl (by decide) ?_).trans (by decide)
    simp only [List.map_cons, List.map_nil, List.sum_cons, List.sum_nil]
    omega
  | terminal g n t =>
    have ht := t.byteLength_text_le
    refine (byteLength_objText_le ["terminal"]
      (n := 20) (m := 60) rfl (by decide) ?_).trans (by decide)
    simp only [List.map_cons, List.map_nil, List.sum_cons, List.sum_nil]
    omega

/-- The text of a body. -/
theorem OCIControlV2Message.byteLength_text_le (m : OCIControlV2Message) :
    byteLength m.text ≤ 10000 := by
  have hpayload := m.content.byteLength_text_le
  have hrun := byteLength_quote_uuid m.binding.runId
  have hattempt := byteLength_quote_uuid m.bootAttemptId
  have hdomain := byteLength_quote_digest m.binding.domainCoreDigest
  have hstage := byteLength_quote_digest m.binding.stage1ArtifactDigest
  have hnonce := byteLength_quote_hex32 m.hostNonce
  have hepoch := byteLength_counterNat_le m.epoch.2.2
  have hwire := byteLength_counterNat_le m.wireSequence.2.2
  have hrequest := byteLength_counterText_le m.content.requestId
  have hreply := byteLength_counterText_le m.content.replyTo
  have hkind : byteLength (quote m.content.kind.text) ≤ 14 := by
    cases m.content.kind <;> decide
  have hschema : byteLength (quote (String.ofList ociControlProtocolV2)) = 37 := by decide
  unfold OCIControlV2Message.text OCIControlV2Message.fields
  cases m.content.bootGeneration with
  | none =>
    refine (byteLength_objText_le ["boot_attempt_id", "domain_core_digest", "epoch", "host_nonce",
      "kind", "payload", "request_id", "run_id", "schema", "stage1_artifact_digest",
      "wire_sequence"]
      (n := 200) (m := 9420) rfl (by decide) ?_).trans (by decide)
    simp only [List.map_cons, List.map_nil, List.sum_cons, List.sum_nil]
    omega
  | some generation =>
    have hgeneration := byteLength_quote_uuid generation
    cases m.content.kind.hasRequest with
    | true =>
      refine (byteLength_objText_le ["boot_attempt_id", "boot_generation", "domain_core_digest",
        "epoch", "host_nonce", "kind", "payload", "reply_to", "request_id", "run_id", "schema",
        "stage1_artifact_digest", "wire_sequence"]
        (n := 250) (m := 9480) rfl (by decide) ?_).trans (by decide)
      simp only [if_true, List.cons_append, List.nil_append, List.map_cons, List.map_nil,
        List.sum_cons, List.sum_nil]
      omega
    | false =>
      refine (byteLength_objText_le ["boot_attempt_id", "boot_generation", "domain_core_digest",
        "epoch", "host_nonce", "kind", "payload", "reply_to", "run_id", "schema",
        "stage1_artifact_digest", "wire_sequence"]
        (n := 250) (m := 9480) rfl (by decide) ?_).trans (by decide)
      simp only [Bool.false_eq_true, if_false, List.cons_append, List.nil_append, List.map_cons,
        List.map_nil, List.sum_cons, List.sum_nil]
      omega

/-- **Every envelope fits a frame.** -/
theorem OCIControlV2Envelope.byteLength_text_le (e : OCIControlV2Envelope) :
    byteLength e.text ≤ maxPayloadBytes := by
  have hbody := e.body.byteLength_text_le
  have hmac : byteLength (macText e.mac) ≤ 170 := by
    cases e.mac with
    | none => exact (by decide : byteLength "null".toList ≤ 170)
    | some mac =>
      have hkey := byteLength_quote_digest mac.keyId
      have htag := byteLength_quote_hex32 mac.tag
      refine (byteLength_objText_le ["key_id", "tag"]
        (n := 13) (m := 139) rfl (by decide) ?_).trans (by decide)
      simp only [List.map_cons, List.map_nil, List.sum_cons, List.sum_nil]
      omega
  refine (byteLength_objText_le ["body", "mac"]
    (n := 11) (m := 10170) rfl (by decide) ?_).trans (by decide)
  simp only [List.map_cons, List.map_nil, List.sum_cons, List.sum_nil]
  omega

/-! ### Envelopes -/

variable {e : OCIControlV2Envelope}

theorem envelopeOf_mac (e : OCIControlV2Envelope) : ∀ mac, mac = (field e.toDict "mac").sorted →
    envelopeOf e.body mac = .ok e := by
  obtain ⟨body, mac, hmac⟩ := e
  rintro _ rfl
  by_cases hkind : body.content.kind = .hello
  · obtain rfl := hmac.mpr hkind
    exact dif_pos hkind
  · obtain ⟨⟨keyId, tag⟩, rfl⟩ := Option.ne_none_iff_exists'.mp (mt hmac.mp hkind)
    have hsorted : (field (OCIControlV2Envelope.toDict ⟨body, some ⟨keyId, tag⟩, hmac⟩)
        "mac").sorted = .dict [("key_id", .str keyId.1), ("tag", .str tag.1)] := by
      refine sorted_dict (List.Perm.refl _) ?_
      simp only [keys, List.map_cons, List.map_nil]
      decide
    have hexact : exact (.dict [("key_id", .str keyId.1), ("tag", .str tag.1)]) ["key_id", "tag"]
        "lifecycle MAC" = .ok [("key_id", .str keyId.1), ("tag", .str tag.1)] := exact_dict _ rfl
    rw [hsorted, envelopeOf, dif_neg hkind, hexact]
    simp [bind, Except.bind, field, lookup, Field.digest_str, Field.hex32_str]
    rfl

/-- **An envelope is read back from its canonical text.** -/
theorem decodePayload_text (h : e.body.content.Mapped) :
    decodePayload (encodeUtf8 e.text) = .ok e := by
  have hwrites := writes_envelope h
  have hnodup : (keys e.toDict).Nodup := hwrites.distinct.1
  have hload := loadPayload_encodeUtf8 hwrites.distinct hwrites.dumps_eq
  have hexact : exact (Value.sorted (.dict e.toDict)) ["body", "mac"] "lifecycle envelope" =
      .ok (sortFields (Value.sortedFields e.toDict)) := exact_sorted _ rfl
  have hbody : OCIControlV2Message.fromDict (field (sortFields (Value.sortedFields e.toDict))
      "body") = .ok e.body := by
    rw [field_sorted hnodup]
    exact fromDict_toDict (contentOf_payload h e.body.epoch_ok)
  have hmac := envelopeOf_mac e _ (field_sorted hnodup "mac")
  have hcanonical : canonicalJsonBytes (.dict e.toDict) = .ok (encodeUtf8 e.text) := by
    rw [canonicalJsonBytes, hwrites.dumps_eq]
  have hsize := size_ok hwrites.dumps_eq e.byteLength_text_le
  simp only [decodePayload, require, if_pos hsize, bind, Except.bind, hload, hexact, hbody, hmac,
    hcanonical, if_true]
  rfl

/-! ### Frames -/

theorem packU32_unpackU32 {h : List UInt8} (hfour : h.length = 4) : packU32 (unpackU32 h) = h := by
  obtain ⟨a, b, c, d, rfl⟩ := List.length_eq_four.mp hfour
  have ha := a.toNat_lt
  have hb := b.toNat_lt
  have hc := c.toNat_lt
  have hd := d.toNat_lt
  simp only [unpackU32, packU32, List.foldl_cons, List.foldl_nil, Nat.shiftRight_eq_div_pow]
  have hbyte : ∀ {x : UInt8} {n : ℕ}, n % 256 = x.toNat → UInt8.ofNat n = x := by
    intro x n hn
    rw [← UInt8.toNat_inj, UInt8.toNat_ofNat']
    exact hn
  rw [hbyte (x := a) (by omega), hbyte (x := b) (by omega), hbyte (x := c) (by omega),
    hbyte (x := d) (by omega)]

/-- A payload that is decoded is the canonical text of what it was decoded to. -/
theorem canonicalJsonBytes_of_decodePayload {p : List UInt8} (h : decodePayload p = .ok e) :
    (p ≠ [] ∧ p.length ≤ maxPayloadBytes) ∧ canonicalJsonBytes (.dict e.toDict) = .ok p := by
  rw [decodePayload] at h
  obtain ⟨_, hsize, h⟩ := bind_eq_ok.mp h
  obtain ⟨value, -, h⟩ := bind_eq_ok.mp h
  obtain ⟨outer, -, h⟩ := bind_eq_ok.mp h
  obtain ⟨body, -, h⟩ := bind_eq_ok.mp h
  obtain ⟨envelope, -, h⟩ := bind_eq_ok.mp h
  obtain ⟨canonical, hcanonical, h⟩ := bind_eq_ok.mp h
  obtain ⟨_, heq, h⟩ := bind_eq_ok.mp h
  obtain rfl := Except.ok.inj h
  rw [require_eq_ok] at hsize heq
  exact ⟨hsize, heq ▸ hcanonical⟩

/-- A frame that is decoded is the frame of what it was decoded to. -/
theorem encodeFrame_of_decodeFrame {f : List UInt8} (h : decodeFrame f = .ok e) :
    encodeFrame e = .ok f := by
  rw [decodeFrame] at h
  split at h
  · cases h
  · next hlong =>
    dsimp only at h
    split_ifs at h with hlength hsize
    obtain ⟨hok, hcanonical⟩ := canonicalJsonBytes_of_decodePayload h
    have hfour : (f.take 4).length = 4 := by
      rw [List.length_take]
      omega
    have hdrop : (f.drop 4).length = unpackU32 (f.take 4) := by
      rw [List.length_drop]
      omega
    have hframe : packU32 (f.drop 4).length ++ f.drop 4 = f := by
      rw [hdrop, packU32_unpackU32 hfour, List.take_append_drop]
    simp only [encodeFrame, hcanonical, require, if_pos hok, bind, Except.bind, hframe]
    rfl

/-- The frame of an envelope, followed by anything. -/
theorem exists_frame (h : e.body.content.Mapped) : ∃ f, encodeFrame e = .ok f ∧
    decodeFrame f = .ok e ∧ ∀ rest, frames.next (f ++ rest) = some (f, rest) := by
  have hdumps := (writes_envelope h).dumps_eq
  obtain ⟨hne, hlength⟩ := size_ok hdumps e.byteLength_text_le
  have hunpack : unpackU32 (packU32 (encodeUtf8 e.text).length) = (encodeUtf8 e.text).length :=
    unpackU32_packU32 (hlength.trans_lt (by decide))
  have hlengthOk : LengthOk (unpackU32 (packU32 (encodeUtf8 e.text).length)) := by
    rw [hunpack]
    exact not_or.mpr ⟨fun hzero => hne (List.length_eq_zero_iff.mp hzero), not_lt.mpr hlength⟩
  refine ⟨packU32 (encodeUtf8 e.text).length ++ encodeUtf8 e.text, ?_, ?_, fun rest => ?_⟩
  · simp only [encodeFrame, canonicalJsonBytes, hdumps, require, if_pos (And.intro hne hlength),
      bind, Except.bind]
    rfl
  · exact (decodeFrame_append rfl hlengthOk hunpack.symm).trans (decodePayload_text h)
  · exact nextFrame_of_complete rfl hlengthOk hunpack.symm

/-- **A frame is decoded to an envelope exactly when it is the frame of that envelope.** -/
theorem decodeFrame_eq_ok_iff (h : e.body.content.Mapped) {f : List UInt8} :
    decodeFrame f = .ok e ↔ encodeFrame e = .ok f := by
  refine ⟨encodeFrame_of_decodeFrame, fun hf => ?_⟩
  obtain ⟨g, hg, hdecode, -⟩ := exists_frame h
  obtain rfl := Except.ok.inj (hf.symm.trans hg)
  exact hdecode

/-! ### Streams -/

variable {envelopes : List OCIControlV2Envelope} {fs : List (List UInt8)}

/-- Envelopes and their frames. -/
theorem forall₂_of_mapM (h : envelopes.mapM encodeFrame = .ok fs) :
    List.Forall₂ (fun e f => encodeFrame e = .ok f) envelopes fs := by
  induction envelopes generalizing fs with
  | nil =>
    obtain rfl := Except.ok.inj h
    exact .nil
  | cons e envelopes ih =>
    rw [List.mapM_cons] at h
    obtain ⟨f, hf, h⟩ := bind_eq_ok.mp h
    obtain ⟨gs, hgs, h⟩ := bind_eq_ok.mp h
    obtain rfl := Except.ok.inj h
    exact .cons hf (ih hgs)

theorem exists_mapM (h : ∀ e ∈ envelopes, e.body.content.Mapped) :
    ∃ fs, envelopes.mapM encodeFrame = .ok fs := by
  induction envelopes with
  | nil => exact ⟨[], rfl⟩
  | cons e envelopes ih =>
    obtain ⟨he, hrest⟩ := List.forall_mem_cons.mp h
    obtain ⟨f, hf, -⟩ := exists_frame he
    obtain ⟨fs, hfs⟩ := ih hrest
    refine ⟨f :: fs, ?_⟩
    rw [List.mapM_cons, hf, hfs]
    rfl

/-- The frames of a stream that is read as a whole are those of what was read. -/
theorem decodeStream_eq_rest {stream left : List UInt8}
    (h : decodeStream stream = (envelopes, .rest left)) :
    ∃ fs, envelopes.mapM encodeFrame = .ok fs ∧ stream = fs.flatten ++ left := by
  obtain ⟨fs, hfs, heq⟩ := Framing.exists_frames h
  refine ⟨fs, ?_, heq⟩
  clear h heq
  induction hfs with
  | nil => rfl
  | cons hf _ ih =>
    rw [List.mapM_cons, encodeFrame_of_decodeFrame hf, ih]
    rfl

/-- A stream of frames is read as the envelopes they are of. -/
theorem decodeStream_frames (h : ∀ e ∈ envelopes, e.body.content.Mapped)
    (hfs : envelopes.mapM encodeFrame = .ok fs) :
    decodeStream fs.flatten = (envelopes, .rest []) := by
  have hforall := forall₂_of_mapM hfs
  have hread : List.Forall₂ (fun f e => decodeFrame f = .ok e) fs envelopes ∧
      ∀ f ∈ fs, ∀ t, frames.next (f ++ t) = some (f, t) := by
    clear hfs
    induction hforall with
    | nil => exact ⟨.nil, List.forall_mem_nil _⟩
    | cons hf _ ih =>
      obtain ⟨he, hrest⟩ := List.forall_mem_cons.mp h
      obtain ⟨g, hg, hdecode, hnext⟩ := exists_frame he
      obtain rfl := Except.ok.inj (hf.symm.trans hg)
      obtain ⟨hdecodes, hnexts⟩ := ih hrest
      exact ⟨.cons hdecode hdecodes, List.forall_mem_cons.mpr ⟨hnext, hnexts⟩⟩
  have hflatten := Framing.decodeAll_flatten hread.1 hread.2 []
  rw [List.append_nil] at hflatten
  have hnil : frames.next [] = none := rfl
  rw [decodeStream, hflatten, Framing.decodeAll_of_none hnil, List.append_nil]

/-- **The decoder gives these envelopes exactly for their frames.** Every list of envelopes has
frames, and whatever the chunks are, the decoder raises nothing, gives the envelopes in order and
may finish if and only if the chunks are the frames one after the other. -/
theorem decodeChunks_iff (h : ∀ e ∈ envelopes, e.body.content.Mapped) :
    ∃ fs, envelopes.mapM encodeFrame = .ok fs ∧ ∀ chunks : List (List UInt8),
      ((decodeChunks chunks).raised = none ∧ (decodeChunks chunks).yielded = envelopes ∧
        (decodeChunks chunks).reader.finish = .ok ()) ↔ chunks.flatten = fs.flatten := by
  obtain ⟨fs, hfs⟩ := exists_mapM h
  refine ⟨fs, hfs, fun chunks => ?_⟩
  obtain ⟨hrest, hrefused⟩ := frameDecoder_chunks chunks
  constructor
  · rintro ⟨hraised, hyielded, hfinish⟩
    cases hstream : decodeStream chunks.flatten with
    | mk out ending =>
      cases ending with
      | refused e =>
        have hsome := (hrefused out e hstream).1
        rw [hraised] at hsome
        cases hsome
      | rest left =>
        obtain ⟨-, hout, hleft⟩ := hrest out left hstream
        obtain rfl := hleft.mp hfinish
        obtain ⟨gs, hgs, heq⟩ := decodeStream_eq_rest hstream
        rw [← hout, hyielded, hfs] at hgs
        obtain rfl := Except.ok.inj hgs
        rw [heq, List.append_nil]
  · intro hchunks
    have hstream := decodeStream_frames h hfs
    rw [← hchunks] at hstream
    obtain ⟨hraised, hyielded, hfinish⟩ := hrest envelopes [] hstream
    exact ⟨hraised, hyielded, hfinish.mpr rfl⟩

/-- A message of the guest that was greeted with `zeroHello`, after its connection was lost once. -/
def zeroMessage (wire : Counter) (content : Content) (h : content.EpochOk 2) :
    OCIControlV2Message :=
  ⟨zeroHello.body.binding, zeroUuid, zeroHello.body.hostNonce, ⟨2, by decide⟩, wire, content, h⟩

def zeroKey : Key := ⟨List.replicate 32 0, List.length_replicate⟩

theorem zero_le_exitCode : 0 ≤ 255 := Nat.zero_le 255

def zeroTerminal : Terminal := .exitCode 0 zero_le_exitCode

theorem one_le_maxCounter : 1 ≤ maxCounter := counter_one.2

theorem parserState_zero : ParserState 0 0 0 := .inl ⟨rfl, rfl, rfl⟩

/-- The boundary that tells of the end of the workload, which came before the connection was
lost. -/
def zeroBoundary : BoundaryAck where
  boundaryId := zeroUuid
  discardedHeaderBytes := 0
  discardedPayloadBytes := 0
  discardedPayloadExpected := 0
  lastAcceptedH2gWireSequence := 1
  lastAttemptedG2hWireSequence := 1
  lifecycleState := .terminal none (.mapping zeroTerminal)
  previousEpoch := 1
  parser_ok := parserState_zero
  accepted_le := one_le_maxCounter
  attempted_le := one_le_maxCounter
  previous_le := one_le_maxCounter

/-- The frames of a HELLO and of two messages that are signed with one key, both of which have a
result, in any chunks. -/
theorem decodeChunks_terminal : ∃ ack e : OCIControlV2Envelope,
    signMessage (zeroMessage ⟨1, counter_one⟩ (.boundaryAck zeroUuid ⟨1, counter_one⟩ zeroBoundary)
      (by decide)) zeroKey .console = .ok ack ∧
    signMessage (zeroMessage ⟨2, by decide⟩ (.terminal zeroUuid none zeroTerminal) trivial)
      zeroKey .channel = .ok e ∧
    ∃ fs, [zeroHello, ack, e].mapM encodeFrame = .ok fs ∧ ∀ chunks : List (List UInt8),
      ((decodeChunks chunks).raised = none ∧ (decodeChunks chunks).yielded = [zeroHello, ack, e] ∧
        (decodeChunks chunks).reader.finish = .ok ()) ↔ chunks.flatten = fs.flatten := by
  obtain ⟨ack, hack⟩ := exists_signMessage (m := zeroMessage ⟨1, counter_one⟩
    (.boundaryAck zeroUuid ⟨1, counter_one⟩ zeroBoundary) (by decide)) zeroKey (by rintro ⟨⟩)
    (validateCarrierKind_console rfl) trivial
  obtain ⟨e, he⟩ := exists_signMessage (m := zeroMessage ⟨2, by decide⟩
    (.terminal zeroUuid none zeroTerminal) trivial) zeroKey (by rintro ⟨⟩)
    (validateCarrierKind_channel (by rintro ⟨⟩)) trivial
  refine ⟨ack, e, hack, he, decodeChunks_iff ?_⟩
  obtain ⟨-, -, -, hack_body, -⟩ := signMessage_eq_ok hack
  obtain ⟨-, -, -, he_body, -⟩ := signMessage_eq_ok he
  have hack_mapped : ack.body.content.Mapped := by
    rw [hack_body]
    exact trivial
  have he_mapped : e.body.content.Mapped := by
    rw [he_body]
    exact trivial
  exact List.forall_mem_cons.mpr ⟨trivial, List.forall_mem_cons.mpr
    ⟨hack_mapped, List.forall_mem_singleton.mpr he_mapped⟩⟩

end Palimpsest.Control
