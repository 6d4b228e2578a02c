import Mathlib.Data.List.Basic
import Palimpsest.Control.Sending
import Palimpsest.Lib.JsonText

/-!
# The texts of messages

The canonical text of a message, put together field by field in the order of the keys
(`Palimpsest.Control.OCIControlV2Message.text`), and that it is what the host writes
(`Palimpsest.Control.writes_message`, `Palimpsest.Control.writes_envelope`).

A terminal result that came as a list of pairs is left out: its text is whatever its items are
written as (`Palimpsest.Control.Content.Mapped`).
-/

namespace Palimpsest.Control

open Json

/-! ### Parts -/

/-- The text of a counter that may be missing. -/
def counterText : Option Counter → Text
  | none => "null".toList
  | some n => natText n.1

def Terminal.text : Terminal → Text
  | exitCode code _ => objText [("exit_code", natText code), ("signal", "null".toList)]
  | signal number _ => objText [("exit_code", "null".toList), ("signal", natText number)]

/-- The text of the terminal result of a state. -/
def LifecycleState.terminalText : LifecycleState Terminal → Text
  | terminal _ t => t.text
  | _ => "null".toList

def LifecycleState.text (s : LifecycleState Terminal) : Text :=
  objText [("state", quote s.name), ("stop_request_id", counterText s.stopRequestId),
    ("terminal", s.terminalText)]

def RootIdentity.text (i : RootIdentity) : Text :=
  objText [("device", natText i.device), ("filesystem", quote "overlayfs"),
    ("inode", natText i.inode), ("pid", natText 1),
    ("schema", quote "palimpsest.oci-root-identity.v1")]

def StopSignal.text : StopSignal → Text
  | int => natText 15
  | float => "15.0".toList

/-- The text of the result of a command, which it has if it was started. -/
def ExecExit.terminalText (x : ExecExit) : Text :=
  match x.terminal with
  | none => "null".toList
  | some t => t.text

/-- The result of a state, as a mapping. -/
def TerminalResult.Mapped : TerminalResult → Prop
  | mapping _ => True
  | pairs .. => False

/-- The state has no terminal result that came as a list. -/
def LifecycleState.Mapped : LifecycleState TerminalResult → Prop
  | terminal _ r => r.Mapped
  | _ => True

/-- The payload has no terminal result that came as a list. -/
def Content.Mapped : Content → Prop
  | .boundaryAck _ _ b => b.lifecycleState.Mapped
  | _ => True

/-- The text of a payload. -/
def Content.text : Content → Text
  | .hello _ | .keyAck .. => objText []
  | .bootstrap _ _ key => objText [("boot_key", quote key.1)]
  | .reconnect _ _ digest boundaryId =>
    objText [("boundary_ack_digest", quote digest.1), ("boundary_id", quote boundaryId.1)]
  | .boundaryAck _ _ b =>
    objText [("boundary_id", quote b.boundaryId.1),
      ("discarded_header_bytes", natText b.discardedHeaderBytes),
      ("discarded_payload_bytes", natText b.discardedPayloadBytes),
      ("discarded_payload_expected", natText b.discardedPayloadExpected),
      ("last_accepted_h2g_wire_sequence", natText b.lastAcceptedH2gWireSequence),
      ("last_attempted_g2h_wire_sequence", natText b.lastAttemptedG2hWireSequence),
      ("lifecycle_state", (b.lifecycleState.map TerminalResult.result).text),
      ("previous_epoch", natText b.previousEpoch), ("state_digest", quote b.stateDigest.1)]
  | .ready _ _ none => objText []
  | .ready _ _ (some i) => objText [("root_identity", i.text)]
  | .snapshot _ _ s => s.text
  | .stop _ _ signal => objText [("signal", signal.text)]
  | .exec _ _ argv timeout =>
    objText [("argv", listText (argv.1.map quote)), ("timeout_ms", natText timeout.1)]
  | .execOutput _ _ o =>
    objText [("data_hex", quote o.dataHex), ("offset", natText o.offset),
      ("stream", quote o.stream.text)]
  | .execExit _ _ x =>
    objText [("reason", quote x.reason.text), ("stderr_bytes", natText x.stderrBytes),
      ("stdout_bytes", natText x.stdoutBytes), ("terminal", x.terminalText)]
  | .terminal _ _ t => objText [("terminal", t.text)]

/-! ### Messages -/

/-- The text of a body whose identifiers have these texts. -/
def OCIControlV2Message.fields (m : OCIControlV2Message) : List (String × Text) :=
  match m.content.bootGeneration with
  | none =>
    [("boot_attempt_id", quote m.bootAttemptId.1),
      ("domain_core_digest", quote m.binding.domainCoreDigest.1), ("epoch", natText m.epoch.1),
      ("host_nonce", quote m.hostNonce.1), ("kind", quote m.content.kind.text),
      ("payload", m.content.text), ("request_id", counterText m.content.requestId),
      ("run_id", quote m.binding.runId.1),
      ("schema", quote (String.ofList ociControlProtocolV2)),
      ("stage1_artifact_digest", quote m.binding.stage1ArtifactDigest.1),
      ("wire_sequence", natText m.wireSequence.1)]
  | some generation =>
    [("boot_attempt_id", quote m.bootAttemptId.1), ("boot_generation", quote generation.1),
      ("domain_core_digest", quote m.binding.domainCoreDigest.1), ("epoch", natText m.epoch.1),
      ("host_nonce", quote m.hostNonce.1), ("kind", quote m.content.kind.text),
      ("payload", m.content.text), ("reply_to", counterText m.content.replyTo)] ++
    (if m.content.kind.hasRequest then [("request_id", counterText m.content.requestId)] else []) ++
    [("run_id", quote m.binding.runId.1),
      ("schema", quote (String.ofList ociControlProtocolV2)),
      ("stage1_artifact_digest", quote m.binding.stage1ArtifactDigest.1),
      ("wire_sequence", natText m.wireSequence.1)]

/-- The text of a body. -/
def OCIControlV2Message.text (m : OCIControlV2Message) : Text := objText m.fields

/-- The text of the authentication of a message. -/
def macText : Option Mac → Text
  | none => "null".toList
  | some mac => objText [("key_id", quote mac.keyId.1), ("tag", quote mac.tag.1)]

def OCIControlV2Envelope.text (e : OCIControlV2Envelope) : Text :=
  objText [("body", e.body.text), ("mac", macText e.mac)]

/-! ### What the host writes -/

variable {n : ℕ} {c : Content} {m : OCIControlV2Message} {e : OCIControlV2Envelope}

theorem writes_nat (h : n < 10 ^ 20) : Writes (.int n) (natText n) := by
  have hlength : (natText n).length ≤ 20 := length_natText_le (by decide) h
  exact (spells_natCast (hlength.trans (by decide))).writes

theorem writes_counterNat (h : n ≤ maxCounter) : Writes (.int n) (natText n) :=
  writes_nat (h.trans_lt (by decide))

theorem writes_null : Writes .null "null".toList := spells_null.writes

theorem writes_counter (n : Option Counter) : Writes (counterValue n) (counterText n) := by
  cases n with
  | none => exact writes_null
  | some n => exact writes_counterNat n.2.2

/-- A dictionary whose fields stand in order. -/
theorem writes_sorted {d : List (String × Value)} {l : List (String × Text)}
    (hkeys : (keys d).Pairwise (· < ·)) (h : List.Forall₂ WritesField d l) :
    Writes (.dict d) (objText l) := writes_dict h hkeys (List.Perm.refl d)

theorem writes_empty : Writes (.dict []) (objText []) := writes_sorted List.Pairwise.nil .nil

theorem Terminal.writes (t : Terminal) : Writes t.toValue t.text := by
  cases t with
  | exitCode code h =>
    refine writes_sorted ?_ (writes_field (writes_nat (by omega)) (writes_field writes_null .nil))
    simp only [keys, List.map_cons, List.map_nil]
    decide
  | signal number h =>
    refine writes_sorted ?_ (writes_field writes_null (writes_field (writes_nat (by omega)) .nil))
    simp only [keys, List.map_cons, List.map_nil]
    decide

/-- The value of the terminal result of a state. -/
def LifecycleState.terminalValue {R : Type} (f : R → Value) : LifecycleState R → Value
  | terminal _ r => f r
  | _ => .null

theorem LifecycleState.fields_eq {R : Type} (f : R → Value) (s : LifecycleState R) :
    s.fields f = [("state", .str s.name), ("stop_request_id", counterValue s.stopRequestId),
      ("terminal", s.terminalValue f)] := by
  cases s <;> rfl

/-- Both forms of a state have the same fields, when its result is a mapping. -/
theorem LifecycleState.Mapped.fields_eq {s : LifecycleState TerminalResult} (h : s.Mapped) :
    s.fields TerminalResult.toValue = (s.map TerminalResult.result).fields Terminal.toValue := by
  cases s with
  | ready => rfl
  | stopping n => rfl
  | terminal n r =>
    cases r with
    | mapping t => rfl
    | pairs items t ht => exact h.elim

theorem LifecycleState.writes_terminal (s : LifecycleState Terminal) :
    Writes (s.terminalValue Terminal.toValue) s.terminalText := by
  cases s with
  | ready => exact writes_null
  | stopping n => exact writes_null
  | terminal n t => exact t.writes

theorem LifecycleState.writes (s : LifecycleState Terminal) :
    Writes (.dict (s.fields Terminal.toValue)) s.text := by
  rw [LifecycleState.fields_eq]
  refine writes_sorted ?_ (writes_string _ (writes_field (writes_counter _)
    (writes_field s.writes_terminal .nil)))
  simp only [keys, List.map_cons, List.map_nil]
  decide

theorem RootIdentity.writes (i : RootIdentity) : Writes i.toValue i.text := by
  have hdevice := writes_nat (i.device_le.trans_lt (by decide))
  have hinode := writes_nat (i.inode_le.trans_lt (by decide))
  refine writes_dict (writes_field hdevice (writes_string _ (writes_field hinode (writes_field
    (writes_nat (n := 1) (by decide)) (writes_string _ .nil))))) ?_
      (perm_of_places (n := 5) [3, 2, 4, 1, 0] rfl (by decide) rfl)
  simp only [keys, List.map_cons, List.map_nil]
  decide

theorem StopSignal.writes (signal : StopSignal) : Writes signal.toValue signal.text := by
  cases signal with
  | int => exact writes_nat (n := 15) (by decide)
  | float => exact ⟨trivial, rfl⟩

/-- The result of a command as a value. -/
def ExecExit.terminalValue (x : ExecExit) : Value :=
  match x.terminal with
  | none => .null
  | some t => t.toValue

theorem ExecExit.writes_terminal (x : ExecExit) : Writes x.terminalValue x.terminalText := by
  unfold ExecExit.terminalValue ExecExit.terminalText
  cases x.terminal with
  | none => exact writes_null
  | some t => exact t.writes

theorem BoundaryAck.parser_le (b : BoundaryAck) : b.discardedHeaderBytes ≤ maxCounter ∧
    b.discardedPayloadBytes ≤ maxCounter ∧ b.discardedPayloadExpected ≤ maxCounter := by
  have hparser := b.parser_ok
  simp only [ParserState, maxPayloadBytes, maxOCIControlFrameBytes] at hparser
  simp only [maxCounter]
  omega

theorem BoundaryAck.writes_payload {b : BoundaryAck} (h : b.lifecycleState.Mapped)
    (generation : Uuid) (replyTo : Counter) :
    Writes (.dict (Content.boundaryAck generation replyTo b).payload)
      (Content.boundaryAck generation replyTo b).text := by
  obtain ⟨hheader, hbytes, hexpected⟩ := b.parser_le
  rw [Content.payload, h.fields_eq]
  refine writes_sorted ?_ (writes_string _ (writes_field (writes_counterNat hheader) (writes_field
    (writes_counterNat hbytes) (writes_field (writes_counterNat hexpected) (writes_field
      (writes_counterNat b.accepted_le) (writes_field (writes_counterNat b.attempted_le)
        (writes_field (LifecycleState.writes _) (writes_field (writes_counterNat b.previous_le)
          (writes_string _ .nil)))))))))
  simp only [keys, List.map_cons, List.map_nil]
  decide

/-- A payload is written as its text. -/
theorem Content.writes (h : c.Mapped) : Writes (.dict c.payload) c.text := by
  cases c with
  | hello n => exact writes_empty
  | keyAck g n => exact writes_empty
  | bootstrap g n key => exact writes_sorted (List.pairwise_singleton ..) (writes_string _ .nil)
  | reconnect g n digest boundaryId =>
    refine writes_sorted ?_ (writes_string _ (writes_string _ .nil))
    simp only [Content.payload, keys, List.map_cons, List.map_nil]
    decide
  | boundaryAck g n b => exact b.writes_payload h g n
  | ready g n i =>
    cases i with
    | none => exact writes_empty
    | some i => exact writes_sorted (List.pairwise_singleton ..) (writes_field i.writes .nil)
  | snapshot g n s => exact s.writes
  | stop g n signal =>
    exact writes_sorted (List.pairwise_singleton ..) (writes_field signal.writes .nil)
  | exec g n argv timeout =>
    have htimeout := writes_nat (timeout.2.2.trans_lt (by decide))
    refine writes_sorted ?_ (writes_field (spells_strings argv.1).writes
      (writes_field htimeout .nil))
    simp only [Content.payload, keys, List.map_cons, List.map_nil]
    decide
  -- Here the fields are built in another order than they are sorted.
  | execOutput g n o =>
    have hoffset := writes_nat (o.offset_lt.trans (by decide))
    refine writes_dict (writes_string _ (writes_field hoffset (writes_string _ .nil))) ?_
      (perm_of_places (n := 3) [2, 1, 0] rfl (by decide) rfl)
    simp only [keys, List.map_cons, List.map_nil]
    decide
  | execExit g n x =>
    have htotal := x.total_le
    simp only [maxOCIExecOutputBytes] at htotal
    refine writes_dict (writes_string _ (writes_field (writes_nat (by omega)) (writes_field
      (writes_nat (by omega)) (writes_field x.writes_terminal .nil)))) ?_
        (perm_of_places (n := 4) [3, 2, 1, 0] rfl (by decide) rfl)
    simp only [keys, List.map_cons, List.map_nil]
    decide
  | terminal g n t => exact writes_sorted (List.pairwise_singleton ..) (writes_field t.writes .nil)

theorem Content.bootGeneration_eq_none : c.bootGeneration = none ↔ c.kind = .hello := by
  cases c <;> simp [bootGeneration, kind]

/-- **A message is written as its text.** -/
theorem writes_message (h : m.content.Mapped) : Writes (.dict m.toDict) m.text := by
  have hpayload := Content.writes h
  have hepoch := writes_counterNat m.epoch.2.2
  have hwire := writes_counterNat m.wireSequence.2.2
  have hrequest := writes_counter m.content.requestId
  have hreply := writes_counter m.content.replyTo
  have hend := writes_string (k := "run_id") m.binding.runId.1 (writes_string (k := "schema")
    (String.ofList ociControlProtocolV2) (writes_string (k := "stage1_artifact_digest")
      m.binding.stage1ArtifactDigest.1 (writes_field (k := "wire_sequence") hwire .nil)))
  -- The fields stand in another order than they are written: HELLO has no boot generation, and
  -- requests and answers have a field that the other kinds do not have.
  cases hg : m.content.bootGeneration with
  | none =>
    have hkind := Content.bootGeneration_eq_none.mp hg
    have hhas : m.content.kind.hasRequest = true := hkind ▸ rfl
    simp only [OCIControlV2Message.text, OCIControlV2Message.fields, OCIControlV2Message.toDict,
      hg, if_pos hhas, if_pos hkind, List.cons_append, List.nil_append]
    refine writes_dict (writes_string _ (writes_string _ (writes_field hepoch (writes_string _
      (writes_string _ (writes_field hpayload (writes_field hrequest hend))))))) ?_
        (perm_of_places (n := 11) [0, 1, 2, 3, 4, 5, 10, 6, 7, 8, 9] rfl (by decide) rfl)
    simp only [keys, List.map_cons, List.map_nil]
    decide
  | some generation =>
    have hkind : m.content.kind ≠ .hello := by
      rw [Ne, ← Content.bootGeneration_eq_none, hg]
      exact Option.some_ne_none generation
    cases hhas : m.content.kind.hasRequest with
    | true =>
      simp only [OCIControlV2Message.text, OCIControlV2Message.fields, OCIControlV2Message.toDict,
        hg, hhas, if_true, if_neg hkind, List.cons_append, List.nil_append, Option.map_some,
        stringValue]
      refine writes_dict (writes_string _ (writes_string _ (writes_string _ (writes_field hepoch
        (writes_string _ (writes_string _ (writes_field hpayload (writes_field hreply
          (writes_field hrequest hend))))))))) ?_ (perm_of_places (n := 13)
            [0, 11, 1, 2, 3, 4, 5, 12, 10, 6, 7, 8, 9] rfl (by decide) rfl)
      simp only [keys, List.map_cons, List.map_nil]
      decide
    | false =>
      simp only [OCIControlV2Message.text, OCIControlV2Message.fields, OCIControlV2Message.toDict,
        hg, hhas, Bool.false_eq_true, if_false, if_neg hkind, List.cons_append, List.nil_append,
        List.append_nil, Option.map_some, stringValue]
      refine writes_dict (writes_string _ (writes_string _ (writes_string _ (writes_field hepoch
        (writes_string _ (writes_string _ (writes_field hpayload (writes_field hreply
          hend)))))))) ?_ (perm_of_places (n := 12)
            [0, 10, 1, 2, 3, 4, 5, 11, 6, 7, 8, 9] rfl (by decide) rfl)
      simp only [keys, List.map_cons, List.map_nil]
      decide

/-- **An envelope is written as its text.** -/
theorem writes_envelope (h : e.body.content.Mapped) : Writes (.dict e.toDict) e.text := by
  have hmac : Writes (match e.mac with
      | none => .null
      | some mac => .dict [("key_id", .str mac.keyId.1), ("tag", .str mac.tag.1)])
      (macText e.mac) := by
    cases e.mac with
    | none => exact writes_null
    | some mac =>
      refine writes_sorted ?_ (writes_string _ (writes_string _ .nil))
      simp only [keys, List.map_cons, List.map_nil]
      decide
  refine writes_sorted ?_ (writes_field (writes_message h) (writes_field hmac .nil))
  simp only [OCIControlV2Envelope.toDict, keys, List.map_cons, List.map_nil]
  decide

end Palimpsest.Control
