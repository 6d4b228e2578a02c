import Palimpsest.Control.HostRun

/-!
# Messages can be signed

Every message has a canonical text, except a boundary acknowledgement whose terminal
result is a list with something in it that JSON has no text for
(`Palimpsest.Control.isSome_dumps_toDict`). So every message that may travel on a
carrier can be signed for it, and an operation of the host session that passes its
checks sends its message as long as the counters last.
-/

namespace Palimpsest.Control

open Json

/-! ### Texts of messages -/

/-- The payload has a canonical text: only a terminal result that came as a list can be
without one. -/
def Content.Encodable : Content → Prop
  | .boundaryAck _ _ b =>
    match b.lifecycleState with
    | .terminal _ (.pairs items _ _) => (dumps (.list items)).isSome
    | _ => True
  | _ => True

theorem Content.encodable_of_kind {c : Content} (h : c.kind ≠ .boundaryAck) : c.Encodable := by
  cases c with
  | boundaryAck g n b => exact absurd rfl h
  | _ => exact trivial

theorem isSome_dumps_counter {n : ℕ} (h : n ≤ maxCounter) : (dumps (.int n)).isSome :=
  isSome_dumps_natCast (lt_of_le_of_lt h (by decide))

theorem isSome_dumps_stringValue (s : Option String) : (dumps (stringValue s)).isSome := by
  cases s <;> rfl

/-- The fields of a lifecycle state have texts when its terminal result has one. -/
theorem isSome_dumps_fields {R : Type} {f : R → Value} {s : LifecycleState R}
    (h : ∀ n r, s = .terminal n r → (dumps (f r)).isSome) :
    ∀ p ∈ s.fields f, (dumps p.2).isSome := by
  have hn := isSome_dumps_counterValue s.stopRequestId
  cases s with
  | ready => simp [LifecycleState.fields, counterValue, LifecycleState.stopRequestId]
  | stopping n => simpa [LifecycleState.fields] using hn
  | terminal n r =>
    have hr := h n r rfl
    simpa [LifecycleState.fields] using ⟨hn, hr⟩

theorem isSome_dumps_payload {c : Content} (h : c.Encodable) :
    ∀ p ∈ c.payload, (dumps p.2).isSome := by
  cases c with
  | hello n | keyAck g n => simp [Content.payload]
  | bootstrap g n k | reconnect g n d i => simp [Content.payload]
  | boundaryAck g n b =>
    have hstate : ∀ p ∈ b.lifecycleState.fields TerminalResult.toValue, (dumps p.2).isSome := by
      refine isSome_dumps_fields fun n r hr => ?_
      cases r with
      | mapping t => exact t.isSome_dumps
      | pairs items t ht =>
        simp only [Content.Encodable, hr] at h
        exact h
    -- The counters of the parser are bounded by the size of a frame.
    have hparser : b.discardedHeaderBytes ≤ maxCounter ∧ b.discardedPayloadBytes ≤ maxCounter ∧
        b.discardedPayloadExpected ≤ maxCounter := by
      have hp := b.parser_ok
      simp only [ParserState, maxPayloadBytes, maxOCIControlFrameBytes] at hp
      simp only [maxCounter]
      omega
    simp only [Content.payload, List.mem_cons, List.not_mem_nil, or_false, forall_eq_or_imp,
      forall_eq, isSome_dumps_str, isSome_dumps_dict, true_and, and_true]
    exact ⟨isSome_dumps_counter hparser.1, isSome_dumps_counter hparser.2.1,
      isSome_dumps_counter hparser.2.2, isSome_dumps_counter b.accepted_le,
      isSome_dumps_counter b.attempted_le, hstate, isSome_dumps_counter b.previous_le⟩
  | ready g n i =>
    cases i with
    | none => simp [Content.payload]
    | some i =>
      have hd := isSome_dumps_natCast (lt_of_le_of_lt i.device_le (by decide : maxU64 < 10 ^ 20))
      have hi := isSome_dumps_natCast (lt_of_le_of_lt i.inode_le (by decide : maxU64 < 10 ^ 20))
      have h1 : (dumps (.int 1)).isSome := rfl
      simp [Content.payload, RootIdentity.toValue, hd, hi, h1]
  | snapshot g n s => exact isSome_dumps_fields fun n r _ => r.isSome_dumps
  | stop g n signal => cases signal <;> simp [Content.payload, StopSignal.toValue] <;> rfl
  | exec g n argv timeout =>
    have ht := isSome_dumps_natCast
      (lt_of_le_of_lt timeout.2.2 (by decide : maxOCIExecTimeoutMs < 10 ^ 20))
    simp [Content.payload, ht]
  | execOutput g n o =>
    have ho := isSome_dumps_natCast
      (o.offset_lt.trans (by decide : maxOCIExecOutputBytes < 10 ^ 20))
    simp [Content.payload, ho]
  | execExit g n x =>
    have hx := x.total_le
    have hmax : maxOCIExecOutputBytes < 10 ^ 20 := by decide
    have h1 := isSome_dumps_natCast (n := x.stdoutBytes) (by omega)
    have h2 := isSome_dumps_natCast (n := x.stderrBytes) (by omega)
    cases ht : x.terminal with
    | none => simp [Content.payload, ht, h1, h2]
    | some t => simp [Content.payload, ht, h1, h2, t.isSome_dumps]
  | terminal g n r => simp [Content.payload, r.isSome_dumps]

/-- **A message has a canonical text** when its payload has one. -/
theorem isSome_dumps_toDict {m : OCIControlV2Message} (h : m.content.Encodable) :
    (dumps (.dict m.toDict)).isSome := by
  have hpayload := isSome_dumps_payload h
  have hepoch := isSome_dumps_counter m.epoch.2.2
  have hwire := isSome_dumps_counter m.wireSequence.2.2
  rw [isSome_dumps_dict]
  intro f hf
  simp only [OCIControlV2Message.toDict, List.mem_append, List.mem_cons, List.not_mem_nil,
    or_false] at hf
  rcases hf with ((rfl | rfl | rfl | rfl | rfl | rfl | rfl | rfl | rfl | rfl) | hf) | hf
  · rfl
  · rfl
  · exact hepoch
  · rfl
  · rfl
  · exact isSome_dumps_dict.mpr hpayload
  · rfl
  · rfl
  · rfl
  · exact hwire
  · split at hf
    · obtain rfl := List.mem_singleton.mp hf
      exact isSome_dumps_counterValue _
    · cases hf
  · split at hf
    · cases hf
    · rcases List.mem_pair.mp hf with rfl | rfl
      · exact isSome_dumps_stringValue _
      · exact isSome_dumps_counterValue _

theorem isSome_dumps_envelope {e : OCIControlV2Envelope} (h : e.body.content.Encodable) :
    (dumps (.dict e.toDict)).isSome := by
  have hbody := isSome_dumps_toDict h
  cases hm : e.mac with
  | none => simpa [OCIControlV2Envelope.toDict, hm] using hbody
  | some mac => simpa [OCIControlV2Envelope.toDict, hm] using hbody

theorem canonicalJsonBytes_eq_ok {v : Value} (h : (dumps v).isSome) :
    ∃ b, canonicalJsonBytes v = .ok b := by
  obtain ⟨t, ht⟩ := Option.isSome_iff_exists.mp h
  exact ⟨encodeUtf8 t, by simp only [canonicalJsonBytes, ht]⟩

theorem isSome_dumps_keyBinding (m : OCIControlV2Message) : (dumps (keyBinding m)).isSome := by
  cases h : m.content.bootGeneration with
  | none => simp [keyBinding, stringValue, h]
  | some g => simp [keyBinding, stringValue, h]

/-! ### Signing -/

theorem exists_frameTag {m : OCIControlV2Message} (key : Key) {c : Carrier}
    (hc : validateCarrierKind m c = .ok ()) (he : m.content.Encodable) :
    ∃ tag, frameTag m key c = .ok tag := by
  obtain ⟨binding, hbinding⟩ := canonicalJsonBytes_eq_ok (isSome_dumps_keyBinding m)
  obtain ⟨body, hbody⟩ := canonicalJsonBytes_eq_ok (isSome_dumps_toDict he)
  unfold frameTag hkdfSubkey macInput
  rw [hc, hbinding, hbody]
  exact ⟨_, rfl⟩

/-- **A message can be signed** for a carrier it may travel on. -/
theorem exists_signMessage {m : OCIControlV2Message} (key : Key) {c : Carrier}
    (hk : m.content.kind ≠ .hello) (hc : validateCarrierKind m c = .ok ())
    (he : m.content.Encodable) : ∃ e, signMessage m key c = .ok e := by
  obtain ⟨tag, htag⟩ := exists_frameTag key hc he
  unfold signMessage
  rw [dif_neg hk, hc, htag]
  exact ⟨_, rfl⟩

theorem validateCarrierKind_channel {m : OCIControlV2Message}
    (h : m.content.kind ≠ .boundaryAck) : validateCarrierKind m .channel = .ok () := if_neg h

theorem validateCarrierKind_console {m : OCIControlV2Message}
    (h : m.content.kind = .boundaryAck) : validateCarrierKind m .console = .ok () := if_pos h

theorem exists_encodeBoundaryLine {e : OCIControlV2Envelope}
    (hk : e.body.content.kind = .boundaryAck) (he : e.body.content.Encodable) :
    ∃ line, encodeBoundaryLine e = .ok line := by
  obtain ⟨payload, hpayload⟩ := canonicalJsonBytes_eq_ok (isSome_dumps_envelope he)
  unfold encodeBoundaryLine
  rw [validateCarrierKind_console hk, hpayload]
  exact ⟨_, rfl⟩

namespace HostOCIControlV2Session

variable {s t : HostOCIControlV2Session}

/-! ### Sending succeeds -/

theorem counter_eq_ok {n : ℕ} (h : 1 ≤ n ∧ n ≤ maxCounter) (label : String) :
    counter n label = .ok ⟨n, h⟩ := dif_pos h

theorem message_eq_ok {nonce : Hex32} (hnonce : s.nonce = some nonce) {epoch wire : ℕ}
    (hepoch : 1 ≤ epoch ∧ epoch ≤ maxCounter) (hwire : 1 ≤ wire ∧ wire ≤ maxCounter)
    {c : Content} (hc : c.EpochOk epoch) :
    s.message epoch wire (.ok c) =
      .ok ⟨s.binding, s.bootAttemptId, nonce, ⟨epoch, hepoch⟩, ⟨wire, hwire⟩, c, hc⟩ := by
  unfold message
  rw [hnonce, counter_eq_ok hepoch, counter_eq_ok hwire]
  exact dif_pos hc

/-- A message of the session that is no HELLO is sent. -/
theorem exists_sent {nonce : Hex32} (hnonce : s.nonce = some nonce) (key : Key) {epoch wire : ℕ}
    (hepoch : 1 ≤ epoch ∧ epoch ≤ maxCounter) (hwire : 1 ≤ wire ∧ wire ≤ maxCounter)
    {c : Content} (hc : c.EpochOk epoch) (hhost : c.kind.isHost) (hk : c.kind ≠ .hello) :
    ∃ e, (s.message epoch wire (.ok c) >>= (signMessage · key .channel)) = .ok e := by
  rw [message_eq_ok hnonce hepoch hwire hc]
  have hb : c.kind ≠ .boundaryAck := fun h => by rw [h] at hhost; cases hhost
  exact exists_signMessage key hk (validateCarrierKind_channel hb) (Content.encodable_of_kind hb)

theorem exists_keyAckEnvelope (generation : Uuid) (key : Key) (hnonce : s.nonce ≠ none)
    (hguest : 1 ≤ s.guestWire ∧ s.guestWire ≤ maxCounter)
    (hwire : 1 ≤ s.hostWire ∧ s.hostWire ≤ maxCounter) :
    ∃ e, s.keyAckEnvelope generation key = .ok e := by
  obtain ⟨nonce, hnonce⟩ := Option.ne_none_iff_exists'.mp hnonce
  unfold keyAckEnvelope
  rw [counter_eq_ok hguest]
  exact exists_sent hnonce key (by decide) hwire rfl rfl nofun

theorem exists_stopEnvelope (generation : Uuid) (key : Key) (hnonce : s.nonce ≠ none)
    (hepoch : 1 ≤ s.epoch ∧ s.epoch ≤ maxCounter) (hwire : 1 ≤ s.hostWire ∧ s.hostWire ≤ maxCounter)
    (hstop : 1 ≤ s.stopRequest.getD 0 ∧ s.stopRequest.getD 0 ≤ maxCounter) :
    ∃ e, s.stopEnvelope generation key = .ok e := by
  obtain ⟨nonce, hnonce⟩ := Option.ne_none_iff_exists'.mp hnonce
  unfold stopEnvelope
  rw [counter_eq_ok hstop]
  exact exists_sent hnonce key hepoch hwire trivial rfl nofun

/-! ### Performing operations -/

theorem perform_hello (hstate : s.state = .new) (nonce : Hex32)
    (hcard : s.usedNonces.card < maxOCIControlConnections) (hnonce : nonce ∉ s.usedNonces) :
    s.perform (.hello (some nonce)) = s.afterHello nonce := by
  have hfresh : s.freshNonce (some nonce) = .ok nonce := by
    simp only [freshNonce, bind_eq_ok, require_eq_ok, exists_const, if_neg hnonce]
    exact ⟨hcard, trivial⟩
  rw [perform, hello, if_neg (not_not.mpr hstate), hfresh]

theorem perform_keyAck (hstate : s.state = .bootstrapReceived) (hkey : s.key ≠ none)
    (hgen : s.bootGeneration ≠ none) (hnonce : s.nonce ≠ none)
    (hguest : 1 ≤ s.guestWire ∧ s.guestWire ≤ maxCounter) (hwire : s.hostWire < maxCounter) :
    s.perform .keyAck = { s.afterKeyAck with state := .keyAckSent } := by
  obtain ⟨key, hkey⟩ := Option.ne_none_iff_exists'.mp hkey
  obtain ⟨generation, hgen⟩ := Option.ne_none_iff_exists'.mp hgen
  obtain ⟨e, he⟩ := exists_keyAckEnvelope (s := s.afterKeyAck) generation key hnonce hguest
    ⟨Nat.succ_pos _, hwire⟩
  simp only [perform, keyAck, hstate, hkey, hgen, he]

theorem perform_stop (hstate : s.state = .ready) (hkey : s.key ≠ none)
    (hgen : s.bootGeneration ≠ none) (hnonce : s.nonce ≠ none)
    (hepoch : 1 ≤ s.epoch ∧ s.epoch ≤ maxCounter) (hwire : s.hostWire < maxCounter)
    (hstop : 1 ≤ s.stopRequest.getD (s.request + 1) ∧
      s.stopRequest.getD (s.request + 1) ≤ maxCounter) :
    s.perform .stop = { s.afterStop with state := .stopSent } := by
  obtain ⟨key, hkey⟩ := Option.ne_none_iff_exists'.mp hkey
  obtain ⟨generation, hgen⟩ := Option.ne_none_iff_exists'.mp hgen
  obtain ⟨e, he⟩ := exists_stopEnvelope (s := s.afterStop) generation key hnonce hepoch
    ⟨Nat.succ_pos _, hwire⟩ hstop
  simp only [perform, stop, hstate, hkey, hgen, he]

/-- A message that the session can accept, signed with its key, is accepted. -/
theorem exists_accept {m : OCIControlV2Message} (ht : Acceptance s m t) (hm : Current s m)
    (hbinding : m.binding = s.binding) (hkey : s.key ≠ none) (hgen : s.bootGeneration ≠ none) :
    ∃ e, e.body = m ∧ s.accept e = (.ok (), t) := by
  obtain ⟨key, hkey⟩ := Option.ne_none_iff_exists'.mp hkey
  have hkind := ht.kind
  obtain ⟨e, he⟩ := exists_signMessage key hkind.1 (validateCarrierKind_channel hkind.2.1)
    (Content.encodable_of_kind hkind.2.1)
  obtain ⟨-, -, -, rfl, -⟩ := signMessage_eq_ok he
  have hacc : s.accepted e = .ok t := accepted_eq_ok.mpr ⟨hbinding, .inr ⟨hkind.2.2, key, hkey,
    hgen, verifyMessageAuthentication_of_signMessage he, hm, ht⟩⟩
  exact ⟨e, rfl, by simp only [accept, hacc]⟩

/-- A BOOTSTRAP that is signed with the key it carries gives the session that key. -/
theorem exists_bootstrap (hstate : s.state = .helloSent) {nonce : Hex32}
    (hnonce : s.nonce = some nonce) {n : Counter} (hn : some n.1 = s.pendingRequest)
    (generation : Uuid) (key : Key) :
    ∃ e, e.body.content = .bootstrap generation n (hex32 key.1 key.2) ∧
      s.accept e = (.ok (), s.afterBootstrap generation key (some (keyIdentifier key)) 1) := by
  let m : OCIControlV2Message := ⟨s.binding, s.bootAttemptId, nonce, ⟨1, by decide⟩,
    ⟨1, by decide⟩, .bootstrap generation n (hex32 key.1 key.2), rfl⟩
  obtain ⟨e, he⟩ := exists_signMessage (m := m) key nofun (validateCarrierKind_channel nofun)
    trivial
  obtain ⟨-, tag, -, hbody, hmac⟩ := signMessage_eq_ok he
  have hacc : s.accepted e =
      .ok (s.afterBootstrap generation key (some (keyIdentifier key)) 1) := by
    refine accepted_eq_ok.mpr ⟨by rw [hbody], .inl ⟨generation, n, hex32 key.1 key.2,
      by rw [hbody], ⟨hstate, hn, by rw [hbody], by rw [hbody, hnonce], ?_, by rw [hbody],
        by rw [hbody]⟩, by rw [hbody, hmac, toKey_hex32]; rfl⟩⟩
    rw [toKey_hex32]
    exact verifyMessageAuthentication_of_signMessage he
  exact ⟨e, by rw [hbody], by simp only [accept, hacc]⟩

/-- A boundary that passes the checks of the session, signed with its key, passes all the
checks that come before the first write. -/
theorem exists_admission {m : OCIControlV2Message} {b : BoundaryAck} {accepted : Bool}
    (hchecked : Checked s m b accepted) (hkey : s.key ≠ none) (hgen : s.bootGeneration ≠ none)
    (hexec : s.execRequest = none) {g : Uuid} {n : Counter} (hc : m.content = .boundaryAck g n b)
    (he : m.content.Encodable) (hunused : b.boundaryId ∉ s.usedBoundaryIds) :
    ∃ e line digest, e.body = m ∧ s.admission e line =
      .ok ⟨m.epoch.1, m.wireSequence.1, b, digest, accepted⟩ := by
  obtain ⟨key, hkey⟩ := Option.ne_none_iff_exists'.mp hkey
  have hkind : m.content.kind = .boundaryAck := by rw [hc]; rfl
  obtain ⟨e, hsign⟩ := exists_signMessage key (by rw [hkind]; exact nofun)
    (validateCarrierKind_console hkind) he
  obtain ⟨-, -, -, rfl, -⟩ := signMessage_eq_ok hsign
  obtain ⟨line, hline⟩ := exists_encodeBoundaryLine hkind he
  obtain ⟨canonical, hcanonical⟩ := canonicalJsonBytes_eq_ok (isSome_dumps_envelope he)
  exact ⟨e, line, digestOf canonical, rfl, admission_eq_ok.mpr ⟨hexec, key, g, n, b, accepted,
    canonical, hkey, hgen, verifyMessageAuthentication_of_signMessage hsign, hc, hchecked, hline,
    hunused, hcanonical, rfl⟩⟩

/-- If its STOP wire is not stale, it is admitted. -/
theorem exists_admitBoundary {m : OCIControlV2Message} {b : BoundaryAck} {accepted : Bool}
    (hchecked : Checked s m b accepted) (hkey : s.key ≠ none) (hgen : s.bootGeneration ≠ none)
    (hexec : s.execRequest = none) {g : Uuid} {n : Counter} (hc : m.content = .boundaryAck g n b)
    (he : m.content.Encodable) (hunused : b.boundaryId ∉ s.usedBoundaryIds)
    (hstale : ∀ digest, ¬s.StaleStopWire ⟨m.epoch.1, m.wireSequence.1, b, digest, accepted⟩) :
    ∃ e line digest, e.body = m ∧ s.admitBoundary e line =
      (.ok (), s.finishCommit ⟨m.epoch.1, m.wireSequence.1, b, digest, accepted⟩) := by
  obtain ⟨e, line, digest, hbody, ha⟩ := exists_admission hchecked hkey hgen hexec hc he hunused
  exact ⟨e, line, digest, hbody, by simp only [admitBoundary, ha, if_neg (hstale digest)]⟩

end HostOCIControlV2Session

end Palimpsest.Control
