import Palimpsest.Lifecycle.GuestSteps

/-!
# The runs of the guest

Over a whole run, whatever is sent to the guest and in whatever order, the frames it takes are
messages of the host, each under a greater number than those before it. All but the HELLO are signed
with the key of the boot; no nonce opens a connection twice, no request is made twice, and at most
one STOP is carried out (`Palimpsest.Lifecycle.Run.messages`).
-/

namespace Palimpsest.Lifecycle

open Control (Uuid Digest Hex32 Counter OCIControlV2Envelope OCIControlV2Binding Content maxCounter
  counter_one encodeUtf8 signMessage zeroHello zeroKey zeroUuid)
open LifecycleSession

variable {s t : LifecycleSession}

/-! ### What a message adds -/

/-- The kinds that open a connection. -/
def opens : Content → Bool
  | .hello _ | .reconnect .. => true
  | _ => false

/-- The request that a message makes and no message before it has made. -/
def newRequest : Content → Option Counter
  | .hello n | .reconnect _ n .. | .exec _ n .. => some n
  | _ => none

/-- A request that the ledgers of the session know. -/
def LifecycleSession.Knows (s : LifecycleSession) (requestId : ℕ) : Prop :=
  requestId ∈ s.seenRequestIds ∨ requestId ≤ s.lastExecRequestId

/-- What the session knows of the host after a message, from what it knew before. -/
structure Accepts (s : LifecycleSession) (e : OCIControlV2Envelope) (t : LifecycleSession) :
    Prop where
  wire : s.lastAcceptedHostWire < e.body.wireSequence.1 ∧
    t.lastAcceptedHostWire = e.body.wireSequence.1
  binding : t.binding = s.binding ∧ e.body.binding = s.binding
  identity : ∀ i, s.identity = some i → t.identity = some i
  signed : e.body.content.kind ≠ .hello →
    ∃ i, s.identity = some i ∧ signMessage e.body i.bootKey .channel = .ok e
  nonces : t.usedNonces = if opens e.body.content then s.usedNonces ++ [e.body.hostNonce]
    else s.usedNonces
  fresh : opens e.body.content = true →
    s.usedNonces.length < lifecycleConnectionMax ∧ e.body.hostNonce ∉ s.usedNonces
  request : ∀ n ∈ newRequest e.body.content, ¬s.Knows n.1 ∧ t.Knows n.1
  requests : ∀ n, s.Knows n → t.Knows n

theorem Due.binding {p : HostPayload} {n : Counter} {e : OCIControlV2Envelope} (h : Due s p n e) :
    e.body.binding = s.binding := by
  obtain ⟨i, hidentity, haddressed⟩ := h.addressed
  rw [haddressed.binding, (identity_eq_some.mp hidentity).1]

theorem Due.signed {p : HostPayload} {n : Counter} {e : OCIControlV2Envelope} (h : Due s p n e) :
    ∃ i, s.identity = some i ∧ signMessage e.body i.bootKey .channel = .ok e := by
  obtain ⟨i, hidentity, haddressed⟩ := h.addressed
  exact ⟨i, hidentity, haddressed.signed⟩

theorem not_knows {n : ℕ} (hlast : s.lastExecRequestId < n) (hseen : n ∉ s.seenRequestIds) :
    ¬s.Knows n := by
  rintro (hmem | hle)
  · exact hseen hmem
  · omega

theorem Knows.append {n k : ℕ} (hseen : t.seenRequestIds = s.seenRequestIds ++ [k])
    (hlast : t.lastExecRequestId = s.lastExecRequestId) (h : s.Knows n) : t.Knows n := by
  refine h.imp (fun hmem => ?_) (fun hle => hlast ▸ hle)
  rw [hseen]
  exact List.mem_append_left _ hmem

theorem knows_appended {k : ℕ} (hseen : t.seenRequestIds = s.seenRequestIds ++ [k]) :
    t.Knows k := by
  refine Or.inl ?_
  rw [hseen]
  exact List.mem_append_right _ (List.mem_singleton_self k)

/-- **What taking a message adds** to what the session knows. -/
theorem Taken.accepts {e : OCIControlV2Envelope} (hs : Steady s) (h : Taken s e t) :
    Accepts s e t := by
  cases h with
  | hello hgreets hfirst hfresh =>
    rename_i n
    -- no frame has been taken before the HELLO, so its number is new
    obtain ⟨hlast, hsecret⟩ := hs.hello hfirst.2
    refine ⟨⟨?_, hgreets.wire.symm⟩, ⟨rfl, hgreets.binding⟩, fun i hi => ?_, fun h => ?_, ?_,
      fun _ => ⟨hfresh.1.1, hfresh.2.1⟩, fun k hk => ?_, fun k => Knows.append rfl rfl⟩
    · rw [hlast, hgreets.wire]
      exact Nat.zero_lt_one
    · rw [(identity_eq_some.mp hi).2.2] at hsecret
      cases hsecret
    · exact absurd (by rw [hgreets.content]; rfl) h
    · rw [hgreets.content]
      rfl
    · rw [hgreets.content] at hk
      obtain rfl := Option.some.inj hk
      exact ⟨not_knows hfresh.2.2.1 hfresh.2.2.2, knows_appended rfl⟩
  | keyAck hdue hopen hnext =>
    obtain ⟨generation, hcontent⟩ := hdue.content
    refine ⟨⟨hdue.newer, rfl⟩, ⟨rfl, hdue.binding⟩, fun i hi => hi, fun _ => hdue.signed, ?_,
      fun h => ?_, fun k hk => ?_, fun k hk => hk⟩
    · rw [hcontent]
      rfl
    · rw [hcontent] at h
      cases h
    · rw [hcontent] at hk
      cases hk
  | reconnect hdue hclosed hsent hfresh =>
    rename_i n digest boundaryId
    obtain ⟨generation, hcontent⟩ := hdue.content
    refine ⟨⟨hdue.newer, rfl⟩, ⟨rfl, hdue.binding⟩, fun i hi => hi, fun _ => hdue.signed, ?_,
      fun _ => ⟨hfresh.1.1, hfresh.2.1⟩, fun k hk => ?_, fun k => Knows.append rfl rfl⟩
    · rw [hcontent]
      rfl
    · rw [hcontent] at hk
      obtain rfl := Option.some.inj hk
      exact ⟨not_knows hfresh.2.2.1 hfresh.2.2.2, knows_appended rfl⟩
  | stop hdue hopen hsent htake =>
    rename_i n outcome
    obtain ⟨generation, hcontent⟩ := hdue.content
    have hspec := takeStop_spec n.2.1 htake
    refine ⟨⟨hdue.newer, hspec.wire⟩, ⟨hspec.binding, hdue.binding⟩, fun i hi => ?_,
      fun _ => hdue.signed, ?_, fun h => ?_, fun k hk => ?_, fun k hk => ?_⟩
    · obtain ⟨hbinding, hattempt, hsecret⟩ := identity_eq_some.mp hi
      exact identity_eq_some.mpr ⟨hspec.binding.trans hbinding, hspec.attempt.trans hattempt,
        hspec.secret.trans hsecret⟩
    · rw [hcontent, hspec.nonces]
      rfl
    · rw [hcontent] at h
      cases h
    · rw [hcontent] at hk
      cases hk
    · exact hk.imp (fun hmem => hspec.requests.1 hmem) fun hle => hspec.requests.2 ▸ hle
  | exec hdue hopen hsent hseen =>
    rename_i n argv timeoutMs
    obtain ⟨generation, hcontent⟩ := hdue.content
    refine ⟨⟨hdue.newer, rfl⟩, ⟨rfl, hdue.binding⟩, fun i hi => hi, fun _ => hdue.signed, ?_,
      fun h => ?_, fun k hk => ?_, fun k hk => ?_⟩
    · rw [hcontent]
      rfl
    · rw [hcontent] at h
      cases h
    · rw [hcontent] at hk
      obtain rfl := Option.some.inj hk
      exact ⟨not_knows hseen.1 hseen.2, Or.inr (Nat.le_refl _)⟩
    · -- a command that is taken moves the bound up, so what was below it stays so
      exact hk.imp_right fun hle => Nat.le_trans hle (Nat.le_of_lt hseen.1)

/-! ### Runs -/

/-- A run of the guest, with the frames it takes, each of them in an epoch that a counter of the
protocol can number. -/
inductive Run (s : LifecycleSession) : List (List UInt8) → LifecycleSession → Prop
  | nil : Run s [] s
  | quiet {taken : List (List UInt8)} {t u : LifecycleSession} (h : Run s taken t)
    (hstep : Step t none u) : Run s taken u
  | take {taken : List (List UInt8)} {t u : LifecycleSession} {payload : List UInt8}
    (h : Run s taken t) (hbound : t.epoch ≤ maxCounter) (hstep : Step t (some payload) u) :
    Run s (taken ++ [payload]) u

/-- What the messages `es` that were taken have left in the session `s`. -/
structure History (es : List OCIControlV2Envelope) (s : LifecycleSession) : Prop where
  ordered : es.Pairwise fun e e' => e.body.wireSequence.1 < e'.body.wireSequence.1
  last : ∀ e ∈ es, e.body.wireSequence.1 ≤ s.lastAcceptedHostWire
  binding : ∀ e ∈ es, e.body.binding = s.binding
  signed : ∀ e ∈ es, e.body.content.kind ≠ .hello →
    ∃ i, s.identity = some i ∧ signMessage e.body i.bootKey .channel = .ok e
  nonces : (es.filter fun e => opens e.body.content).map (fun e => e.body.hostNonce) = s.usedNonces
  distinct : s.usedNonces.Nodup ∧ s.usedNonces.length ≤ lifecycleConnectionMax
  known : ∀ n ∈ es.filterMap fun e => newRequest e.body.content, s.Knows n.1
  requests : (es.filterMap fun e => newRequest e.body.content).Nodup

theorem history_init (binding : OCIControlV2Binding) (workload : Stage1.Init.GuestProcess)
    (job : RemoteExec) : History [] (init binding workload job) where
  ordered := List.Pairwise.nil
  last := List.forall_mem_nil _
  binding := List.forall_mem_nil _
  signed := List.forall_mem_nil _
  nonces := rfl
  distinct := ⟨List.nodup_nil, Nat.zero_le _⟩
  known := List.forall_mem_nil _
  requests := List.nodup_nil

variable {es : List OCIControlV2Envelope}

theorem History.quiet (hquiet : Quiet s t) (h : History es s) : History es t where
  ordered := h.ordered
  last e he := hquiet.wire ▸ h.last e he
  binding e he := hquiet.binding ▸ h.binding e he
  signed e he hkind := by
    obtain ⟨i, hidentity, hsigned⟩ := h.signed e he hkind
    exact ⟨i, hquiet.identity i hidentity, hsigned⟩
  nonces := hquiet.nonces ▸ h.nonces
  distinct := hquiet.nonces ▸ h.distinct
  known n hn := by
    rw [Knows, hquiet.requests.1, hquiet.requests.2]
    exact h.known n hn
  requests := h.requests

theorem History.take {e : OCIControlV2Envelope} (he : Accepts s e t) (h : History es s) :
    History (es ++ [e]) t where
  ordered := by
    -- the last number bounds those of all before it
    refine List.pairwise_append.mpr ⟨h.ordered, List.pairwise_singleton _ _, fun a ha b hb => ?_⟩
    obtain rfl := List.mem_singleton.mp hb
    exact Nat.lt_of_le_of_lt (h.last a ha) he.wire.1
  last := by
    rw [he.wire.2, List.forall_mem_append, List.forall_mem_singleton]
    exact ⟨fun a ha => Nat.le_trans (h.last a ha) (Nat.le_of_lt he.wire.1), Nat.le_refl _⟩
  binding := by
    rw [he.binding.1, List.forall_mem_append, List.forall_mem_singleton]
    exact ⟨h.binding, he.binding.2⟩
  signed := by
    have hmono (a : OCIControlV2Envelope) (ha : ∃ i, s.identity = some i ∧
        signMessage a.body i.bootKey .channel = .ok a) : ∃ i, t.identity = some i ∧
          signMessage a.body i.bootKey .channel = .ok a := by
      obtain ⟨i, hidentity, hsigned⟩ := ha
      exact ⟨i, he.identity i hidentity, hsigned⟩
    rw [List.forall_mem_append, List.forall_mem_singleton]
    exact ⟨fun a ha hkind => hmono a (h.signed a ha hkind), fun hkind => hmono e (he.signed hkind)⟩
  nonces := by
    rw [List.filter_append, List.map_append, h.nonces, he.nonces]
    cases hopens : opens e.body.content with
    | true => simp [hopens]
    | false => simp [hopens]
  distinct := by
    rw [he.nonces]
    split_ifs with hopens
    · obtain ⟨hroom, hnew⟩ := he.fresh hopens
      refine ⟨List.concat_eq_append ▸ h.distinct.1.concat hnew, ?_⟩
      rw [List.length_append, List.length_singleton]
      exact hroom
    · exact h.distinct
  known := by
    -- the ledgers only grow, and they know the request of the message
    rw [List.filterMap_append, List.forall_mem_append]
    refine ⟨fun n hn => he.requests _ (h.known n hn), fun n hn => ?_⟩
    obtain ⟨a, ha, hrequest⟩ := List.mem_filterMap.mp hn
    obtain rfl := List.mem_singleton.mp ha
    exact (he.request n hrequest).2
  requests := by
    rw [List.filterMap_append]
    refine List.nodup_append'.mpr ⟨h.requests, ?_, fun n hn hn' => ?_⟩
    · cases hrequest : newRequest e.body.content with
      | none => simp [hrequest]
      | some n => simp [hrequest]
    · -- a request that is new is none that the ledgers know
      obtain ⟨a, ha, hrequest⟩ := List.mem_filterMap.mp hn'
      obtain rfl := List.mem_singleton.mp ha
      exact (he.request n hrequest).1 (h.known n hn)

variable {binding : OCIControlV2Binding} {workload : Stage1.Init.GuestProcess} {job : RemoteExec}
  {taken : List (List UInt8)}

theorem Run.history (h : Run (init binding workload job) taken t) : Steady t ∧
    ∃ es : List OCIControlV2Envelope, taken = es.map (fun e => encodeUtf8 e.text) ∧
      History es t := by
  induction h with
  | nil => exact ⟨steady_init _ _ _, [], rfl, history_init _ _ _⟩
  | quiet _ hstep ih =>
    obtain ⟨hsteady, es, htaken, hhistory⟩ := ih
    obtain ⟨hsteady', hquiet⟩ := hstep.quiet hsteady
    exact ⟨hsteady', es, htaken, hhistory.quiet hquiet⟩
  | take _ hbound hstep ih =>
    obtain ⟨hsteady, es, rfl, hhistory⟩ := ih
    obtain ⟨e, rfl, htaken⟩ := hstep.taken hsteady hbound
    refine ⟨htaken.steady hsteady, es ++ [e], ?_, hhistory.take (htaken.accepts hsteady)⟩
    rw [List.map_append]
    rfl

/-- **What the guest takes in a run**, whatever is sent to it and whenever: messages of the host for
this boot, under growing numbers, with the key of the boot on all but the HELLO; the nonces that
open a connection differ, and so do the requests; and no more than one STOP is carried out. -/
theorem Run.messages (h : Run (init binding workload job) taken t) :
    (∃ es : List OCIControlV2Envelope, taken = es.map (fun e => encodeUtf8 e.text) ∧
      History es t) ∧ t.stopDeliveredCount ≤ 1 := by
  obtain ⟨hsteady, hhistory⟩ := h.history
  refine ⟨hhistory, ?_⟩
  rw [hsteady.stop]
  split_ifs
  · exact Nat.zero_le 1
  · exact Nat.le_refl 1

/-- The session whose workload runs, with the numbers of the KEY_ACK. -/
def running (e : OCIControlV2Envelope) : LifecycleSession :=
  { awaiting.afterKeyAck (viewOf e .keyAck ⟨1, counter_one⟩) with state := .ready }

/-- A HELLO, the KEY_ACK that answers the BOOTSTRAP, and a STOP, with what the guest does of itself
in between. -/
theorem Run.messages_stop : ∃ (ack stop : OCIControlV2Envelope) (t : LifecycleSession),
    ack.body.content = .keyAck zeroUuid ⟨1, counter_one⟩ ∧
    stop.body.content = .stop zeroUuid ⟨2, by decide⟩ .int ∧ t.stopRequestId = 2 ∧
    (∃ es : List OCIControlV2Envelope, [encodeUtf8 zeroHello.text, encodeUtf8 ack.text,
      encodeUtf8 stop.text] = es.map (fun e => encodeUtf8 e.text) ∧ History es t) ∧
      t.stopDeliveredCount ≤ 1 := by
  obtain ⟨ack, hack, hack_wire, hack_due⟩ := exists_keyAck
  have hgreeted : Run sampleSession [encodeUtf8 zeroHello.text] awaiting :=
    (Run.nil.take (Nat.zero_le _) (taken_zeroHello.step (steady_init _ _ _) (Nat.zero_le _))).quiet
      (.bootstrap sampleSecret false rfl rfl)
  have hacked := hgreeted.take (by decide) (Taken.step steady_awaiting (by decide)
    (.keyAck hack_due ⟨rfl, rfl⟩ ⟨rfl, by rw [hack_wire]; rfl⟩))
  have hlast : (running ack).lastAcceptedHostWire = 2 := congrArg Subtype.val hack_wire
  -- The guest is ready, so a STOP is admitted: its number and its request come next.
  have hrunning := hacked.quiet (.ready rfl (by
    change ack.body.wireSequence.1 ≠ 0
    rw [hack_wire]
    exact Nat.succ_ne_zero 1))
  have hsteady : Steady (running ack) := hrunning.history.1
  have hepoch : (running ack).epoch ≤ maxCounter := counter_one.2
  have hawaits : (running ack).Awaits .stop := hsteady.awaits hepoch
    (i := ⟨zeroHello.body.binding, zeroUuid, zeroUuid, zeroKey⟩) rfl (by rintro ⟨⟩)
  have hnonce : (running ack).nonceOk .stop zeroHello.body.hostNonce = true := by
    rw [nonceOk, if_neg (by rintro ⟨⟩)]
    exact decide_eq_true rfl
  have hrequest : (running ack).RequestOk .stop 2 := by
    rw [RequestOk, if_neg (by rintro ⟨⟩)]
    decide
  have hadmits : (running ack).Admits zeroHello.body.hostNonce .stop 2 3 :=
    ⟨hepoch.trans_lt (by decide), hnonce, trivial, hrequest, by decide⟩
  obtain ⟨stop, hstop, -, -, hstop_due⟩ := Awaits.exists_due rfl ⟨2, by decide⟩ ⟨3, by decide⟩
    hawaits (by rintro ⟨⟩) hadmits (by rw [hlast]; decide)
  have htake : (running ack).takeStop 2 stop.body.wireSequence.1 = some (_, .dispatched) := rfl
  have hstopped := hrunning.take hepoch
    (Taken.step hsteady hepoch (.stop hstop_due rfl rfl htake))
  exact ⟨ack, stop, _, hack, hstop, rfl, Run.messages hstopped⟩

/-! ### A lost connection -/

/-- The RECONNECT for a boundary that the guest has told of. -/
theorem Steady.reconnects (hs : Steady s) (hepoch : s.epoch ≤ maxCounter)
    (hclosed : s.connectionHasHello = false ∧ s.keyAckWireSequence ≠ 0)
    (hsent : s.outboundFailed = false) {i : BootIdentity} (hidentity : s.identity = some i)
    {digest : Digest} {boundaryId : Uuid}
    (hboundary : s.boundaryDigest = some digest ∧ s.boundaryId = some boundaryId) {nonce : Hex32}
    {n wire : Counter} (hfresh : s.Fresh nonce n.1) (hwire : s.lastAcceptedHostWire < wire.1) :
    ∃ (e : OCIControlV2Envelope) (t : LifecycleSession),
      e.body.content = .reconnect i.bootGeneration n digest boundaryId ∧
        Step s (some (encodeUtf8 e.text)) t ∧ t.connectionHasHello = true := by
  have hawaits : s.Awaits .reconnect := hs.awaits hepoch hidentity fun _ => hclosed
  have hnonce : s.nonceOk .reconnect nonce = true := by
    rw [nonceOk, if_pos rfl, Bool.not_eq_true', ← Bool.not_eq_true, nonceSeen_encode]
    exact hfresh.2.1
  have hadmits : s.Admits nonce (.reconnect digest boundaryId) n.1 wire.1 :=
    ⟨Nat.lt_of_le_of_lt hepoch (by decide), hnonce, hboundary, n.2, wire.2⟩
  obtain ⟨e, hcontent, rfl, -, hdue⟩ :=
    Awaits.exists_due (p := .reconnect digest boundaryId) hidentity n wire hawaits (by rintro ⟨⟩)
      hadmits hwire
  exact ⟨e, _, hcontent, (Taken.reconnect hdue hclosed hsent hfresh).step hs hepoch, rfl⟩

/-- **A connection that is lost can be opened again**: for each nonce and each request that the
ledgers do not know and have room for, the host can sign a RECONNECT that the guest takes. -/
theorem Run.reconnects (h : Run (init binding workload job) taken t) (hepoch : t.epoch ≤ maxCounter)
    (hclosed : t.connectionHasHello = false ∧ t.keyAckWireSequence ≠ 0)
    (hsent : t.outboundFailed = false) {i : BootIdentity} (hidentity : t.identity = some i)
    {digest : Digest} {boundaryId : Uuid}
    (hboundary : t.boundaryDigest = some digest ∧ t.boundaryId = some boundaryId) {nonce : Hex32}
    {n wire : Counter} (hfresh : t.Fresh nonce n.1) (hwire : t.lastAcceptedHostWire < wire.1) :
    ∃ (e : OCIControlV2Envelope) (u : LifecycleSession),
      e.body.content = .reconnect i.bootGeneration n digest boundaryId ∧
        Run (init binding workload job) (taken ++ [encodeUtf8 e.text]) u ∧
          u.connectionHasHello = true := by
  obtain ⟨e, u, hcontent, hstep, hopen⟩ :=
    h.history.1.reconnects hepoch hclosed hsent hidentity hboundary hfresh hwire
  exact ⟨e, u, hcontent, h.take hepoch hstep, hopen⟩

end Palimpsest.Lifecycle
