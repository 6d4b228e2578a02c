import Palimpsest.Policy.PolicyRoundTrip

/-!
# Preflight of sandbox policies

A request is supported if everything it asks for is offered and no rule about snapshots is broken
(`Palimpsest.Policy.Offered`), and it stays so when more is offered
(`Palimpsest.Policy.Offered.mono`). `Palimpsest.Policy.sandboxPolicy_exact` puts this together with
the encodings of the documents.
-/

namespace Palimpsest.Policy

open Results Canonical

variable {r : SandboxPolicyRequest} {c c' : SandboxPolicyCapabilities}

/-- Everything that the request asks for is offered, and no rule about snapshots is broken. -/
structure Offered (r : SandboxPolicyRequest) (c : SandboxPolicyCapabilities) : Prop where
  egress : r.egress ∈ c.egressModes.modes
  secretDelivery : r.secretDelivery.mode ∈ c.secretDeliveryModes.modes
  references : ∀ i ∈ r.secretDelivery.listed.items, i ∈ c.secretReferences.items
  deviceAccess : r.deviceAccess.mode ∈ c.deviceAccessModes.modes
  devices : ∀ i ∈ r.deviceAccess.listed.items, i ∈ c.deviceRequests.items
  audit : r.audit ∈ c.auditModes.modes
  snapshots : r.snapshotScrub.enabled = true → c.snapshotsEnabled = true
  scrubbing : c.snapshotScrubRequired = true → r.snapshotScrub.scrubRequired = true
  binaryPolicy : r.binaryPolicy.mode ∈ c.binaryPolicyModes.modes
  hooks : ∀ i ∈ r.binaryPolicy.listed.items, i ∈ c.binaryPolicyHooks.items

/-- The second capabilities offer what the first ones do, and possibly more. -/
structure Enlarges (c c' : SandboxPolicyCapabilities) : Prop where
  egressModes : ∀ m ∈ c.egressModes.modes, m ∈ c'.egressModes.modes
  secretDeliveryModes : ∀ m ∈ c.secretDeliveryModes.modes, m ∈ c'.secretDeliveryModes.modes
  secretReferences : ∀ i ∈ c.secretReferences.items, i ∈ c'.secretReferences.items
  deviceAccessModes : ∀ m ∈ c.deviceAccessModes.modes, m ∈ c'.deviceAccessModes.modes
  deviceRequests : ∀ i ∈ c.deviceRequests.items, i ∈ c'.deviceRequests.items
  auditModes : ∀ m ∈ c.auditModes.modes, m ∈ c'.auditModes.modes
  snapshotsEnabled : c.snapshotsEnabled = true → c'.snapshotsEnabled = true
  binaryPolicyModes : ∀ m ∈ c.binaryPolicyModes.modes, m ∈ c'.binaryPolicyModes.modes
  binaryPolicyHooks : ∀ i ∈ c.binaryPolicyHooks.items, i ∈ c'.binaryPolicyHooks.items

/-- **What is offered stays offered when more is.** Scrubbing is required by all capabilities. -/
theorem Offered.mono (h : Offered r c) (hle : Enlarges c c') : Offered r c' where
  egress := hle.egressModes _ h.egress
  secretDelivery := hle.secretDeliveryModes _ h.secretDelivery
  references i hi := hle.secretReferences i (h.references i hi)
  deviceAccess := hle.deviceAccessModes _ h.deviceAccess
  devices i hi := hle.deviceRequests i (h.devices i hi)
  audit := hle.auditModes _ h.audit
  snapshots hi := hle.snapshotsEnabled (h.snapshots hi)
  scrubbing _ := h.scrubbing c.scrubRequired
  binaryPolicy := hle.binaryPolicyModes _ h.binaryPolicy
  hooks i hi := hle.binaryPolicyHooks i (h.hooks i hi)

/-- Nothing is wrong with what is offered. -/
theorem forall_preflightIssues :
    (∀ issue ∈ preflightIssues r c, issue.1 = false) ↔ Offered r c := by
  simp only [preflightIssues, List.forall_mem_cons, List.not_mem_nil, false_imp_iff, implies_true,
    and_true, Bool.or_eq_false_iff, Bool.and_eq_false_imp, decide_eq_false_iff_not, not_not,
    Bool.not_eq_false', List.all_eq_true, decide_eq_true_eq]
  constructor
  · rintro ⟨hegress, hsecrets, hdevices, haudit, hsnapshots, hscrubbing, hhooks⟩
    exact ⟨hegress, hsecrets.1, hsecrets.2, hdevices.1, hdevices.2, haudit, hsnapshots, hscrubbing,
      hhooks.1, hhooks.2⟩
  · rintro ⟨hegress, hsecret, hrefs, hdevice, hdevices, haudit, hsnapshots, hscrubbing, hbinary,
      hhooks⟩
    exact ⟨hegress, ⟨hsecret, hrefs⟩, ⟨hdevice, hdevices⟩, haudit, hsnapshots, hscrubbing, hbinary,
      hhooks⟩

/-- Each issue names the field of its code. -/
theorem field_of_mem_preflightIssues {issue : Bool × PolicyPreflightCode × String}
    (h : issue ∈ preflightIssues r c) : issue.2.2 = issue.2.1.field := by
  simp only [preflightIssues, List.mem_cons, List.not_mem_nil, or_false] at h
  rcases h with rfl | rfl | rfl | rfl | rfl | rfl | rfl <;> rfl

/-- **Preflight answers, and says whether everything is offered.** -/
theorem preflightSandboxPolicy_eq_ok :
    ∃ result, preflightSandboxPolicy r c = .ok result ∧
      (result.supported = true ↔ Offered r c) := by
  -- Every issue that can be found names a field that an issue may name.
  have hissues : ∀ l : List (Bool × PolicyPreflightCode × String),
      (∀ issue ∈ l, issue ∈ preflightIssues r c) →
      ∃ issues, l.mapM (fun issue => PolicyPreflightIssue.make issue.2.1 (.str issue.2.2)) =
        .ok issues ∧ issues.length = l.length := by
    intro l hl
    induction l with
    | nil => exact ⟨[], rfl, rfl⟩
    | cons issue l ih =>
      obtain ⟨hissue, hl⟩ := List.forall_mem_cons.mp hl
      obtain ⟨issues, hmap, hlength⟩ := ih hl
      have hfield := field_of_mem_preflightIssues hissue
      refine ⟨⟨issue.2.1, issue.2.2, hfield⟩ :: issues, ?_, congrArg Nat.succ hlength⟩
      rw [List.mapM_cons]
      exact bind_eq_ok.mpr ⟨_, PolicyPreflightIssue.make_self ⟨_, _, hfield⟩,
        bind_eq_ok.mpr ⟨_, hmap, rfl⟩⟩
  obtain ⟨issues, hmap, hlength⟩ := hissues ((preflightIssues r c).filter (·.1))
    fun issue hissue => List.mem_of_mem_filter hissue
  have hagree : issues.isEmpty = true ↔
      Canonical.canonical PolicyPreflightIssue.key issues = [] := by
    rw [canonical_eq_nil, List.isEmpty_iff]
  refine ⟨⟨issues.isEmpty, _, isCanonical_canonical PolicyPreflightIssue.key_injective issues,
    hagree⟩, bind_eq_ok.mpr ⟨issues, hmap, ?_⟩, ?_⟩
  · exact bind_eq_ok.mpr ⟨(), rfl, dif_pos hagree⟩
  · show issues.isEmpty = true ↔ _
    rw [List.isEmpty_iff, ← List.length_eq_zero_iff, hlength, List.length_eq_zero_iff,
      List.filter_eq_nil_iff, ← forall_preflightIssues]
    simp only [Bool.not_eq_true]

/-- **Sandbox policies.** The encodings of requests, capabilities and results are exact. Preflight
of a request supports it if and only if everything that it asks for is offered and no rule about
snapshots is broken, and a request that is supported stays so when more is offered. -/
theorem sandboxPolicy_exact :
    EncodesExactly SandboxPolicyRequest ∧ EncodesExactly SandboxPolicyCapabilities ∧
      EncodesExactly PolicyPreflightResult ∧
      (∀ r c, ∃ result, preflightSandboxPolicy r c = .ok result ∧
        (result.supported = true ↔ Offered r c)) ∧
      ∀ r c c' result result', Enlarges c c' → preflightSandboxPolicy r c = .ok result →
        preflightSandboxPolicy r c' = .ok result' → result.supported = true →
        result'.supported = true := by
  refine ⟨encodesExactly, encodesExactly, encodesExactly, ?_, ?_⟩
  · exact fun r c => preflightSandboxPolicy_eq_ok
  · intro r c c' result result' hle hresult hresult' hsupported
    obtain ⟨x, hx, hoffered⟩ := preflightSandboxPolicy_eq_ok (r := r) (c := c)
    obtain ⟨y, hy, hoffered'⟩ := preflightSandboxPolicy_eq_ok (r := r) (c := c')
    obtain rfl : x = result := Except.ok.inj (hx.symm.trans hresult)
    obtain rfl : y = result' := Except.ok.inj (hy.symm.trans hresult')
    exact hoffered'.mpr ((hoffered.mp hsupported).mono hle)

end Palimpsest.Policy
