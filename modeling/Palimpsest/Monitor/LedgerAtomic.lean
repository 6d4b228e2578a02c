import Palimpsest.Monitor.CrashAtomic
import Palimpsest.Monitor.Preactivation

/-!
# The two ledgers of a monitor are crash-atomic

Both kinds of ledgers publish by the same steps, so both are atomic as long as no first
publication is killed between the link that names the journal and the removal of the temporary
name (`Palimpsest.Monitor.publish_crashAtomic`). A first publication killed there leaves a
journal that no reader accepts (`Palimpsest.Monitor.publish_killed_naming`).
-/

namespace Palimpsest.Monitor

open Control

/-! ### Journals are short -/

theorem fits_of_width {S K : Type} {L : Ledger S K} {s : S} {v : Json.Value} {n : ℕ}
    (hencode : L.encode s = canonicalBytes v) (hsome : (Json.dumps v).isSome) (hwidth : v.width ≤ n)
    (hn : n < maxJournalBytes) : ∃ content, L.Fits s content := by
  obtain ⟨t, ht⟩ := Option.isSome_iff_exists.mp hsome
  have hcontent : canonicalBytes v = some (encodeUtf8 t ++ [10]) := by rw [canonicalBytes, ht]; rfl
  have hlength := length_canonicalBytes_le hcontent
  exact ⟨_, hencode.trans hcontent, hlength.1, by omega⟩

theorem ownerLedger_fits {b : MonitorBinding} {s : MonitorJournalSnapshot}
    (h : s.writer.Sized) : ∃ content, (ownerLedger b).Fits s content :=
  fits_of_width (v := s.toValue b) rfl (MonitorJournalSnapshot.isSome_dumps h)
    (MonitorJournalSnapshot.width_le h) (by decide)

theorem preactivationLedger_fits {binding : MonitorPreActivationBinding}
    {s : MonitorPreactivationJournalSnapshot binding} (h : s.Sized) :
    ∃ content, (preactivationLedger binding).Fits s content :=
  fits_of_width (v := s.toValue) rfl (MonitorPreactivationJournalSnapshot.isSome_dumps h)
    (MonitorPreactivationJournalSnapshot.width_le h) (by decide)

/-! ### The two ledgers -/

/-- In every run of attempts none of which is killed while it names the first journal, every
attempt is atomic, and one more attempt is atomic exactly if it is not killed there. -/
def CrashAtomic {S K : Type} [DecidableEq S] [DecidableEq K] (L : Ledger S K) (euid : ℕ)
    (sized : S → Prop) : Prop :=
  ∀ (o : Option S) (d : Directory), Usable L euid o d → ∀ attempts : List (Attempt S),
    (∀ a ∈ attempts, sized a.snapshot) →
    Throughout (fun before a => ¬a.KilledNaming L euid (leavesAll L euid d before)) attempts →
    Throughout (fun before a => Atomic L euid (leavesAll L euid d before) a) attempts ∧
      ∀ a : Attempt S, sized a.snapshot →
        (Atomic L euid (leavesAll L euid d attempts) a ↔
          ¬a.KilledNaming L euid (leavesAll L euid d attempts))

theorem crashAtomic_of_fits {S K : Type} [DecidableEq S] [DecidableEq K] {L : Ledger S K}
    {sized : S → Prop} (euid : ℕ) (hfits : ∀ {s}, sized s → ∃ content, L.Fits s content) :
    CrashAtomic L euid sized := by
  intro o d h attempts hsized hspared
  have hall : ∀ a ∈ attempts, ∃ content, L.Fits a.snapshot content :=
    fun a ha => hfits (hsized a ha)
  refine ⟨h.throughout_atomic hall hspared, fun a ha => ?_⟩
  obtain ⟨o', h'⟩ := h.leavesAll hall hspared
  obtain ⟨content, hcontent⟩ := hfits ha
  exact h'.atomic_iff a hcontent

/-- **Publication is crash-atomic but for the first journal being named**, in both ledgers and
for snapshots with numbers of the size a kernel gives them. -/
theorem publish_crashAtomic (owner : MonitorBinding) (run : MonitorPreActivationBinding) :
    CrashAtomic (ownerLedger owner) owner.ownerUid.toNat (fun s => s.writer.Sized) ∧
      CrashAtomic (preactivationLedger run) run.ownerUid.toNat
        MonitorPreactivationJournalSnapshot.Sized :=
  ⟨crashAtomic_of_fits _ ownerLedger_fits, crashAtomic_of_fits _ preactivationLedger_fits⟩

/-! ### The first journal, killed while it is named -/

/-- A directory with no files. -/
def emptyDirectory : Directory := ⟨[], fun _ => ⟨[], 0, 0, false⟩, 0⟩

theorem emptyDirectory_usable {S K : Type} (L : Ledger S K) (euid : ℕ) :
    Usable L euid none emptyDirectory :=
  ⟨⟨List.nodup_nil, fun _ h => absurd h List.not_mem_nil⟩, .inl rfl, rfl⟩

theorem isUuid_sample : isUuid "00000000-0000-4000-8000-000000000001" = true := by decide

def sampleUuid : Uuid := ⟨"00000000-0000-4000-8000-000000000001", isUuid_sample⟩

def sampleDigest : Digest :=
  ⟨"sha256:0000000000000000000000000000000000000000000000000000000000000000", by decide⟩

theorem isRunName_sample : isRunName "web" = true := by decide

def sampleBinding : MonitorBinding where
  name := ⟨"web", isRunName_sample⟩
  runId := sampleUuid
  ownerUid := 1000
  planDigest := sampleDigest
  definitionProjectionDigest := sampleDigest
  stage1ArtifactDigest := sampleDigest
  domainUuid := sampleUuid
  domainId := 7
  bootAttemptId := sampleUuid
  domainId_pos := by decide
  domainId_le := by decide

/-- The first journal of a lease. -/
def sampleSnapshot : MonitorJournalSnapshot where
  monitorGeneration := sampleUuid
  phase := .starting
  revision := 1
  writer := ⟨4242, sampleUuid, 99, by decide⟩
  revision_pos := by decide
  revision_le := by decide

/-- A first publication that is killed after fourteen steps, the last of which is the link. -/
def sampleAttempt : Attempt MonitorJournalSnapshot :=
  ⟨sampleSnapshot, "00000000000040008000000000000001", [], some 14⟩

/-- **A first publication killed after the link leaves a ledger that is not usable.** -/
theorem publish_killed_naming :
    Usable (ownerLedger sampleBinding) 1000 none emptyDirectory ∧ sampleSnapshot.writer.Sized ∧
      ¬Atomic (ownerLedger sampleBinding) 1000 emptyDirectory sampleAttempt := by
  have hsized : sampleSnapshot.writer.Sized := ⟨by decide, by decide⟩
  obtain ⟨content, hcontent⟩ := ownerLedger_fits (b := sampleBinding) hsized
  have husable := emptyDirectory_usable (ownerLedger sampleBinding) 1000
  refine ⟨husable, hsized, fun h => (husable.atomic_iff sampleAttempt hcontent).mp h ?_⟩
  refine ⟨rfl, rfl, fun _ _ => trivial, ?_⟩
  have hne : content ≠ [] := List.ne_nil_of_length_pos hcontent.2.1
  have hprevious : Attempt.previous (ownerLedger sampleBinding) 1000 emptyDirectory = none := rfl
  rw [Attempt.before, hprevious, Ledger.ready.eq_def,
    show (ownerLedger sampleBinding).encode sampleAttempt.snapshot = some content from hcontent.1]
  simp [openLock, emptyDirectory, Directory.find, Ledger.prepare, Ledger.writeAll, hne,
    sampleAttempt]

end Palimpsest.Monitor
