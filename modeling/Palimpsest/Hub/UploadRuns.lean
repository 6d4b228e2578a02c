import Palimpsest.Hub.UploadSafety

/-!
# Uploads over whole runs

Whatever the requests of any number of clients do one after the other or between each other,
whatever fails and whoever is killed: the staging file starts with what was committed, a version
has exactly that as its archive for good, an end is an end, and at most four sessions of a
project are active (`Palimpsest.Hub.Upload.uploads_safe`). A second push of a root is complete
too, but what it brought is removed again, and the version keeps its first archive.

This holds in the runs in which a row is read as it is when the expiry of `start_upload` reads
it again. The transaction of that request has read the row before, and a plain refresh can give
it the same row once more: then a session that another request has finished in the meantime is
set to failed (`Palimpsest.Hub.Upload.expiry_overwrites_complete`).
-/

namespace Palimpsest.Hub.Upload

open Calls Calls.Protocol

/-- What happens to the hub. -/
abbrev HubEvent := Event Caller Outcome Drift Request

/-- What serves the requests of a hub. -/
abbrev serve (_ : Caller) (request : Request) : Op Unit := request.program

/-- A hub without sessions and requests. -/
def start : Pool Caller Call Answer World Unit := Pool.idle World.initial

/-- The hub after these events. -/
def hubAfter (h : ContentHash) (events : List HubEvent) : World :=
  (start.run (surroundings h) serve events).world

theorem inv_initial (h : ContentHash) : Inv h World.initial where
  rows := nofun
  issued := fun _ _ => ⟨rfl, rfl, rfl, rfl⟩
  locked := nofun
  marked := nofun
  creating := nofun
  announced := nofun
  active := fun _ => Nat.zero_le _
  references := nofun
  distinct := nofun

/-- **Uploads neither corrupt nor resurrect an archive**, as long as the expiry reads rows as they
are. -/
theorem uploads_safe (h : ContentHash) (events more : List HubEvent)
    (hfresh : FairRun (surroundings h) Fresh serve start (events ++ more)) :
    -- The staging file starts with the chunks of the appends that were committed, in order.
    (∀ id row, (hubAfter h events).row id = some row →
      Consecutive 0 ((hubAfter h events).committed id) ∧
      ((hubAfter h events).received id).length = row.receivedBytes ∧
      (∀ content, (hubAfter h events).file id = some content →
        content.take row.receivedBytes = (hubAfter h events).received id) ∧
      (row.status.isActive → (hubAfter h events).now < row.expiresAt → 0 < row.receivedBytes →
        ((hubAfter h events).file id).isSome)) ∧
    -- What a complete session has received is what was declared and what the store had when the
    -- session became complete, and there is a version for it.
    (∀ id row, (hubAfter h events).row id = some row → row.status = .complete →
      ((hubAfter h events).published id = some ((hubAfter h events).received id) ∧
        h.digest ((hubAfter h events).received id) = row.request.archiveDigest ∧
        ((hubAfter h events).received id).length = row.request.archiveSizeBytes) ∧
      ∃ r ∈ (hubAfter h events).references, r.key = (row.reference id).key) ∧
    -- A version has for good the archive of the session whose commit inserted it, and the store
    -- has what that session received.
    (∀ r ∈ (hubAfter h events).references,
      (∃ row, (hubAfter h events).row r.upload = some row ∧ row.status = .complete ∧
        row.reference r.upload = r) ∧
      r ∈ (hubAfter h (events ++ more)).references ∧
      (hubAfter h (events ++ more)).blob r.archiveDigest =
        some ((hubAfter h events).received r.upload) ∧
      ∀ r' ∈ (hubAfter h events).references, r.target.isVersion → r'.key = r.key → r' = r) ∧
    -- A session that has ended has ended for good.
    (∀ id row, (hubAfter h events).row id = some row → row.status.isActive = false →
      ∃ row', (hubAfter h (events ++ more)).row id = some row' ∧ row'.status.isActive = false ∧
        row'.receivedBytes = row.receivedBytes ∧
        (hubAfter h (events ++ more)).committed id = (hubAfter h events).committed id ∧
        (row'.status = .complete ↔ row.status = .complete) ∧
        (row.status = .complete → row'.result = row.result)) ∧
    -- At most four sessions of a project are active.
    ∀ project, ((hubAfter h events).activeIn project).length ≤ 4 := by
  obtain ⟨hevents, hmore⟩ := fairRun_append.mp hfresh
  have hok : Ok (protocol h) (surroundings h) Fresh (start.run (surroundings h) serve events) :=
    ok_run (holds h) (ok_idle (inv_initial h)) hevents
  have hinv : Inv h (hubAfter h events) := hok.inv
  have hevolves : Evolves (hubAfter h events) (hubAfter h (events ++ more)) := by
    have := evolves_run (holds h) hok hmore
    rwa [← Pool.run_append] at this
  have hinvMore : Inv h (hubAfter h (events ++ more)) := (ok_run (holds h)
    (ok_idle (inv_initial h)) hfresh).inv
  refine ⟨fun id row hrow => ?_, fun id row hrow => (hinv.rows id row hrow).published,
    fun r hr => ⟨(hinv.references r hr).row, hevolves.references r hr, ?_,
      fun r' hr' => hinv.distinct r hr r' hr'⟩,
    fun id row hrow hended => ?_, hinv.active⟩
  · have hrowOk := hinv.rows id row hrow
    refine ⟨hrowOk.consecutive, hrowOk.length, fun content hcontent => ?_, hrowOk.present⟩
    rw [← hrowOk.length]
    exact (List.prefix_iff_eq_take.mp (hrowOk.file content hcontent)).symm
  · obtain ⟨row, hrow, hcomplete, -⟩ := (hinv.references r hr).row
    obtain ⟨-, -, -, hcommitted⟩ := hevolves.row r.upload row hrow
    rw [(hinvMore.references r (hevolves.references r hr)).blob, World.received,
      hcommitted (by rw [hcomplete]; rfl), World.received]
  · obtain ⟨row', hrow', hgoes, hcommitted⟩ := hevolves.row id row hrow
    obtain ⟨hended', hreceived⟩ := hgoes.ended hended
    obtain ⟨hcomplete, hresult⟩ := hgoes.complete hended
    exact ⟨row', hrow', hended', hreceived, hcommitted hended, hcomplete, hresult⟩

/-! ### A run -/

/-- Whether a call of the event may read a row as it was. -/
def HubEvent.isStale : HubEvent → Bool
  | .next _ .snapshot => true
  | _ => false

/-- A run without such events reads all rows as they are. -/
theorem fairRun_of_not_isStale (h : ContentHash) {events : List HubEvent}
    {s : Pool Caller Call Answer World Unit}
    (hevents : events.all fun e => !HubEvent.isStale e) :
    FairRun (surroundings h) Fresh serve s events := by
  induction events generalizing s with
  | nil => trivial
  | cons e events ih =>
    rw [List.all_cons, Bool.and_eq_true] at hevents
    refine ⟨?_, ih hevents.2⟩
    cases e with
    | next i o =>
      rintro c next - id seen - rfl
      cases hevents.1
    | _ => trivial

/-- Contents that are their own digests. -/
def textHash : ContentHash where
  digest := fun content => String.ofList (content.map Char.ofUInt8)
  injective := by
    intro a b hab
    refine List.map_injective_iff.mpr (fun x y hxy => ?_) (String.ofList_injective hab)
    exact UInt8.toNat_inj.mp (congrArg Char.toNat hxy)

/-- The owner of the session below. -/
def owner : Owner where
  projectId := "project"
  package := "package"
  keyId := "key"
  userId := "user"
  resource := "resource"

/-- The request goes on for so many calls. -/
def goesOn (caller : Caller) (calls : ℕ) : List HubEvent :=
  List.replicate calls (.next caller .done)

/-- A session is started, a byte is appended, and the session is finalized. Meanwhile another
session is started for the same root, which finds the first one expired just before its
finalization extends it. -/
def finished : List HubEvent :=
  .start 0 (.start owner ⟨1, "a", .version "root"⟩ 8) :: goesOn 0 12 ++
  .start 1 (.append owner 0 0 [[97]]) :: goesOn 1 14 ++
  .drift (.tick (idleTime - 1)) :: .start 2 (.finalize owner 0 8) :: goesOn 2 7 ++
  .drift (.tick 1) :: .start 3 (.start owner ⟨1, "b", .version "root"⟩ 8) :: goesOn 3 4 ++
  goesOn 2 11 ++ .next 2 (.receipt "receipt") :: goesOn 2 3

/-- The other session goes on, and brings another archive for the root. -/
def repushed : List HubEvent :=
  goesOn 3 12 ++ .start 4 (.append owner 1 0 [[98]]) :: goesOn 4 14 ++
  .start 5 (.finalize owner 1 8) :: goesOn 5 18 ++ .next 5 (.receipt "again") :: goesOn 5 3

theorem uploads_safe_finished :
    (∃ row, (hubAfter textHash finished).row 0 = some row ∧ row.status = .complete ∧
      (hubAfter textHash finished).published 0 = some [97]) ∧
    -- The second push is complete as well. The version keeps its archive, and the other is gone.
    ((hubAfter textHash (finished ++ repushed)).row 1).map PackageUpload.status = some .complete ∧
    (∃ r ∈ (hubAfter textHash (finished ++ repushed)).references, r.upload = 0 ∧
      (hubAfter textHash (finished ++ repushed)).blob r.archiveDigest = some [97]) ∧
    (hubAfter textHash (finished ++ repushed)).blob "b" = none := by
  have hsafe := uploads_safe textHash finished repushed
    (fairRun_of_not_isStale textHash (by decide))
  have hreceived : (hubAfter textHash finished).received 0 = [97] := by decide
  refine ⟨?_, by decide +kernel, ?_, by decide +kernel⟩
  · have hstatus : ((hubAfter textHash finished).row 0).map PackageUpload.status =
        some .complete := by decide
    obtain ⟨row, hrow, hcomplete⟩ := Option.map_eq_some_iff.mp hstatus
    obtain ⟨⟨hpublished, -⟩, -⟩ := hsafe.2.1 0 row hrow hcomplete
    exact ⟨row, hrow, hcomplete, hreceived ▸ hpublished⟩
  · have hreferences : (hubAfter textHash finished).references.map Reference.upload = [0] := by
      decide
    obtain ⟨r, hr, hupload⟩ := List.mem_map.mp (hreferences ▸ List.mem_cons_self :
      0 ∈ (hubAfter textHash finished).references.map Reference.upload)
    obtain ⟨-, hlasts, hblob, -⟩ := hsafe.2.2.1 r hr
    refine ⟨r, hlasts, hupload, ?_⟩
    rw [hblob, hupload, hreceived]

/-- The other session goes on, and reads the row of the first one as it was. -/
def overwritten : List HubEvent := .next 3 .done :: .next 3 .snapshot :: goesOn 3 5

/-- **A session that is complete does not stay so** where a row is read as it was. -/
theorem expiry_overwrites_complete :
    ¬∀ (h : ContentHash) (events more : List HubEvent) (id : UploadId) (row : PackageUpload),
      (hubAfter h events).row id = some row → row.status = .complete →
        ∃ row', (hubAfter h (events ++ more)).row id = some row' ∧ row'.status = .complete := by
  intro hstays
  have hbefore : ((hubAfter textHash finished).row 0).map PackageUpload.status =
      some .complete := by decide
  have hafter : ((hubAfter textHash (finished ++ overwritten)).row 0).map PackageUpload.status =
      some .failed := by decide
  obtain ⟨row, hrow, hcomplete⟩ := Option.map_eq_some_iff.mp hbefore
  obtain ⟨row', hrow', hcomplete'⟩ := hstays textHash finished overwritten 0 row hrow hcomplete
  rw [hrow', Option.map_some, hcomplete'] at hafter
  cases hafter

end Palimpsest.Hub.Upload
