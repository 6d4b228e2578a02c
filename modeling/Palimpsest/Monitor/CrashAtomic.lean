import Mathlib.Data.List.Induction
import Palimpsest.Lib.Throughout
import Palimpsest.Monitor.Publication

/-!
# Publications killed one after the other

Processes publish over the ledger that earlier ones left, each of them killed at some step or
not. A reader finds the journal that was there or the new one
(`Palimpsest.Monitor.crashAtomic`), unless the first publication is killed between the two
calls that name the journal: then no reader accepts the journal, and no later process publishes
over it.
-/

namespace Palimpsest.Monitor

open Ledger

section

variable {S K : Type} {L : Ledger S K} {euid : ℕ}
  {d t : Directory} {lock i : ℕ} {temporary : String} {content : List UInt8} {o : Option S}

/-! ### Temporary names -/

theorem getLast_temporary (L : Ledger S K) (token : String) :
    (L.temporary token).toList.getLast? = some 'p' := by
  simp [Ledger.temporary, String.toList_append]

theorem temporary_ne_lockName (L : Ledger S K) (token : String) : L.temporary token ≠ lockName := by
  intro h
  have hlast := getLast_temporary L token
  rw [h] at hlast
  revert hlast
  decide

theorem temporary_ne_journalName (L : Ledger S K) (token : String) :
    L.temporary token ≠ journalName := by
  intro h
  have hlast := getLast_temporary L token
  rw [h] at hlast
  revert hlast
  decide

/-! ### Opening the lock -/

theorem Usable.find_lock (h : Usable L euid o d) (hi : d.find lockName = some i) :
    lockIsValid euid i d := by
  rcases h.lock_ok with hnone | ⟨j, hj⟩
  · rw [hi] at hnone
    cases hnone
  · obtain ⟨f, hlook, -⟩ := look_lock hj
    obtain rfl := Option.some.inj (hi.symm.trans (Directory.find_of_look hlook).1)
    exact hj

theorem Usable.create_lock (h : Usable L euid o d)
    (ht : d.create lockName privateMode euid = some t) : Stands L euid d.next o t := by
  refine ⟨h.wellFormed.create ht, ?_, h.journal.of_look ?_⟩
  · refine lockIsValid_of_look (f := privateFile euid []) ?_ (isPrivate_privateFile _)
    exact Directory.look_create_self h.wellFormed ht
  · exact Directory.look_create_of_ne h.wellFormed ht (by decide)

/-- What the lock being held leaves as it was. -/
structure Held (L : Ledger S K) (euid : ℕ) (d : Directory) (o : Option S) (t : Directory) :
    Prop where
  stands : Stands L euid (Attempt.lock d) o t
  next : t.next = Attempt.file d
  find : ∀ name, name ≠ lockName → t.find name = d.find name
  journal : t.look journalName = d.look journalName

theorem openLock_found (hi : d.find lockName = some i) :
    openLock euid d i = [check (lockIsValid euid i) .invalidJournal, sync] := by
  rw [openLock, hi]
  rfl

theorem openLock_none (hi : d.find lockName = none) :
    openLock euid d d.next =
      [call (fun d => d.create lockName privateMode euid) .invalidJournal,
        call (fun e => some (e.chmod d.next privateMode)) .invalidJournal,
        check (lockIsValid euid d.next) .invalidJournal, sync] := by
  rw [openLock, hi]
  rfl

/-- The lock is there, or made. -/
theorem runs_openLock (h : Usable L euid o d) :
    Runs (openLock euid d (Attempt.lock d)) d (Usable L euid o) (Held L euid d o) ∧
      Completes (openLock euid d (Attempt.lock d)) d := by
  cases hi : d.find lockName with
  | some i =>
    have hlock : Attempt.lock d = i := by rw [Attempt.lock, hi]; rfl
    have hvalid := h.find_lock hi
    have hheld : Held L euid d o d :=
      ⟨⟨h.wellFormed, by rwa [hlock], h.journal⟩, by rw [Attempt.file, hi]; rfl,
        fun _ _ => rfl, rfl⟩
    rw [hlock, openLock_found hi]
    refine ⟨.cons h fun t ht => ?_, .cons (check_eq_ok.mpr ⟨hvalid, rfl⟩) (.cons rfl ⟨d, rfl⟩)⟩
    obtain ⟨-, rfl⟩ := check_eq_ok.mp ht
    refine .cons h fun t ht => ?_
    obtain rfl := Except.ok.inj ht
    exact .nil h hheld
  | none =>
    have hlock : Attempt.lock d = d.next := by rw [Attempt.lock, hi]; rfl
    rw [hlock, openLock_none hi]
    obtain ⟨t, ht⟩ := Option.isSome_iff_exists.mp
      (Directory.isSome_create (m := privateMode) (u := euid) |>.mpr hi)
    have hstands := h.create_lock ht
    -- The lock is made with the mode that it is then given, so that call changes nothing.
    have hsame : t.chmod d.next privateMode = t := by
      obtain ⟨-, hinode, -⟩ := Directory.find_of_look (Directory.look_create_self h.wellFormed ht)
      exact Directory.chmod_eq_self (by rw [hinode])
    have hheld : Held L euid d o t := by
      refine ⟨by rwa [hlock], ?_, fun name hne => Directory.find_create_of_ne ht hne,
        Directory.look_create_of_ne h.wellFormed ht (by decide)⟩
      rw [Directory.next_create ht, Attempt.file, hi]
      rfl
    refine ⟨.cons h fun t' ht' => ?_, .cons (call_eq_ok.mpr ht) (.cons (t := t) ?_ (.cons
      (check_eq_ok.mpr ⟨hstands.lock_ok, rfl⟩) (.cons rfl ⟨t, rfl⟩)))⟩
    · obtain rfl : t = t' := by rw [call_eq_ok, ht] at ht'; exact Option.some.inj ht'
      refine .cons hstands.usable fun t' ht' => ?_
      obtain rfl : t = t' := hsame.symm.trans (of_call_some ht')
      refine .cons hstands.usable fun t' ht' => ?_
      obtain ⟨-, rfl⟩ := check_eq_ok.mp ht'
      refine .cons hstands.usable fun t' ht' => ?_
      obtain rfl := Except.ok.inj ht'
      exact .nil hstands.usable hheld
    · rw [call, hsame]

/-! ### Up to the call that names the journal -/

/-- The answers of the `write` calls come to so many bytes before one of them is zero. -/
def AllWritten : List ℕ → ℕ → Prop
  | [], _ => True
  | count :: counts, n => n = 0 ∨ count ≠ 0 ∧ AllWritten counts (n - count)

theorem completes_writeAll (counts : List ℕ) (content : List UInt8) (d : Directory) :
    Completes (writeAll i counts content) d ↔ AllWritten counts content.length := by
  induction counts generalizing content d with
  | nil =>
    rw [writeAll]
    split
    · exact iff_of_true (completes_nil d) trivial
    · exact iff_of_true (.cons rfl (completes_nil _)) trivial
  | cons count counts ih =>
    rw [writeAll, AllWritten, List.length_eq_zero_iff]
    split
    · next hnil => exact iff_of_true (completes_nil d) (.inl hnil)
    next hne =>
    split
    · next hzero =>
      refine iff_of_false (fun h => ?_) fun h => h.elim hne fun h => h.1 hzero
      obtain ⟨t, ht, -⟩ := completes_cons_iff.mp h
      cases ht
    · next hzero =>
      rw [completes_cons_iff]
      simp only [call, Except.ok.injEq, exists_eq_left', ih, List.length_drop, hne, hzero,
        ne_eq, not_false_eq_true, true_and, false_or]

/-- The temporary file is written unless its name is taken or a `write` answers zero. -/
theorem completes_prepare (hd : Stands L euid lock o d) (hlock : temporary ≠ lockName)
    (hjournal : temporary ≠ journalName) (counts : List ℕ) (content : List UInt8) :
    Completes (prepare euid temporary lock d.next content counts) d ↔
      d.find temporary = none ∧ AllWritten counts content.length := by
  rw [prepare, List.append_assoc]
  simp only [List.cons_append, List.nil_append]
  rw [completes_cons_iff]
  constructor
  · rintro ⟨t, ht, h⟩
    rw [call_eq_ok] at ht
    refine ⟨Directory.isSome_create.mp (by rw [ht]; rfl), ?_⟩
    obtain ⟨u, -, hu⟩ := completes_cons_iff.mp h
    obtain ⟨r, -, hr⟩ := completes_cons_iff.mp hu
    obtain ⟨r', hr', -⟩ := completes_append_iff.mp hr
    exact (completes_writeAll counts content r).mp ⟨r', hr'⟩
  · rintro ⟨hfree, hwritten⟩
    obtain ⟨t, ht⟩ := Option.isSome_iff_exists.mp
      (Directory.isSome_create (m := privateMode) (u := euid) |>.mpr hfree)
    have hnew := (Written.create hd hlock hjournal ht).chmod privateMode
    refine ⟨t, call_eq_ok.mpr ht, .cons rfl (.cons (check_eq_ok.mpr ⟨?_, rfl⟩) ?_)⟩
    · rw [temporaryIsValid, hnew.temporary_look]
      simp [isPrivate]
    · refine .append ((completes_writeAll ..).mpr hwritten) fun r hr => ?_
      have hall := (runs_writeAll hd counts content hnew).done r hr
      rw [List.nil_append] at hall
      obtain ⟨-, hinode, -⟩ := Directory.find_of_look hall.temporary_look
      refine .cons rfl (.cons (check_eq_ok.mpr ⟨by rw [hinode]; simp, rfl⟩)
        (.cons (check_eq_ok.mpr ⟨(hall.stands hd).lock_ok, rfl⟩) (completes_nil r)))

section

variable [DecidableEq K]

theorem read_congr (h : t.look journalName = d.look journalName) (expected : Option K)
    (missingOk : Bool) : L.read euid expected missingOk t = L.read euid expected missingOk d := by
  rw [Ledger.read, Ledger.read, h]

/-- The journal under the lock is the one that is there. -/
theorem Holds.previous (h : Holds L euid d o) :
    L.read euid none true d = .ok (Attempt.previous L euid d) ∧
      (Attempt.previous L euid d).map Prod.fst = o ∧
      ∀ q ∈ Attempt.previous L euid d,
        L.read euid (some (L.key q.1)) false d = .ok (some q) := by
  cases o with
  | none =>
    have hread := h.read_none (x := none)
    rw [Attempt.previous, hread]
    exact ⟨rfl, rfl, fun q hq => by cases hq⟩
  | some s =>
    obtain ⟨content, hfits, hread⟩ := h.read_some (x := none) (fun k hk => by cases hk) true
    obtain ⟨content', hfits', hread'⟩ := h.read_some (x := some (L.key s))
      (fun k hk => Option.some.inj hk) false
    obtain rfl := Option.some.inj (hfits.1.symm.trans hfits'.1)
    rw [Attempt.previous, hread]
    refine ⟨rfl, rfl, fun q hq => ?_⟩
    obtain rfl := Option.some.inj hq
    exact hread'

/-- An answer of the read path is the journal, and it has the key that was insisted on. -/
theorem Holds.of_read (h : Holds L euid d o) {expected : Option K} {missingOk : Bool}
    {q : Option (S × List UInt8)} (hread : L.read euid expected missingOk d = .ok q) :
    q.map Prod.fst = o ∧ ∀ p ∈ q, ∀ k ∈ expected, L.key p.1 = k := by
  cases o with
  | none =>
    rw [Ledger.read, show d.look journalName = none from h] at hread
    dsimp only at hread
    split at hread
    · obtain rfl := Except.ok.inj hread
      exact ⟨rfl, fun p hp => by cases hp⟩
    · cases hread
  | some s =>
    obtain ⟨i, content, hfits, hlook⟩ := h
    rw [Ledger.read, hlook] at hread
    dsimp only at hread
    split at hread
    · rw [show L.decode (privateFile euid content).content = some s from
        L.decode_encode s content hfits.1] at hread
      dsimp only at hread
      split at hread
      · next hkey =>
        obtain rfl := Except.ok.inj hread
        refine ⟨rfl, fun p hp => ?_⟩
        obtain rfl := Option.some.inj hp
        exact hkey
      · cases hread
    · cases hread

variable [DecidableEq S]

/-- The new file is written, and the journal is the one that was there. -/
structure Prepared (L : Ledger S K) (euid lock : ℕ) (o : Option S) (temporary : String) (s : S)
    (t : Directory) : Prop where
  stands : Stands L euid lock o t
  written : ∃ d i content, L.encode s = some content ∧ Stands L euid lock o d ∧
    Written euid d temporary i privateMode content t

theorem runs_ready (hd : Stands L euid lock o d) (hlock : temporary ≠ lockName)
    (hjournal : temporary ≠ journalName) (previous : Option (S × List UInt8)) (s : S)
    (counts : List ℕ) :
    Runs (L.ready euid temporary lock d.next previous s counts) d (Stands L euid lock o)
      (Prepared L euid lock o temporary s) := by
  rw [Ledger.ready.eq_def]
  refine .cons hd fun t ht => ?_
  obtain ⟨-, rfl⟩ := check_eq_ok.mp ht
  refine .append (R := (· = d)) ?_ fun t ht => ?_
  · cases previous with
    | none => exact .nil hd rfl
    | some q =>
      refine .cons hd fun t ht => ?_
      obtain ⟨-, rfl⟩ := check_eq_ok.mp ht
      refine .cons hd fun t ht => ?_
      obtain ⟨-, rfl⟩ := check_eq_ok.mp ht
      exact .nil hd rfl
  · subst ht
    cases hs : L.encode s with
    | none => exact .cons hd fun t ht => by cases ht
    | some content =>
      exact (runs_prepare hd hlock hjournal counts content).imp (fun _ h => h) fun r hr =>
        ⟨hr.stands hd, t, t.next, content, hs, hd, hr⟩

theorem completes_ready (hd : Stands L euid lock o d) (hlock : temporary ≠ lockName)
    (hjournal : temporary ≠ journalName) {previous : Option (S × List UInt8)}
    (hprevious : ∀ q ∈ previous, L.read euid (some (L.key q.1)) false d = .ok (some q)) {s : S}
    (hs : L.encode s = some content) (counts : List ℕ) :
    Completes (L.ready euid temporary lock d.next previous s counts) d ↔
      d.find temporary = none ∧ AllWritten counts content.length := by
  rw [← completes_prepare hd hlock hjournal, Ledger.ready.eq_def, hs]
  have hvalid : check (lockIsValid euid lock) .invalidJournal d = .ok d :=
    check_eq_ok.mpr ⟨hd.lock_ok, rfl⟩
  cases previous with
  | none =>
    simp only [completes_cons_iff, hvalid, Except.ok.injEq, exists_eq_left', List.nil_append]
  | some q =>
    have hread : check (fun d => L.read euid (some (L.key q.1)) false d = .ok (some (q.1, q.2)))
        .invalidJournal d = .ok d := check_eq_ok.mpr ⟨by simpa using hprevious q rfl, rfl⟩
    simp only [completes_cons_iff, hvalid, hread, Except.ok.injEq, exists_eq_left',
      List.cons_append, List.nil_append]

theorem runs_before (h : Usable L euid o d) (a : Attempt S) :
    Runs (a.before L euid d) d (Usable L euid o)
      (Prepared L euid (Attempt.lock d) o (L.temporary a.token) a.snapshot) := by
  rw [Attempt.before]
  refine .append (runs_openLock h).1 fun t ht => ?_
  refine .cons ht.stands.usable fun t' ht' => ?_
  obtain ⟨-, rfl⟩ := check_eq_ok.mp ht'
  rw [← ht.next]
  exact (runs_ready ht.stands (temporary_ne_lockName L _) (temporary_ne_journalName L _) ..).imp
    (fun _ h => h.usable) fun _ h => h

/-- A process comes to the call that names the journal, unless its temporary name is taken or
a `write` answers zero. -/
theorem completes_before (h : Usable L euid o d) (a : Attempt S)
    (hs : L.encode a.snapshot = some content) :
    Completes (a.before L euid d) d ↔
      d.find (L.temporary a.token) = none ∧ AllWritten a.counts content.length := by
  obtain ⟨hruns, t, ht⟩ := runs_openLock h
  have hheld := hruns.done t ht
  obtain ⟨hread, -, hprevious⟩ := h.journal.previous
  have hcheck : check (fun e => lockIsValid euid (Attempt.lock d) e ∧
      (L.read euid none true e).isOk) .invalidJournal t = .ok t := by
    refine check_eq_ok.mpr ⟨?_, rfl⟩
    rw [read_congr hheld.journal, hread]
    simpa [Except.isOk, Except.toBool] using hheld.stands.lock_ok
  rw [Attempt.before, Completes, exec_append ht, exec_cons_ok hcheck, ← hheld.next,
    ← hheld.find _ (temporary_ne_lockName L _)]
  refine completes_ready hheld.stands (temporary_ne_lockName L _) (temporary_ne_journalName L _)
    (fun q hq => ?_) hs a.counts
  rw [read_congr hheld.journal]
  exact hprevious q hq

/-! ### Naming the journal -/

omit [DecidableEq K] [DecidableEq S] in
/-- The first journal: the link and the removal of the temporary name are made. -/
theorem Prepared.first {s : S} (h : Prepared L euid lock none temporary s t) :
    ∃ u r content, L.encode s = some content ∧ t.link temporary journalName = some u ∧
      Linked euid lock temporary content u ∧ u.unlink temporary = some r := by
  obtain ⟨d, i, content, hs, hd, hwritten⟩ := h.written
  obtain ⟨hfind, -, -⟩ := Directory.find_of_look hwritten.temporary_look
  have hu := Directory.link_eq_some hfind (Directory.look_eq_none.mp h.stands.journal)
  have hlinked := hwritten.link hd hu
  obtain ⟨j, -, -, hlook⟩ := hlinked.look
  obtain ⟨r, hr⟩ := Option.isSome_iff_exists.mp
    (Directory.isSome_unlink.mpr (by rw [(Directory.find_of_look hlook).1]; rfl))
  exact ⟨_, r, content, hs, hu, hlinked, hr⟩

omit [DecidableEq K] [DecidableEq S] in
/-- A further journal: the rename is made. -/
theorem Prepared.next {r s : S} (h : Prepared L euid lock (some r) temporary s t)
    (hfits : L.Fits s content) :
    ∃ u, t.replace temporary journalName = some u ∧ Stands L euid lock (some s) u := by
  obtain ⟨d, i, content', hs, hd, hwritten⟩ := h.written
  obtain rfl := Option.some.inj (hfits.1.symm.trans hs)
  obtain ⟨hfind, -, -⟩ := Directory.find_of_look hwritten.temporary_look
  obtain ⟨u, hu⟩ := Option.isSome_iff_exists.mp
    ((Directory.isSome_replace journalName).mpr (by rw [hfind]; rfl))
  exact ⟨u, hu, hwritten.replace hd hfits hu⟩

/-- What reading the new journal back leaves. -/
theorem runs_confirm (s : S) :
    Runs (L.confirm euid lock s) d (· = d) (· = d) := by
  rw [Ledger.confirm]
  refine .cons rfl fun t ht => ?_
  obtain rfl := Except.ok.inj ht
  refine .append (R := (· = d)) ?_ fun t ht => ?_
  · split
    · refine .cons rfl fun t ht => ?_
      obtain ⟨-, rfl⟩ := check_eq_ok.mp ht
      exact .nil rfl rfl
    · exact .nil rfl rfl
  · subst ht
    refine .cons rfl fun r hr => ?_
    obtain ⟨-, rfl⟩ := check_eq_ok.mp hr
    exact .nil rfl rfl

/-- The new journal is read back. -/
theorem completes_confirm {s : S} (h : Stands L euid lock (some s) d) :
    Completes (L.confirm euid lock s) d := by
  obtain ⟨content, hfits, hread⟩ := h.journal.read_some (x := some (L.key s))
    (fun k hk => Option.some.inj hk) false
  rw [Ledger.confirm]
  refine .cons rfl (.append ?_ fun t ht => ?_)
  · split
    · exact .cons (check_eq_ok.mpr ⟨h.lock_ok, rfl⟩) (completes_nil d)
    · exact completes_nil d
  · have hsame : t = d := by
      split at ht
      · rw [exec_cons_ok (check_eq_ok.mpr ⟨h.lock_ok, rfl⟩)] at ht
        exact (Prod.mk.inj ht).1.symm
      · exact (Prod.mk.inj ht).1.symm
    subst hsame
    refine .cons (check_eq_ok.mpr ⟨?_, rfl⟩) (completes_nil t)
    rw [hfits.1, hread]
    exact decide_eq_true rfl

/-! ### What an attempt leaves -/

/-- Killed between the two calls that name the first journal: the temporary name was free and
its file written, there was no journal, and of the steps after these the link alone is made. -/
structure Attempt.KilledNaming (L : Ledger S K) (euid : ℕ) (d : Directory) (a : Attempt S) :
    Prop where
  first : d.find journalName = none
  free : d.find (L.temporary a.token) = none
  written : ∀ content ∈ L.encode a.snapshot, AllWritten a.counts content.length
  kill : a.kill = some ((a.before L euid d).length + 1)

omit [DecidableEq K] [DecidableEq S] in
/-- What is left of a file that is taken away again. -/
theorem Usable.cleanup (h : Usable L euid o t) (hlock : temporary ≠ lockName)
    (hjournal : temporary ≠ journalName) (i : ℕ) : Usable L euid o (cleanup temporary i t) := by
  rw [Ledger.cleanup]
  split
  · next j f links hlook =>
    split
    · obtain ⟨hfind, -, -⟩ := Directory.find_of_look hlook
      obtain ⟨u, hu⟩ := Option.isSome_iff_exists.mp
        (Directory.isSome_unlink.mpr (by rw [hfind]; rfl))
      rw [hu, Option.getD_some]
      -- a file with one name is not the one that loses a name
      have hkept : ∀ {name k g}, name ≠ temporary → t.look name = some (k, g, 1) →
          u.look name = some (k, g, 1) := by
        intro name k g hne hname
        obtain ⟨hk, -, hone⟩ := Directory.find_of_look hname
        have hother := h.wellFormed.ne_of_links hk hfind hne hone
        rw [Directory.look_unlink_of_ne h.wellFormed hfind hu hne, hname]
        simp [hother.symm]
      have hnone : ∀ {name}, name ≠ temporary → t.find name = none → u.find name = none := by
        intro name hne hname
        rw [← Directory.look_eq_none, Directory.look_unlink_of_ne h.wellFormed hfind hu hne,
          Directory.look_eq_none.mpr hname]
        rfl
      refine ⟨h.wellFormed.unlink hu, ?_, ?_⟩
      · rcases h.lock_ok with hl | ⟨lock, hl⟩
        · exact .inl (hnone hlock.symm hl)
        · obtain ⟨g, hg, hprivate⟩ := look_lock hl
          exact .inr ⟨lock, lockIsValid_of_look (hkept hlock.symm hg) hprivate⟩
      · have hj := h.journal
        cases o with
        | none =>
          exact Directory.look_eq_none.mpr (hnone hjournal.symm (Directory.look_eq_none.mp hj))
        | some s =>
          obtain ⟨k, content, hfits, hlookj⟩ := hj
          exact ⟨k, content, hfits, hkept hjournal.symm hlookj⟩
    · exact h
  · exact h

/-- The calls that name the journal and the reading back. -/
theorem exec_naming {s : S} (h : Prepared L euid lock o temporary s t) (hfits : L.Fits s content) :
    ∃ r, Stands L euid lock (some s) r ∧
      exec (naming temporary o.isNone ++ L.confirm euid lock s) t = (r, none) ∧
      (o = none → Linked euid lock temporary content
        (killed (naming temporary o.isNone ++ L.confirm euid lock s) 1 t)) ∧
      ∀ k, (o = none → 0 < k) →
        killed (naming temporary o.isNone ++ L.confirm euid lock s) (k + 1) t = r := by
  have hconfirm : ∀ {r}, Stands L euid lock (some s) r →
      exec (L.confirm euid lock s) r = (r, none) ∧
        ∀ k, killed (L.confirm euid lock s) k r = r := by
    intro r hr
    obtain ⟨r', hr'⟩ := completes_confirm hr
    obtain rfl := (runs_confirm s).done r' hr'
    exact ⟨hr', (runs_confirm s).killed⟩
  -- The first publication links the file and then removes its other name; a later one replaces.
  cases o with
  | none =>
    obtain ⟨u, r, content', hs, hu, hlinked, hr⟩ := h.first
    obtain rfl := Option.some.inj (hfits.1.symm.trans hs)
    have hstands := hlinked.unlink hfits hr
    obtain ⟨hexec, hkilled⟩ := hconfirm hstands
    have hlink : call (fun d => d.link temporary journalName) .invalidJournal t = .ok u :=
      call_eq_ok.mpr hu
    have hunlink : call (fun d => d.unlink temporary) .journalIo u = .ok r := call_eq_ok.mpr hr
    have hnaming : naming temporary (none : Option S).isNone =
        [call (fun d => d.link temporary journalName) .invalidJournal,
          call (fun d => d.unlink temporary) .journalIo] := rfl
    refine ⟨r, hstands, ?_, fun _ => ?_, fun k hk => ?_⟩
    · exact (exec_cons_ok hlink).trans ((exec_cons_ok hunlink).trans hexec)
    · rw [hnaming, killed, List.cons_append, List.take_succ_cons, exec_cons_ok hlink]
      exact hlinked
    · obtain ⟨k, rfl⟩ := Nat.exists_eq_add_of_lt (hk rfl)
      rw [hnaming, killed, List.cons_append, List.cons_append, List.take_succ_cons,
        List.take_succ_cons, exec_cons_ok hlink, exec_cons_ok hunlink]
      exact hkilled _
  | some q =>
    obtain ⟨r, hr, hstands⟩ := h.next hfits
    obtain ⟨hexec, hkilled⟩ := hconfirm hstands
    have hreplace : call (fun d => d.replace temporary journalName) .journalIo t = .ok r :=
      call_eq_ok.mpr hr
    refine ⟨r, hstands, (exec_cons_ok hreplace).trans hexec, ?_, fun k _ => ?_⟩
    · intro hnone
      cases hnone
    rw [show naming temporary (some q).isNone =
        [call (fun d => d.replace temporary journalName) .journalIo] from rfl,
      killed, List.cons_append, List.take_succ_cons, exec_cons_ok hreplace]
    exact hkilled k

omit [DecidableEq S] in
theorem Usable.isNone_previous (h : Usable L euid o d) :
    (Attempt.previous L euid d).isNone = o.isNone := by
  obtain ⟨-, ho, -⟩ := h.journal.previous
  rw [← ho, Option.isNone_map]

omit [DecidableEq K] [DecidableEq S] in
theorem Usable.find_journal (h : Usable L euid o d) : d.find journalName = none ↔ o = none := by
  have hj := h.journal
  cases o with
  | none => exact iff_of_true (Directory.look_eq_none.mp hj) rfl
  | some s =>
    obtain ⟨k, bytes, -, hlook⟩ := hj
    rw [(Directory.find_of_look hlook).1]
    simp

/-- An attempt that raises before it names the journal. -/
theorem Usable.leaves_raised (h : Usable L euid o d) (a : Attempt S) {e : Category}
    (hexec : exec (a.before L euid d) d = (t, some e)) :
    Usable L euid o (a.leaves L euid d) ∧ ¬a.published L euid d := by
  have hraised : exec (a.steps L euid d) d = (t, some e) := exec_append_error hexec
  have hruns := runs_before h a
  have ht : Usable L euid o t := by
    have := hruns.killed (a.before L euid d).length
    rwa [killed_of_length_le (Nat.le_refl _), hexec] at this
  refine ⟨?_, fun hp => ?_⟩
  · rw [Attempt.leaves]
    cases a.kill with
    | some k =>
      dsimp only
      rw [Attempt.steps]
      rcases Nat.le_total k (a.before L euid d).length with hk | hk
      · rw [killed_append_of_le hk]
        exact hruns.killed k
      · rw [killed_append_error hexec hk]
        exact ht
    | none =>
      dsimp only
      rw [hraised]
      exact ht.cleanup (temporary_ne_lockName L _) (temporary_ne_journalName L _) _
  · rw [Attempt.published, hraised] at hp
    cases hp.2

/-- An attempt that comes to the call that names the journal. -/
theorem Usable.leaves_prepared (h : Usable L euid o d) (a : Attempt S)
    (hfits : L.Fits a.snapshot content) (hexec : exec (a.before L euid d) d = (t, none)) :
    (o = none → a.kill = some ((a.before L euid d).length + 1) →
      Linked euid (Attempt.lock d) (L.temporary a.token) content (a.leaves L euid d)) ∧
    ((o = none → a.kill ≠ some ((a.before L euid d).length + 1)) →
      Usable L euid (some a.snapshot) (a.leaves L euid d) ∨
        Usable L euid o (a.leaves L euid d) ∧ ¬a.published L euid d) := by
  have hruns := runs_before h a
  obtain ⟨r, hstands, hrest, hlinked, hkilled⟩ := exec_naming (hruns.done t hexec) hfits
  have hsteps : a.steps L euid d = a.before L euid d ++
      (naming (L.temporary a.token) o.isNone ++ L.confirm euid (Attempt.lock d) a.snapshot) := by
    rw [Attempt.steps, h.isNone_previous]
  constructor
  · intro ho hkill
    rw [Attempt.leaves, hkill]
    dsimp only
    rw [hsteps, killed_append hexec]
    exact hlinked ho
  · intro hspared
    rw [Attempt.leaves, Attempt.published]
    cases hkill : a.kill with
    | none =>
      dsimp only
      rw [hsteps, exec_append hexec, hrest]
      exact .inl hstands.usable
    | some k =>
      dsimp only
      -- Killed behind the naming of the journal, or before it.
      rcases Nat.lt_or_ge (a.before L euid d).length k with hk | hk
      · obtain ⟨j, rfl⟩ := Nat.exists_eq_add_of_lt hk
        rw [hsteps, Nat.add_assoc, killed_append hexec, hkilled j]
        · exact .inl hstands.usable
        · intro ho
          refine Nat.pos_of_ne_zero fun hj => hspared ho ?_
          rw [hkill, hj, Nat.add_zero]
      · rw [Attempt.steps, killed_append_of_le hk]
        exact .inr ⟨hruns.killed k, fun hp => by cases hp.1⟩

/-- **An attempt leaves the journal that was there or the new one**, and the new one if it
came to its end; the exception is an attempt killed while it named the first journal. -/
theorem Usable.leaves (h : Usable L euid o d) (a : Attempt S) (hfits : L.Fits a.snapshot content) :
    (a.KilledNaming L euid d →
      Linked euid (Attempt.lock d) (L.temporary a.token) content (a.leaves L euid d)) ∧
    (¬a.KilledNaming L euid d →
      Usable L euid (some a.snapshot) (a.leaves L euid d) ∨
        Usable L euid o (a.leaves L euid d) ∧ ¬a.published L euid d) := by
  have hcompletes := completes_before h a hfits.1
  cases hexec : exec (a.before L euid d) d with
  | mk t e =>
    cases e with
    | some e =>
      refine ⟨fun hk => ?_, fun _ => .inr (h.leaves_raised a hexec)⟩
      obtain ⟨r, hr⟩ := hcompletes.mpr ⟨hk.free, hk.written content hfits.1⟩
      rw [hexec] at hr
      cases (Prod.mk.inj hr).2
    | none =>
      obtain ⟨hlinked, hspared⟩ := h.leaves_prepared a hfits hexec
      obtain ⟨hfree, hwritten⟩ := hcompletes.mp ⟨t, hexec⟩
      refine ⟨fun hk => hlinked (h.find_journal.mp hk.first) hk.kill, fun hnot => hspared ?_⟩
      refine fun ho hkill => hnot ⟨h.find_journal.mpr ho, hfree, fun bytes hbytes => ?_, hkill⟩
      obtain rfl := Option.some.inj (hfits.1.symm.trans hbytes)
      exact hwritten

/-! ### Attempts one after the other -/

/-- What the read path answers, whatever of the journal the reader insists on and whether or
not the reader asks for one. -/
def Answers (L : Ledger S K) (euid : ℕ) (d : Directory) (o : Option (S × List UInt8)) : Prop :=
  ∀ expected missingOk, (∀ q ∈ o, ∀ k ∈ expected, L.key q.1 = k) →
    (o = none → missingOk = true) → L.read euid expected missingOk d = .ok o

/-- A process with a free temporary name that is not killed publishes. -/
def Publishable (L : Ledger S K) (euid : ℕ) (d : Directory) : Prop :=
  ∀ (a : Attempt S) (content : List UInt8), L.Fits a.snapshot content → a.kill = none →
    d.find (L.temporary a.token) = none → AllWritten a.counts content.length →
    a.published L euid d ∧ Answers L euid (a.leaves L euid d) (some (a.snapshot, content))

/-- The answer where the journal is that of the snapshot, if there is one. -/
def journalOf (L : Ledger S K) (o : Option S) : Option (S × List UInt8) :=
  o.bind fun s => (L.encode s).map fun content => (s, content)

/-- Readers find the journal that was there or the one of the attempt, the latter if the
attempt came to its end, and a later process can publish. -/
def Atomic (L : Ledger S K) (euid : ℕ) (d : Directory) (a : Attempt S) : Prop :=
  ∃ previous current, Answers L euid d previous ∧ Answers L euid (a.leaves L euid d) current ∧
    (current = previous ∧ ¬a.published L euid d ∨ current = journalOf L (some a.snapshot)) ∧
    Publishable L euid (a.leaves L euid d)

omit [DecidableEq K] [DecidableEq S] in
theorem journalOf_some {s : S} (hfits : L.Fits s content) :
    journalOf L (some s) = some (s, content) := by
  rw [journalOf, Option.bind_some, hfits.1]
  rfl

omit [DecidableEq S] in
theorem Usable.answers (h : Usable L euid o d) : Answers L euid d (journalOf L o) := by
  intro expected missingOk hkey hmissing
  cases o with
  | none =>
    rw [hmissing rfl]
    exact h.journal.read_none
  | some s =>
    obtain ⟨i, content, hfits, hlook⟩ := h.journal
    rw [journalOf_some hfits] at hkey ⊢
    obtain ⟨content', hfits', hread⟩ := h.journal.read_some (hkey (s, content) rfl) missingOk
    rwa [Option.some.inj (hfits.1.symm.trans hfits'.1)]

theorem Usable.publishable (h : Usable L euid o d) : Publishable L euid d := by
  intro a content hfits hkill hfree hwritten
  obtain ⟨t, hexec⟩ := (completes_before h a hfits.1).mpr ⟨hfree, hwritten⟩
  obtain ⟨r, hstands, hrest, -⟩ := exec_naming ((runs_before h a).done t hexec) hfits
  have hall : exec (a.steps L euid d) d = (r, none) := by
    rw [Attempt.steps, h.isNone_previous, exec_append hexec, hrest]
  have hleaves : a.leaves L euid d = r := by
    rw [Attempt.leaves, hkill]
    dsimp only
    rw [hall]
  refine ⟨⟨hkill, by rw [hall]⟩, ?_⟩
  rw [hleaves, ← journalOf_some hfits]
  exact hstands.usable.answers

/-- **An attempt is atomic unless it is killed while it names the first journal.** -/
theorem Usable.atomic_iff (h : Usable L euid o d) (a : Attempt S)
    (hfits : L.Fits a.snapshot content) : Atomic L euid d a ↔ ¬a.KilledNaming L euid d := by
  obtain ⟨hlinked, hspared⟩ := h.leaves a hfits
  constructor
  · rintro ⟨previous, current, -, hcurrent, -⟩ hk
    -- the reader that insists on the key of the journal it is to find
    have hread := hcurrent (current.map fun q => L.key q.1) true (fun q hq k hk => ?_) fun _ => rfl
    · rw [(hlinked hk).read] at hread
      cases hread
    · rw [hq] at hk
      exact Option.some.inj hk
  · intro hk
    rcases hspared hk with hnew | ⟨hold, hnot⟩
    · exact ⟨_, _, h.answers, hnew.answers, .inr rfl, hnew.publishable⟩
    · exact ⟨_, _, h.answers, hold.answers, .inl ⟨rfl, hnot⟩, hold.publishable⟩

/-- The ledger stays usable in a run of attempts none of which is killed while it names the
first journal. -/
theorem Usable.leavesAll (h : Usable L euid o d) {attempts : List (Attempt S)}
    (hfits : ∀ a ∈ attempts, ∃ content, L.Fits a.snapshot content)
    (hspared : Throughout (fun before a => ¬a.KilledNaming L euid (leavesAll L euid d before))
      attempts) :
    ∃ o', Usable L euid o' (leavesAll L euid d attempts) := by
  induction attempts using List.reverseRecOn with
  | nil => exact ⟨o, h⟩
  | append_singleton attempts a ih =>
    obtain ⟨hspared, hlast⟩ := throughout_concat.mp hspared
    obtain ⟨o', h'⟩ := ih (fun b hb => hfits b (List.mem_append_left _ hb)) hspared
    obtain ⟨content, ha⟩ := hfits a (List.mem_append_right _ List.mem_cons_self)
    rw [Monitor.leavesAll, List.foldl_append, List.foldl_cons, List.foldl_nil]
    rcases (h'.leaves a ha).2 hlast with hnew | ⟨hold, -⟩
    · exact ⟨_, hnew⟩
    · exact ⟨o', hold⟩

/-- **Publication is crash-atomic in every run of attempts none of which is killed while it
names the first journal**, and after such a run the next attempt is atomic exactly if it is not
killed there. -/
theorem Usable.throughout_atomic (h : Usable L euid o d) {attempts : List (Attempt S)}
    (hfits : ∀ a ∈ attempts, ∃ content, L.Fits a.snapshot content)
    (hspared : Throughout
      (fun before a => ¬a.KilledNaming L euid (Monitor.leavesAll L euid d before)) attempts) :
    Throughout (fun before a => Atomic L euid (Monitor.leavesAll L euid d before) a) attempts := by
  induction attempts using List.reverseRecOn with
  | nil => exact throughout_nil
  | append_singleton attempts a ih =>
    obtain ⟨hspared, hlast⟩ := throughout_concat.mp hspared
    have hfits' := fun b hb => hfits b (List.mem_append_left _ hb)
    obtain ⟨o', h'⟩ := h.leavesAll hfits' hspared
    obtain ⟨content, ha⟩ := hfits a (List.mem_append_right _ List.mem_cons_self)
    exact throughout_concat.mpr ⟨ih hfits' hspared, (h'.atomic_iff a ha).mpr hlast⟩

end

end

end Palimpsest.Monitor
