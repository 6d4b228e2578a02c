import Palimpsest.Monitor.Ledger

/-!
# A publication that is killed

Where a publication can be killed, the journal is the one that was there or the new one, with
one exception: the first journal is made by a link, and between the link and the removal of
the temporary name the journal has two names, which no reader accepts.
-/

namespace Palimpsest.Monitor

open Ledger

section

variable {S K : Type} {L : Ledger S K} {euid : ℕ}
  {d t : Directory} {lock i : ℕ} {temporary : String} {content : List UInt8}

/-! ### What stands in a directory -/

/-- A file as the publication leaves it. -/
def privateFile (euid : ℕ) (content : List UInt8) : Inode := ⟨content, privateMode, euid, true⟩

/-- The journal of a snapshot: its text has a length that readers accept. -/
def Ledger.Fits (L : Ledger S K) (s : S) (content : List UInt8) : Prop :=
  L.encode s = some content ∧ 0 < content.length ∧ content.length ≤ maxJournalBytes

/-- The journal is that of the snapshot, if there is one. -/
def Holds (L : Ledger S K) (euid : ℕ) (d : Directory) : Option S → Prop
  | none => d.look journalName = none
  | some s => ∃ i content, L.Fits s content ∧
    d.look journalName = some (i, privateFile euid content, 1)

/-- A ledger between two processes: where there is a lock file it is valid. -/
structure Usable (L : Ledger S K) (euid : ℕ) (o : Option S) (d : Directory) : Prop where
  wellFormed : d.WellFormed
  lock_ok : d.find lockName = none ∨ ∃ lock, lockIsValid euid lock d
  journal : Holds L euid d o

/-- A ledger whose lock file is held. -/
structure Stands (L : Ledger S K) (euid lock : ℕ) (o : Option S) (d : Directory) : Prop where
  wellFormed : d.WellFormed
  lock_ok : lockIsValid euid lock d
  journal : Holds L euid d o

theorem Stands.usable {o : Option S} (h : Stands L euid lock o d) : Usable L euid o d :=
  ⟨h.wellFormed, .inr ⟨lock, h.lock_ok⟩, h.journal⟩

theorem isPrivate_privateFile (content : List UInt8) :
    isPrivate euid (privateFile euid content) 1 := by
  simp [isPrivate, privateFile]

theorem Holds.read_none [DecidableEq K] {x : Option K} (h : Holds L euid d none) :
    L.read euid x true d = .ok none := by
  rw [Ledger.read, show d.look journalName = none from h]
  rfl

/-- A journal that is there is read. -/
theorem Holds.read_some [DecidableEq K] {s : S} (h : Holds L euid d (some s)) {x : Option K}
    (hkey : ∀ k ∈ x, L.key s = k) (missingOk : Bool) :
    ∃ content, L.Fits s content ∧
      L.read euid x missingOk d = .ok (some (s, content)) := by
  obtain ⟨i, content, hfits, hlook⟩ := h
  refine ⟨content, hfits, ?_⟩
  rw [Ledger.read, hlook]
  dsimp only
  rw [if_pos ⟨isPrivate_privateFile content, hfits.2⟩,
    show L.decode (privateFile euid content).content = some s from L.decode_encode s content
      hfits.1]
  dsimp only
  rw [if_pos hkey]
  rfl

theorem Holds.of_look {o : Option S} (h : Holds L euid d o)
    (hjournal : t.look journalName = d.look journalName) : Holds L euid t o := by
  cases o with
  | none => exact hjournal.trans h
  | some s =>
    obtain ⟨i, content, hfits, hlook⟩ := h
    exact ⟨i, content, hfits, hjournal.trans hlook⟩

/-- What a publication leaves alone as long as it has not named the journal. -/
theorem Stands.of_look {o : Option S} (h : Stands L euid lock o d) (ht : t.WellFormed)
    (hlock : t.look lockName = d.look lockName)
    (hjournal : t.look journalName = d.look journalName) : Stands L euid lock o t := by
  refine ⟨ht, ?_, h.journal.of_look hjournal⟩
  rw [lockIsValid, hlock]
  exact h.lock_ok

/-! ### Writing the temporary file -/

/-- The temporary file `i` holds what was written so far, beside what stood in `d`. -/
structure Written (euid : ℕ) (d : Directory) (temporary : String) (i mode : ℕ)
    (content : List UInt8) (t : Directory) : Prop where
  wellFormed : t.WellFormed
  ne_lock : temporary ≠ lockName
  ne_journal : temporary ≠ journalName
  temporary_look : t.look temporary = some (i, ⟨content, mode, euid, true⟩, 1)
  lock_look : t.look lockName = d.look lockName
  journal_look : t.look journalName = d.look journalName

theorem Written.apart {mode : ℕ} (h : Written euid d temporary i mode content t) {name : String}
    (hname : temporary ≠ name) (j : ℕ) (hj : t.find name = some j) : j ≠ i := by
  obtain ⟨hfind, -, hlinks⟩ := Directory.find_of_look h.temporary_look
  exact h.wellFormed.ne_of_links hfind hj hname hlinks

theorem map_look_of_ne {name : String} {g : ℕ × Inode × ℕ → ℕ × Inode × ℕ}
    (h : ∀ j f n, j ≠ i → g (j, f, n) = (j, f, n)) (hne : ∀ j, t.find name = some j → j ≠ i) :
    (t.look name).map g = t.look name := by
  cases hf : t.find name with
  | none => rw [Directory.look_eq_none.mpr hf, Option.map_none]
  | some j => rw [Directory.look_of_find hf, Option.map_some, h j _ _ (hne j hf)]

theorem Written.create {o : Option S} (h : Stands L euid lock o d) (hlock : temporary ≠ lockName)
    (hjournal : temporary ≠ journalName) {mode : ℕ}
    (ht : d.create temporary mode euid = some t) :
    Written euid d temporary d.next mode [] t where
  wellFormed := h.wellFormed.create ht
  ne_lock := hlock
  ne_journal := hjournal
  temporary_look := Directory.look_create_self h.wellFormed ht
  lock_look := Directory.look_create_of_ne h.wellFormed ht hlock.symm
  journal_look := Directory.look_create_of_ne h.wellFormed ht hjournal.symm

theorem Written.chmod {mode : ℕ} (h : Written euid d temporary i mode content t) (mode' : ℕ) :
    Written euid d temporary i mode' content (t.chmod i mode') where
  wellFormed := h.wellFormed.chmod
  ne_lock := h.ne_lock
  ne_journal := h.ne_journal
  temporary_look := by
    rw [Directory.look_chmod, h.temporary_look]
    simp
  lock_look := by
    rw [Directory.look_chmod, map_look_of_ne (fun j f n hne => by simp [hne])
      (h.apart h.ne_lock), h.lock_look]
  journal_look := by
    rw [Directory.look_chmod, map_look_of_ne (fun j f n hne => by simp [hne])
      (h.apart h.ne_journal), h.journal_look]

theorem Written.append {mode : ℕ} (h : Written euid d temporary i mode content t)
    (bytes : List UInt8) :
    Written euid d temporary i mode (content ++ bytes) (t.append i bytes) where
  wellFormed := h.wellFormed.append
  ne_lock := h.ne_lock
  ne_journal := h.ne_journal
  temporary_look := by
    rw [Directory.look_append, h.temporary_look]
    simp
  lock_look := by
    rw [Directory.look_append, map_look_of_ne (fun j f n hne => by simp [hne])
      (h.apart h.ne_lock), h.lock_look]
  journal_look := by
    rw [Directory.look_append, map_look_of_ne (fun j f n hne => by simp [hne])
      (h.apart h.ne_journal), h.journal_look]

theorem Written.stands {mode : ℕ} {o : Option S} (hd : Stands L euid lock o d)
    (h : Written euid d temporary i mode content t) : Stands L euid lock o t :=
  hd.of_look h.wellFormed h.lock_look h.journal_look

theorem call_eq_ok {op : Directory → Option Directory} {category : Category} :
    call op category d = .ok t ↔ op d = some t := by
  rw [call]
  cases op d <;> simp

/-- A call that cannot fail. -/
theorem of_call_some {op : Directory → Directory} {category : Category}
    (h : call (fun d => some (op d)) category d = .ok t) : op d = t := by
  rw [call_eq_ok] at h
  exact Option.some.inj h

theorem check_eq_ok {p : Directory → Bool} {category : Category} :
    check p category d = .ok t ↔ p d ∧ d = t := by
  rw [check]
  split
  · next h => simp [h]
  · next h => simp [h]

/-- The file is written from what it holds to the whole content, in whatever portions. -/
theorem runs_writeAll {o : Option S} {d' : Directory} (hd : Stands L euid lock o d)
    (counts : List ℕ) (rest : List UInt8)
    (h : Written euid d temporary i privateMode content d') :
    Runs (writeAll i counts rest) d' (Stands L euid lock o)
      (Written euid d temporary i privateMode (content ++ rest)) := by
  induction counts generalizing content rest d' with
  | nil =>
    rw [writeAll]
    split
    · next hnil => exact .nil (h.stands hd) (by rwa [hnil, List.append_nil])
    · refine .cons (h.stands hd) fun t ht => ?_
      obtain rfl := of_call_some ht
      exact .nil ((h.append rest).stands hd) (h.append rest)
  | cons count counts ih =>
    rw [writeAll]
    split
    · next hnil => exact .nil (h.stands hd) (by rwa [hnil, List.append_nil])
    split
    · exact .cons (h.stands hd) nofun
    · refine .cons (h.stands hd) fun t ht => ?_
      obtain rfl := of_call_some ht
      have hrest := ih (rest.drop count) (h.append (rest.take count))
      rwa [List.append_assoc, List.take_append_drop] at hrest

/-- Until the temporary file is complete, the journal is the one that was there. -/
theorem runs_prepare {o : Option S} (hd : Stands L euid lock o d) (hlock : temporary ≠ lockName)
    (hjournal : temporary ≠ journalName) (counts : List ℕ) (content : List UInt8) :
    Runs (prepare euid temporary lock d.next content counts) d (Stands L euid lock o)
      (Written euid d temporary d.next privateMode content) := by
  rw [prepare]
  refine .append (R := Written euid d temporary d.next privateMode content)
    (.append (R := Written euid d temporary d.next privateMode []) ?_ fun t ht => ?_) fun t ht => ?_
  · refine .cons hd fun t ht => ?_
    have hnew := Written.create hd hlock hjournal (call_eq_ok.mp ht)
    refine .cons (hnew.stands hd) fun t' ht' => ?_
    obtain rfl := of_call_some ht'
    have hmode := hnew.chmod privateMode
    refine .cons (hmode.stands hd) fun t'' ht'' => ?_
    obtain ⟨-, rfl⟩ := check_eq_ok.mp ht''
    exact .nil (hmode.stands hd) hmode
  · have hall := runs_writeAll hd counts content ht
    rwa [List.nil_append] at hall
  · refine .cons (ht.stands hd) fun t' ht' => ?_
    obtain rfl := Except.ok.inj ht'
    refine .cons (ht.stands hd) fun t' ht' => ?_
    obtain ⟨-, rfl⟩ := check_eq_ok.mp ht'
    refine .cons (ht.stands hd) fun t' ht' => ?_
    obtain ⟨-, rfl⟩ := check_eq_ok.mp ht'
    exact .nil (ht.stands hd) ht

/-! ### Naming the journal -/

/-- Between the link and the removal of the temporary name: the journal has two names. -/
structure Linked (euid lock : ℕ) (temporary : String) (content : List UInt8) (t : Directory) :
    Prop where
  wellFormed : t.WellFormed
  lock_ok : lockIsValid euid lock t
  ne_lock : temporary ≠ lockName
  ne_journal : temporary ≠ journalName
  look : ∃ i, i ≠ lock ∧ t.look journalName = some (i, privateFile euid content, 2) ∧
    t.look temporary = some (i, privateFile euid content, 2)

/-- No reader accepts a journal with two names. -/
theorem Linked.read [DecidableEq K] (h : Linked euid lock temporary content t)
    (expected : Option K) (missingOk : Bool) :
    L.read euid expected missingOk t = .error .invalidJournal := by
  obtain ⟨i, -, hlook, -⟩ := h.look
  rw [Ledger.read, hlook]
  simp [isPrivate]

/-- The lock file that was opened is the one there. -/
theorem look_lock (h : lockIsValid euid lock d) :
    ∃ f, d.look lockName = some (lock, f, 1) ∧ isPrivate euid f 1 := by
  rw [lockIsValid] at h
  split at h
  · next j f links hlook =>
    simp only [Bool.and_eq_true, decide_eq_true_eq] at h
    obtain ⟨rfl, hprivate⟩ := h
    have hone : links = 1 := by
      simp only [isPrivate, Bool.and_eq_true, decide_eq_true_eq] at hprivate
      exact hprivate.1.2
    rw [hone] at hlook hprivate
    exact ⟨f, hlook, hprivate⟩
  · cases h

theorem lockIsValid_of_look {f : Inode} (h : t.look lockName = some (lock, f, 1))
    (hf : isPrivate euid f 1) : lockIsValid euid lock t := by
  rw [lockIsValid, h]
  simpa using hf

theorem Written.link {o : Option S} (hd : Stands L euid lock o d)
    (h : Written euid d temporary i privateMode content t) {t' : Directory}
    (ht : t.link temporary journalName = some t') : Linked euid lock temporary content t' := by
  obtain ⟨hfind, hinode, hlinks⟩ := Directory.find_of_look h.temporary_look
  obtain ⟨f, hl, hf⟩ := look_lock (h.stands hd).lock_ok
  have hne : lock ≠ i := h.apart h.ne_lock lock (Directory.find_of_look hl).1
  refine ⟨h.wellFormed.link ht, ?_, h.ne_lock, h.ne_journal, i, hne.symm, ?_, ?_⟩
  · refine lockIsValid_of_look (f := f) ?_ hf
    rw [Directory.look_link_of_ne hfind ht (by decide), hl]
    simp [hne]
  · rw [Directory.look_link_target hfind ht, hinode, hlinks]
    rfl
  · rw [Directory.look_link_of_ne hfind ht h.ne_journal, h.temporary_look]
    simp [privateFile]

theorem Linked.unlink (h : Linked euid lock temporary content d) {s : S}
    (hfits : L.Fits s content) (ht : d.unlink temporary = some t) :
    Stands L euid lock (some s) t := by
  obtain ⟨i, hne, hlook, htemporary⟩ := h.look
  obtain ⟨hfind, -, -⟩ := Directory.find_of_look htemporary
  obtain ⟨f, hl, hf⟩ := look_lock h.lock_ok
  refine ⟨h.wellFormed.unlink ht, ?_, i, content, hfits, ?_⟩
  · refine lockIsValid_of_look (f := f) ?_ hf
    rw [Directory.look_unlink_of_ne h.wellFormed hfind ht h.ne_lock.symm, hl]
    simp [hne.symm]
  · rw [Directory.look_unlink_of_ne h.wellFormed hfind ht h.ne_journal.symm, hlook]
    simp

theorem Written.replace {r s : S} (hd : Stands L euid lock (some r) d)
    (h : Written euid d temporary i privateMode content t) (hfits : L.Fits s content)
    {t' : Directory} (ht : t.replace temporary journalName = some t') :
    Stands L euid lock (some s) t' := by
  obtain ⟨hfind, hinode, hlinks⟩ := Directory.find_of_look h.temporary_look
  have hstands := h.stands hd
  obtain ⟨f, hl, hf⟩ := look_lock hstands.lock_ok
  obtain ⟨hlockFind, -, hlockLinks⟩ := Directory.find_of_look hl
  have hne : lock ≠ i := h.apart h.ne_lock lock hlockFind
  obtain ⟨j, bytes, -, hj⟩ := hstands.journal
  obtain ⟨hjFind, -, -⟩ := Directory.find_of_look hj
  have hjlock : j ≠ lock := h.wellFormed.ne_of_links hlockFind hjFind (by decide) hlockLinks
  have htarget : t.find journalName ≠ some i := fun hc => h.apart h.ne_journal i hc rfl
  obtain ⟨hnew, -⟩ := Directory.look_replace h.wellFormed hfind h.ne_journal htarget ht
  refine ⟨h.wellFormed.replace ht, ?_, i, content, hfits, ?_⟩
  · refine lockIsValid_of_look (f := f) ?_ hf
    rw [Directory.look_replace_of_ne h.wellFormed hfind htarget ht h.ne_lock.symm (by decide)
      hlockFind fun hc => hjlock (Option.some.inj (hjFind.symm.trans hc)), hl]
  · rw [hnew, hinode, hlinks]
    rfl

end

end Palimpsest.Monitor
