import Mathlib.Data.List.Basic

/-!
# Frames of a stream

A stream cut into frames that tell where they end (`Palimpsest.Framing`): whether a stream
begins with a complete frame, and with which one, does not change when more of the stream
arrives. Every frame is decoded or refused, and a stream is read up to the first frame that is
refused (`Palimpsest.Framing.decodeAll`).

A reader keeps what is not yet a complete frame between two calls. If every call does to what
is kept and the next chunk what reading the two in one piece would do
(`Palimpsest.Framing.Follows`), then what comes out of any number of chunks is settled by the
whole stream (`Palimpsest.Framing.Follows.feedAll_rest`), but for one thing: frames that are
complete in the very chunk in which another one is refused are not delivered
(`Palimpsest.Framing.Follows.feedAll_refused`).
-/

namespace Palimpsest

/-- Frames that tell where they end. -/
structure Framing (α : Type) where
  /-- The first frame of a stream, when it is complete, and what follows it. -/
  next : List α → Option (List α × List α)
  next_eq : ∀ {s f r}, next s = some (f, r) → s = f ++ r
  next_ne_nil : ∀ {s f r}, next s = some (f, r) → f ≠ []
  next_append : ∀ {s f r} (t : List α), next s = some (f, r) → next (s ++ t) = some (f, r ++ t)

/-- How the reading of a stream ends: with what is not yet a frame, or with a refusal. -/
inductive Ending (α ε : Type)
  | rest (left : List α)
  | refused (e : ε)

/-- What a number of calls of a reader gave: what came out, the error of the last one when it
raised, and the reader. -/
structure Fed (σ β ε : Type) where
  yielded : List β
  raised : Option ε
  reader : σ

/-- Feed chunks in order, up to the first call that raises. -/
def feedAll {σ α β ε : Type} (feed : σ → List α → Except ε (List β) × σ) (s : σ) :
    List (List α) → Fed σ β ε
  | [] => ⟨[], none, s⟩
  | chunk :: chunks =>
    match feed s chunk with
    | (.ok out, s') =>
      let r := feedAll feed s' chunks
      { r with yielded := out ++ r.yielded }
    | (.error e, s') => ⟨[], some e, s'⟩

namespace Framing

variable {α β ε σ : Type} (F : Framing α) (decode : List α → Except ε β)

variable {F} in
theorem length_lt {s f r : List α} (h : F.next s = some (f, r)) : r.length < s.length := by
  have hpos := List.length_pos_of_ne_nil (F.next_ne_nil h)
  rw [F.next_eq h, List.length_append]
  omega

/-- Read a stream frame by frame. -/
def decodeAll (s : List α) : List β × Ending α ε :=
  match _h : F.next s with
  | none => ([], .rest s)
  | some (f, r) =>
    match decode f with
    | .error e => ([], .refused e)
    | .ok b => (b :: (decodeAll r).1, (decodeAll r).2)
termination_by s.length
decreasing_by all_goals exact length_lt _h

variable {F decode}

theorem decodeAll_of_none {s : List α} (h : F.next s = none) :
    F.decodeAll decode s = ([], .rest s) := by
  rw [decodeAll]
  split
  · rfl
  · next heq => cases h.symm.trans heq

theorem decodeAll_of_error {s f r : List α} {e : ε} (h : F.next s = some (f, r))
    (hf : decode f = .error e) : F.decodeAll decode s = ([], .refused e) := by
  rw [decodeAll]
  split
  · next heq => cases h.symm.trans heq
  · next heq =>
    cases h.symm.trans heq
    simp only [hf]

theorem decodeAll_of_ok {s f r : List α} {b : β} (h : F.next s = some (f, r))
    (hf : decode f = .ok b) :
    F.decodeAll decode s = (b :: (F.decodeAll decode r).1, (F.decodeAll decode r).2) := by
  rw [decodeAll]
  split
  · next heq => cases h.symm.trans heq
  · next heq =>
    cases h.symm.trans heq
    simp only [hf]

/-! ### More of the stream -/

/-- **Reading goes on where it stood**: what was left, and then the rest of the stream. -/
theorem decodeAll_append {s left : List α} {out : List β}
    (h : F.decodeAll decode s = (out, .rest left)) (t : List α) :
    F.decodeAll decode (s ++ t) =
      (out ++ (F.decodeAll decode (left ++ t)).1, (F.decodeAll decode (left ++ t)).2) := by
  induction hn : s.length using Nat.strongRecOn generalizing s out with
  | ind n ih =>
    cases hs : F.next s with
    | none =>
      obtain ⟨rfl, heq⟩ := Prod.mk.inj ((decodeAll_of_none hs).symm.trans h)
      cases heq
      rfl
    | some p =>
      obtain ⟨f, r⟩ := p
      cases hf : decode f with
      | error e => cases (decodeAll_of_error hs hf).symm.trans h
      | ok b =>
        obtain ⟨rfl, hr⟩ := Prod.mk.inj ((decodeAll_of_ok hs hf).symm.trans h)
        rw [decodeAll_of_ok (F.next_append t hs) hf,
          ih r.length (hn ▸ length_lt hs) (Prod.ext rfl hr) rfl, List.cons_append]

/-- A refusal is final. -/
theorem decodeAll_append_of_refused {s : List α} {out : List β} {e : ε}
    (h : F.decodeAll decode s = (out, .refused e)) (t : List α) :
    F.decodeAll decode (s ++ t) = (out, .refused e) := by
  induction hn : s.length using Nat.strongRecOn generalizing s out with
  | ind n ih =>
    cases hs : F.next s with
    | none => cases (decodeAll_of_none hs).symm.trans h
    | some p =>
      obtain ⟨f, r⟩ := p
      have happend := F.next_append t hs
      cases hf : decode f with
      | error e' =>
        rw [decodeAll_of_error happend hf]
        exact (decodeAll_of_error hs hf).symm.trans h
      | ok b =>
        obtain ⟨rfl, hr⟩ := Prod.mk.inj ((decodeAll_of_ok hs hf).symm.trans h)
        rw [decodeAll_of_ok happend hf, ih r.length (hn ▸ length_lt hs) (Prod.ext rfl hr) rfl]

/-- What is left is not yet a frame. -/
theorem decodeAll_left {s left : List α} {out : List β}
    (h : F.decodeAll decode s = (out, .rest left)) :
    F.decodeAll decode left = ([], .rest left) := by
  have happend := decodeAll_append h []
  rw [List.append_nil, List.append_nil, h] at happend
  obtain ⟨hout, hend⟩ := Prod.mk.inj happend
  exact Prod.ext (List.self_eq_append_right.mp hout) hend.symm

/-- A stream that is read as a whole is made of frames, and of what is left. -/
theorem exists_frames {s left : List α} {out : List β}
    (h : F.decodeAll decode s = (out, .rest left)) :
    ∃ fs, List.Forall₂ (fun f b => decode f = .ok b) fs out ∧ s = fs.flatten ++ left := by
  induction hn : s.length using Nat.strongRecOn generalizing s out with
  | ind n ih =>
    cases hs : F.next s with
    | none =>
      cases (decodeAll_of_none hs).symm.trans h
      exact ⟨[], .nil, rfl⟩
    | some p =>
      obtain ⟨f, r⟩ := p
      cases hf : decode f with
      | error e => cases (decodeAll_of_error hs hf).symm.trans h
      | ok b =>
        obtain ⟨rfl, hr⟩ := Prod.mk.inj ((decodeAll_of_ok hs hf).symm.trans h)
        obtain ⟨fs, hfs, heq⟩ := ih r.length (hn ▸ length_lt hs) (Prod.ext rfl hr) rfl
        refine ⟨f :: fs, .cons hf hfs, ?_⟩
        rw [F.next_eq hs, List.flatten_cons, List.append_assoc, ← heq]

/-- Frames that stand one after the other are read one after the other. -/
theorem decodeAll_flatten {fs : List (List α)} {out : List β}
    (h : List.Forall₂ (fun f b => decode f = .ok b) fs out)
    (hnext : ∀ f ∈ fs, ∀ t, F.next (f ++ t) = some (f, t)) (t : List α) :
    F.decodeAll decode (fs.flatten ++ t) =
      (out ++ (F.decodeAll decode t).1, (F.decodeAll decode t).2) := by
  induction h with
  | nil => rfl
  | cons hf _ ih =>
    obtain ⟨hhead, htail⟩ := List.forall_mem_cons.mp hnext
    rw [List.flatten_cons, List.append_assoc, decodeAll_of_ok (hhead _) hf, ih htail,
      List.cons_append]

/-! ### Chunks -/

/-- A call of a reader that keeps `left` does what reading `left` and the chunk does, and
delivers nothing when a frame is refused. -/
structure Follows (F : Framing α) (decode : List α → Except ε β) (Keeps : σ → List α → Prop)
    (feed : σ → List α → Except ε (List β) × σ) : Prop where
  rest : ∀ {s left chunk out left'}, Keeps s left →
    F.decodeAll decode (left ++ chunk) = (out, .rest left') →
      ∃ s', feed s chunk = (.ok out, s') ∧ Keeps s' left'
  refused : ∀ {s left chunk out e}, Keeps s left →
    F.decodeAll decode (left ++ chunk) = (out, .refused e) → ∃ s', feed s chunk = (.error e, s')

/-- Feeding chunks after `left` ends with the error `e`: there is a first chunk with which the
stream is refused, and what comes out is what the chunks before it complete. -/
structure Refused (F : Framing α) (decode : List α → Except ε β) (left : List α)
    (chunks : List (List α)) (out : List β) (e : ε) (r : Fed σ β ε) : Prop where
  raised : r.raised = some e
  first : ∃ before chunk after, chunks = before ++ chunk :: after ∧
    (∃ left', F.decodeAll decode (left ++ before.flatten) = (r.yielded, .rest left')) ∧
    F.decodeAll decode (left ++ (before.flatten ++ chunk)) = (out, .refused e)

namespace Follows

variable {Keeps : σ → List α → Prop} {feed : σ → List α → Except ε (List β) × σ}

theorem feedAll_rest (h : Follows F decode Keeps feed) {s : σ} {left left' : List α}
    {out : List β} (hs : Keeps s left) (hleft : F.decodeAll decode left = ([], .rest left))
    {chunks : List (List α)}
    (hall : F.decodeAll decode (left ++ chunks.flatten) = (out, .rest left')) :
    (feedAll feed s chunks).raised = none ∧ (feedAll feed s chunks).yielded = out ∧
      Keeps (feedAll feed s chunks).reader left' := by
  induction chunks generalizing s left out with
  | nil =>
    rw [List.flatten_nil, List.append_nil, hleft] at hall
    cases hall
    exact ⟨rfl, rfl, hs⟩
  | cons chunk chunks ih =>
    rw [List.flatten_cons, ← List.append_assoc] at hall
    cases hchunk : F.decodeAll decode (left ++ chunk) with
    | mk out₁ ending =>
      cases ending with
      | refused e => cases (decodeAll_append_of_refused hchunk _).symm.trans hall
      | rest left₁ =>
        obtain ⟨s', hfeed, hs'⟩ := h.rest hs hchunk
        obtain ⟨hout, hend⟩ := Prod.mk.inj ((decodeAll_append hchunk _).symm.trans hall)
        obtain ⟨hraised, hyielded, hkeeps⟩ := ih hs' (decodeAll_left hchunk) (Prod.ext rfl hend)
        rw [feedAll, hfeed]
        exact ⟨hraised, (congrArg (out₁ ++ ·) hyielded).trans hout, hkeeps⟩

theorem feedAll_refused (h : Follows F decode Keeps feed) {s : σ} {left : List α}
    {out : List β} {e : ε} (hs : Keeps s left)
    (hleft : F.decodeAll decode left = ([], .rest left)) {chunks : List (List α)}
    (hall : F.decodeAll decode (left ++ chunks.flatten) = (out, .refused e)) :
    Refused F decode left chunks out e (feedAll feed s chunks) := by
  induction chunks generalizing s left out with
  | nil =>
    rw [List.flatten_nil, List.append_nil, hleft] at hall
    cases hall
  | cons chunk chunks ih =>
    rw [List.flatten_cons, ← List.append_assoc] at hall
    cases hchunk : F.decodeAll decode (left ++ chunk) with
    | mk out₁ ending =>
      cases ending with
      -- This chunk holds the frame that is refused, or one of those after it does.
      | refused e₁ =>
        obtain ⟨s', hfeed⟩ := h.refused hs hchunk
        cases (decodeAll_append_of_refused hchunk _).symm.trans hall
        rw [feedAll, hfeed]
        refine ⟨rfl, [], chunk, chunks, rfl, ⟨left, ?_⟩, ?_⟩
        · rwa [List.flatten_nil, List.append_nil]
        · rwa [List.flatten_nil, List.nil_append]
      | rest left₁ =>
        obtain ⟨s', hfeed, hs'⟩ := h.rest hs hchunk
        obtain ⟨hout, hend⟩ := Prod.mk.inj ((decodeAll_append hchunk _).symm.trans hall)
        obtain ⟨hraised, before, last, after, rfl, ⟨left', hbefore⟩, hlast⟩ :=
          ih hs' (decodeAll_left hchunk) (Prod.ext rfl hend)
        rw [feedAll, hfeed]
        refine ⟨hraised, chunk :: before, last, after, rfl, ⟨left', ?_⟩, ?_⟩
        · rw [List.flatten_cons, ← List.append_assoc, decodeAll_append hchunk, hbefore]
        · rw [List.flatten_cons, List.append_assoc, ← List.append_assoc,
            decodeAll_append hchunk, hlast, ← hout]

end Follows

/-- What came out before a refusal is the beginning of what there was before it. -/
theorem Refused.isPrefix {left : List α} {chunks : List (List α)} {out : List β} {e : ε}
    {r : Fed σ β ε} (h : Refused F decode left chunks out e r) : r.yielded <+: out := by
  obtain ⟨before, chunk, after, -, ⟨left', hbefore⟩, hall⟩ := h.first
  rw [← List.append_assoc, decodeAll_append hbefore] at hall
  exact ⟨_, congrArg Prod.fst hall⟩

end Framing

end Palimpsest
