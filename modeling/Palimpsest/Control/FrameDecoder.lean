import Palimpsest.Control.Decoding
import Palimpsest.Control.Sending
import Palimpsest.Lib.Framing

/-!
# The frame decoder

Envelopes travel over the channel as frames: four bytes that tell the length of the payload,
and the payload. The host takes the bytes from its socket as they come and feeds them to a
decoder, which keeps the bytes of a frame that is not yet complete.

What the decoder gives is settled by the whole stream, however it is cut into chunks, but for
the chunk in which a frame is refused: the call raises, and the envelopes that are complete in
the same chunk are lost with it (`Palimpsest.Control.frameDecoder_chunks`).
-/

namespace Palimpsest.Control

open Json

/-! ### Frames -/

/-- `struct.unpack(">I", header)[0]` -/
def unpackU32 (header : List UInt8) : ℕ := header.foldl (fun n b => 256 * n + b.toNat) 0

theorem unpackU32_packU32 {n : ℕ} (h : n < 2 ^ 32) : unpackU32 (packU32 n) = n := by
  simp only [unpackU32, packU32, List.foldl_cons, List.foldl_nil, UInt8.toNat_ofNat',
    Nat.shiftRight_eq_div_pow]
  omega

/-- `encode_frame` -/
def encodeFrame (e : OCIControlV2Envelope) : Except Raised (List UInt8) := do
  let payload ← canonicalJsonBytes (.dict e.toDict)
  require (payload ≠ [] ∧ payload.length ≤ maxPayloadBytes) "lifecycle frame exceeds 64 KiB"
  return packU32 payload.length ++ payload

/-- A length that a frame may have. -/
def LengthOk (length : ℕ) : Prop := ¬(length = 0 ∨ length > maxPayloadBytes)

instance (length : ℕ) : Decidable (LengthOk length) := inferInstanceAs (Decidable ¬_)

/-- `decode_frame` -/
def decodeFrame (frame : List UInt8) : Except Raised OCIControlV2Envelope :=
  if frame.length < 4 then .error (.protocol "lifecycle frame is truncated")
  else
    let length := unpackU32 (frame.take 4)
    if length = 0 ∨ length > maxPayloadBytes then
      .error (.protocol "lifecycle frame length is invalid")
    else if frame.length ≠ length + 4 then
      .error (.protocol "lifecycle frame is truncated or contains trailing bytes")
    else decodePayload (frame.drop 4)

/-- The first frame of a stream, when it is complete. Of a frame whose length is refused there
is no more than the length. -/
def nextFrame (stream : List UInt8) : Option (List UInt8 × List UInt8) :=
  if stream.length < 4 then none
  else
    let length := unpackU32 (stream.take 4)
    let size := if LengthOk length then length + 4 else 4
    if stream.length < size then none else some (stream.take size, stream.drop size)

/-- What a complete first frame is. -/
theorem nextFrame_eq_some {s f r : List UInt8} :
    nextFrame s = some (f, r) ↔ ∃ size, 4 ≤ size ∧ size ≤ s.length ∧ f = s.take size ∧
      r = s.drop size ∧
      size = if LengthOk (unpackU32 (s.take 4)) then unpackU32 (s.take 4) + 4 else 4 := by
  rw [nextFrame]
  split
  · next hshort =>
    refine iff_of_false (by simp) ?_
    rintro ⟨size, hfour, hsize, -⟩
    omega
  · next hlong =>
    dsimp only
    generalize hsize : (if LengthOk (unpackU32 (s.take 4)) then unpackU32 (s.take 4) + 4 else 4) =
      size
    have hfour : 4 ≤ size := by split at hsize <;> omega
    split
    · next hlt =>
      refine iff_of_false (by simp) ?_
      rintro ⟨size, -, hle, -, -, rfl⟩
      omega
    · next hle =>
      constructor
      · intro h
        cases h
        exact ⟨size, hfour, not_lt.mp hle, rfl, rfl, rfl⟩
      · rintro ⟨size, -, -, rfl, rfl, rfl⟩
        rfl

/-- The frames of the channel. -/
def frames : Framing UInt8 where
  next := nextFrame
  next_eq h := by
    obtain ⟨size, -, -, rfl, rfl, -⟩ := nextFrame_eq_some.mp h
    exact (List.take_append_drop ..).symm
  next_ne_nil h := by
    obtain ⟨size, hfour, hsize, rfl, -⟩ := nextFrame_eq_some.mp h
    rw [← List.length_pos_iff, List.length_take]
    omega
  next_append t h := by
    obtain ⟨size, hfour, hsize, rfl, rfl, heq⟩ := nextFrame_eq_some.mp h
    refine nextFrame_eq_some.mpr ⟨size, hfour, ?_, ?_, ?_, ?_⟩
    · exact hsize.trans (by simp)
    · rw [List.take_append_of_le_length hsize]
    · rw [List.drop_append_of_le_length hsize]
    · rwa [List.take_append_of_le_length (hfour.trans hsize)]

/-- The envelopes of a stream up to the first frame that is refused. -/
def decodeStream (stream : List UInt8) : List OCIControlV2Envelope × Ending UInt8 Raised :=
  frames.decodeAll decodeFrame stream

section Frames

variable {h p rest : List UInt8} (hfour : h.length = 4)

include hfour

theorem nextFrame_of_short (hlength : LengthOk (unpackU32 h)) (hshort : p.length < unpackU32 h) :
    frames.next (h ++ p) = none := by
  rw [← Option.not_isSome_iff_eq_none, Option.isSome_iff_exists]
  rintro ⟨⟨f, r⟩, hf⟩
  obtain ⟨size, -, hle, -, -, hsize⟩ := nextFrame_eq_some.mp hf
  rw [← hfour, List.take_left, if_pos hlength] at hsize
  rw [List.length_append] at hle
  omega

theorem nextFrame_of_complete (hlength : LengthOk (unpackU32 h))
    (hcomplete : p.length = unpackU32 h) :
    frames.next (h ++ p ++ rest) = some (h ++ p, rest) := by
  have hsize : (h ++ p).length = unpackU32 h + 4 := by rw [List.length_append]; omega
  refine nextFrame_eq_some.mpr ⟨unpackU32 h + 4, by omega, ?_, ?_, ?_, ?_⟩
  · rw [List.length_append]
    omega
  · rw [List.take_left' hsize]
  · rw [List.drop_left' hsize]
  · rw [List.append_assoc, List.take_left' hfour, if_pos hlength]

theorem nextFrame_of_not_lengthOk (hlength : ¬LengthOk (unpackU32 h)) :
    frames.next (h ++ rest) = some (h, rest) := by
  refine nextFrame_eq_some.mpr ⟨4, le_rfl, ?_, ?_, ?_, ?_⟩
  · rw [List.length_append]
    omega
  · rw [List.take_left' hfour]
  · rw [List.drop_left' hfour]
  · rw [List.take_left' hfour, if_neg hlength]

theorem decodeFrame_append (hlength : LengthOk (unpackU32 h))
    (hcomplete : p.length = unpackU32 h) : decodeFrame (h ++ p) = decodePayload p := by
  have hsize : (h ++ p).length = unpackU32 h + 4 := by rw [List.length_append]; omega
  rw [decodeFrame, if_neg (by omega), List.take_left' hfour, if_neg hlength,
    if_neg (not_not.mpr hsize), List.drop_left' hfour]

theorem decodeFrame_of_not_lengthOk (hlength : ¬LengthOk (unpackU32 h)) :
    decodeFrame h = .error (.protocol "lifecycle frame length is invalid") := by
  rw [decodeFrame, if_neg (by omega), List.take_of_length_le hfour.le]
  exact if_pos (not_not.mp hlength)

end Frames

/-! ### The decoder -/

structure OCIControlV2FrameDecoder where
  header : List UInt8
  payload : List UInt8
  expected : Option ℕ

namespace OCIControlV2FrameDecoder

/-- A decoder that has read nothing. -/
def new : OCIControlV2FrameDecoder := ⟨[], [], none⟩

def bufferedBytes (d : OCIControlV2FrameDecoder) : ℕ := d.header.length + d.payload.length

/-- The first half of a turn of the loop, when the length of the frame is not known: bytes of
the chunk go to the header. With the decoder comes what is left of the chunk. -/
def readHeader (d : OCIControlV2FrameDecoder) (data : List UInt8) :
    Except Raised Unit × OCIControlV2FrameDecoder × List UInt8 :=
  let count := min (4 - d.header.length) data.length
  let header := d.header ++ data.take count
  let data := data.drop count
  if header.length ≠ 4 then (.ok (), { d with header := header }, data)
  else
    let expected := unpackU32 header
    if expected = 0 ∨ expected > maxPayloadBytes then
      (.error (.protocol "lifecycle frame length is invalid"),
        { d with header := [], expected := none }, data)
    else (.ok (), { d with header := [], expected := some expected }, data)

/-- The second half: bytes of the chunk go to the payload, which is decoded when it is
complete. -/
def readPayload (d : OCIControlV2FrameDecoder) (expected : ℕ) (data : List UInt8) :
    Except Raised (Option OCIControlV2Envelope) × OCIControlV2FrameDecoder × List UInt8 :=
  let count := min (expected - d.payload.length) data.length
  let payload := d.payload ++ data.take count
  let data := data.drop count
  if payload.length = expected then
    match decodePayload payload with
    | .ok envelope => (.ok (some envelope), { d with payload := [], expected := none }, data)
    | .error e => (.error e, { d with payload := payload }, data)
  else (.ok none, { d with payload := payload }, data)

/-- One turn of the loop of `feed`. -/
def turn (d : OCIControlV2FrameDecoder) (data : List UInt8) :
    Except Raised (Option OCIControlV2Envelope) × OCIControlV2FrameDecoder × List UInt8 :=
  match d.expected with
  | some expected => d.readPayload expected data
  | none =>
    match d.readHeader data with
    | (.error e, d, data) => (.error e, d, data)
    | (.ok (), d, data) =>
      match d.expected with
      | some expected => d.readPayload expected data
      | none => (.ok none, d, data)

/-- The loop of `feed` over what is left of the chunk, with the envelopes so far. A turn takes
at least one byte, so that there are no more turns than bytes. -/
def feedLoop : ℕ → OCIControlV2FrameDecoder → List UInt8 → List OCIControlV2Envelope →
    Except Raised (List OCIControlV2Envelope) × OCIControlV2FrameDecoder
  | 0, d, _, envelopes => (.ok envelopes, d)
  | turns + 1, d, data, envelopes =>
    if data = [] then (.ok envelopes, d)
    else
      match d.turn data with
      | (.error e, d, _) => (.error e, d)
      | (.ok envelope, d, data) => feedLoop turns d data (envelopes ++ envelope.toList)

/-- `feed` -/
def feed (d : OCIControlV2FrameDecoder) (data : List UInt8) :
    Except Raised (List OCIControlV2Envelope) × OCIControlV2FrameDecoder :=
  feedLoop data.length d data []

/-- `finish` -/
def finish (d : OCIControlV2FrameDecoder) : Except Raised Unit :=
  if d.bufferedBytes ≠ 0 ∨ d.expected ≠ none then
    .error (.protocol "lifecycle frame stream is truncated")
  else .ok ()

/-! ### What a decoder keeps -/

/-- The bytes `left` are those that a decoder has read of a frame that is not complete. -/
inductive Keeps : OCIControlV2FrameDecoder → List UInt8 → Prop
  | header (header : List UInt8) (hshort : header.length < 4) : Keeps ⟨header, [], none⟩ header
  | payload (header payload : List UInt8) (hfour : header.length = 4)
      (hlength : LengthOk (unpackU32 header)) (hshort : payload.length < unpackU32 header) :
      Keeps ⟨[], payload, some (unpackU32 header)⟩ (header ++ payload)

theorem Keeps.next_eq_none {d : OCIControlV2FrameDecoder} {left : List UInt8} (h : d.Keeps left) :
    frames.next left = none := by
  cases h with
  | header header hshort => exact if_pos hshort
  | payload header payload hfour hlength hshort => exact nextFrame_of_short hfour hlength hshort

/-- A decoder that keeps nothing of a frame is one that may finish. -/
theorem Keeps.finish_iff {d : OCIControlV2FrameDecoder} {left : List UInt8} (h : d.Keeps left) :
    d.finish = .ok () ↔ left = [] := by
  cases h with
  | header _ hshort =>
    cases left <;> simp [finish, bufferedBytes]
  | payload header payload hfour _ _ =>
    refine iff_of_false (by simp [finish]) fun hnil => ?_
    rw [List.append_eq_nil_iff] at hnil
    rw [hnil.1] at hfour
    cases hfour

/-- Everything that a turn can do: take bytes, complete an envelope, or refuse a frame. -/
inductive Turned (left data : List UInt8) :
    Except Raised (Option OCIControlV2Envelope) × OCIControlV2FrameDecoder × List UInt8 → Prop
  | took (d : OCIControlV2FrameDecoder) (left' data' : List UInt8) (hkeeps : d.Keeps left')
      (heq : left' ++ data' = left ++ data) (hless : data'.length < data.length) :
      Turned left data (.ok none, d, data')
  | completed (envelope : OCIControlV2Envelope) (frame data' : List UInt8)
      (hnext : frames.next (left ++ data) = some (frame, data'))
      (hframe : decodeFrame frame = .ok envelope) (hless : data'.length < data.length) :
      Turned left data (.ok (some envelope), new, data')
  | refused (e : Raised) (frame rest : List UInt8) (d : OCIControlV2FrameDecoder)
      (data' : List UInt8) (hnext : frames.next (left ++ data) = some (frame, rest))
      (hframe : decodeFrame frame = .error e) : Turned left data (.error e, d, data')

/-- The second half of a turn, of which the first may have taken bytes already. -/
theorem turned_readPayload {left data header payload data₁ : List UInt8}
    (hfour : header.length = 4) (hlength : LengthOk (unpackU32 header))
    (hshort : payload.length < unpackU32 header) (heq : header ++ payload ++ data₁ = left ++ data)
    (hle : data₁.length ≤ data.length) (hless : data₁ = [] → data₁.length < data.length) :
    Turned left data
      (readPayload ⟨[], payload, some (unpackU32 header)⟩ (unpackU32 header) data₁) := by
  rw [readPayload]
  set count := min (unpackU32 header - payload.length) data₁.length with hcount
  have htaken : header ++ (payload ++ data₁.take count) ++ data₁.drop count = left ++ data := by
    rw [← heq]
    simp
  -- The turn has used up some byte, in this half or in the first.
  have hdropped : (data₁.drop count).length < data.length := by
    rcases List.eq_nil_or_concat data₁ with rfl | ⟨l, a, rfl⟩
    · simpa using hless rfl
    · rw [List.length_drop]
      simp only [List.concat_eq_append, List.length_append, List.length_singleton] at hcount hle ⊢
      omega
  have htake : (data₁.take count).length = count := by
    rw [List.length_take]
    omega
  dsimp only
  -- The payload is complete and decoded, or there is no more data to take.
  split
  · next hcomplete =>
    have hnext : frames.next (left ++ data) = some (header ++ (payload ++ data₁.take count),
        data₁.drop count) := by
      rw [← htaken]
      exact nextFrame_of_complete hfour hlength hcomplete
    have hframe := decodeFrame_append hfour hlength hcomplete
    split
    · next envelope hdecode => exact .completed envelope _ _ hnext (hframe.trans hdecode) hdropped
    · next e hdecode => exact .refused e _ _ _ _ hnext (hframe.trans hdecode)
  · next hpartial =>
    refine .took _ _ _ (.payload header _ hfour hlength ?_) htaken hdropped
    rw [List.length_append] at hpartial ⊢
    omega

theorem turned {d : OCIControlV2FrameDecoder} {left data : List UInt8} (h : d.Keeps left)
    (hdata : data ≠ []) : Turned left data (d.turn data) := by
  have hpos := List.length_pos_iff.mpr hdata
  cases h with
  | payload header payload hfour hlength hshort =>
    exact turned_readPayload hfour hlength hshort rfl le_rfl fun hnil => absurd hnil hdata
  | header _ hshort =>
    rw [turn, readHeader]
    set count := min (4 - left.length) data.length with hcount
    have htake : (data.take count).length = count := by
      rw [List.length_take]
      omega
    have htaken : left ++ data.take count ++ data.drop count = left ++ data := by
      rw [List.append_assoc, List.take_append_drop]
    have hdropped : (data.drop count).length < data.length := by
      rw [List.length_drop]
      omega
    dsimp only
    by_cases hfour : (left ++ data.take count).length ≠ 4
    · rw [if_pos hfour]
      refine .took _ _ _ (.header _ ?_) htaken hdropped
      rw [List.length_append] at hfour ⊢
      omega
    · rw [if_neg hfour]
      rw [not_not] at hfour
      by_cases hlength : LengthOk (unpackU32 (left ++ data.take count))
      · rw [if_neg hlength]
        have hzero : 0 < unpackU32 (left ++ data.take count) :=
          Nat.pos_of_ne_zero fun hzero => hlength (.inl hzero)
        refine turned_readPayload hfour hlength hzero ?_ hdropped.le fun _ => hdropped
        rw [List.append_nil, htaken]
      · rw [if_pos (not_not.mp hlength)]
        refine .refused _ _ (data.drop count) _ _ ?_ (decodeFrame_of_not_lengthOk hfour hlength)
        rw [← htaken]
        exact nextFrame_of_not_lengthOk hfour hlength

/-! ### The loop -/

/-- What the loop gives, by what reading its bytes gives. -/
inductive Looped (envelopes : List OCIControlV2Envelope) :
    List OCIControlV2Envelope × Ending UInt8 Raised →
      Except Raised (List OCIControlV2Envelope) × OCIControlV2FrameDecoder → Prop
  | rest (out : List OCIControlV2Envelope) (left : List UInt8) (d : OCIControlV2FrameDecoder)
      (hkeeps : d.Keeps left) : Looped envelopes (out, .rest left) (.ok (envelopes ++ out), d)
  | refused (out : List OCIControlV2Envelope) (e : Raised) (d : OCIControlV2FrameDecoder) :
      Looped envelopes (out, .refused e) (.error e, d)

/-- The loop after an envelope gives what the loop before it gives. -/
theorem Looped.cons {envelopes : List OCIControlV2Envelope} {envelope : OCIControlV2Envelope}
    {read : List OCIControlV2Envelope × Ending UInt8 Raised}
    {result : Except Raised (List OCIControlV2Envelope) × OCIControlV2FrameDecoder}
    (h : Looped (envelopes ++ [envelope]) read result) :
    Looped envelopes (envelope :: read.1, read.2) result := by
  cases h with
  | rest out left d hkeeps =>
    rw [List.append_assoc]
    exact .rest (envelope :: out) left d hkeeps
  | refused out e d => exact .refused (envelope :: out) e d

theorem looped_nil {d : OCIControlV2FrameDecoder} {left : List UInt8} (hd : d.Keeps left)
    (envelopes : List OCIControlV2Envelope) :
    Looped envelopes (decodeStream (left ++ [])) (.ok envelopes, d) := by
  have hout : Looped envelopes ([], .rest left) (.ok (envelopes ++ []), d) := .rest [] left d hd
  rw [List.append_nil] at hout ⊢
  rwa [decodeStream, Framing.decodeAll_of_none hd.next_eq_none]

theorem looped {turns : ℕ} {d : OCIControlV2FrameDecoder} {left data : List UInt8}
    (hturns : data.length ≤ turns) (hd : d.Keeps left) (envelopes : List OCIControlV2Envelope) :
    Looped envelopes (decodeStream (left ++ data)) (d.feedLoop turns data envelopes) := by
  induction turns generalizing d left data envelopes with
  | zero =>
    obtain rfl := List.length_eq_zero_iff.mp (Nat.le_zero.mp hturns)
    exact looped_nil hd envelopes
  | succ turns ih =>
    rw [feedLoop]
    split
    · next hnil =>
      subst hnil
      exact looped_nil hd envelopes
    · next hdata =>
      have hturned := turned hd hdata
      generalize d.turn data = result at hturned ⊢
      cases hturned with
      | took d' left' data' hkeeps heq hless =>
        have hrest := ih (Nat.le_of_lt_succ (hless.trans_le hturns)) hkeeps envelopes
        rw [← heq]
        simpa using hrest
      | completed envelope frame data' hnext hframe hless =>
        rw [decodeStream, Framing.decodeAll_of_ok hnext hframe]
        exact (ih (by omega) (.header [] (by decide)) (envelopes ++ [envelope])).cons
      | refused e frame rest d' data' hnext hframe =>
        rw [decodeStream, Framing.decodeAll_of_error hnext hframe]
        exact .refused [] e d'

/-- A call of `feed` does what reading what is kept and the chunk in one piece does. -/
theorem follows : frames.Follows decodeFrame Keeps feed where
  rest {d left chunk out left'} hd hread := by
    have hlooped := looped (le_refl chunk.length) hd []
    rw [decodeStream, hread] at hlooped
    rw [feed]
    generalize d.feedLoop chunk.length chunk [] = result at hlooped ⊢
    cases hlooped with
    | rest _ _ d' hkeeps => exact ⟨d', rfl, hkeeps⟩
  refused {d left chunk out e} hd hread := by
    have hlooped := looped (le_refl chunk.length) hd []
    rw [decodeStream, hread] at hlooped
    rw [feed]
    generalize d.feedLoop chunk.length chunk [] = result at hlooped ⊢
    cases hlooped with
    | refused _ _ d' => exact ⟨d', rfl⟩

end OCIControlV2FrameDecoder

/-! ### Any number of chunks -/

/-- What a new decoder gives for chunks fed in order, up to the first call that raises. -/
def decodeChunks (chunks : List (List UInt8)) :
    Fed OCIControlV2FrameDecoder OCIControlV2Envelope Raised :=
  feedAll OCIControlV2FrameDecoder.feed .new chunks

/-- **What the decoder gives is settled by the stream.** Without a frame that is refused, all
envelopes come out, and the decoder may finish when nothing is left over. With one, the call
with the chunk that shows it raises what `decodeFrame` raises, and the envelopes before it come
out except those that the same chunk completes. -/
theorem frameDecoder_chunks (chunks : List (List UInt8)) :
    (∀ envelopes left, decodeStream chunks.flatten = (envelopes, .rest left) →
      (decodeChunks chunks).raised = none ∧ (decodeChunks chunks).yielded = envelopes ∧
        ((decodeChunks chunks).reader.finish = .ok () ↔ left = [])) ∧
    ∀ envelopes e, decodeStream chunks.flatten = (envelopes, .refused e) →
      (decodeChunks chunks).raised = some e ∧ (decodeChunks chunks).yielded <+: envelopes ∧
        ∃ before chunk after, chunks = before ++ chunk :: after ∧
          (∃ left, decodeStream before.flatten = ((decodeChunks chunks).yielded, .rest left)) ∧
          decodeStream (before.flatten ++ chunk) = (envelopes, .refused e) := by
  have hnew : OCIControlV2FrameDecoder.new.Keeps [] := .header [] (by decide)
  have hnil : frames.decodeAll decodeFrame [] = ([], .rest []) :=
    Framing.decodeAll_of_none hnew.next_eq_none
  constructor
  · intro envelopes left hstream
    obtain ⟨hraised, hyielded, hkeeps⟩ :=
      OCIControlV2FrameDecoder.follows.feedAll_rest hnew hnil hstream
    exact ⟨hraised, hyielded, hkeeps.finish_iff⟩
  · intro envelopes e hstream
    have hrefused := OCIControlV2FrameDecoder.follows.feedAll_refused hnew hnil hstream
    exact ⟨hrefused.raised, hrefused.isPrefix, hrefused.first⟩

def zeroUuid : Uuid := ⟨"00000000-0000-0000-0000-000000000000", by decide⟩

def zeroDigest : Digest := ⟨String.ofList ("sha256:".toList ++ List.replicate 64 '0'), by decide⟩

/-- A HELLO whose identifiers, digests and nonce are zeros. -/
def zeroHello : OCIControlV2Envelope where
  body :=
    { binding := ⟨zeroUuid, zeroDigest, zeroDigest⟩
      bootAttemptId := zeroUuid
      hostNonce := ⟨String.ofList (List.replicate 64 '0'), by decide⟩
      epoch := ⟨1, counter_one⟩
      wireSequence := ⟨1, counter_one⟩
      content := .hello ⟨1, counter_one⟩
      epoch_ok := rfl }
  mac := none
  mac_ok := by simp [Content.kind]

/-- The frame of an unsigned HELLO, followed by anything. -/
theorem exists_frame_hello {e : OCIControlV2Envelope} {n : Counter}
    (he : e.body.content = .hello n) (hsize : (Value.dict e.toDict).width ≤ maxPayloadBytes) :
    ∃ frame, encodeFrame e = .ok frame ∧ ∀ rest,
      decodeStream (frame ++ rest) = (e :: (decodeStream rest).1, (decodeStream rest).2) := by
  have hencodable : e.body.content.Encodable := by
    refine Content.encodable_of_kind ?_
    simp [he, Content.kind]
  obtain ⟨t, ht⟩ := Option.isSome_iff_exists.mp (isSome_dumps_envelope hencodable)
  have hle := (byteLength_dumps_le ht).trans hsize
  obtain ⟨hne, hlength⟩ := size_ok ht hle
  have hunpack : unpackU32 (packU32 (encodeUtf8 t).length) = (encodeUtf8 t).length :=
    unpackU32_packU32 (hlength.trans_lt (by decide))
  have hlengthOk : LengthOk (unpackU32 (packU32 (encodeUtf8 t).length)) := by
    rw [hunpack]
    exact not_or.mpr ⟨fun hzero => hne (List.length_eq_zero_iff.mp hzero), not_lt.mpr hlength⟩
  have hframe : decodeFrame (packU32 (encodeUtf8 t).length ++ encodeUtf8 t) = .ok e :=
    (decodeFrame_append rfl hlengthOk hunpack.symm).trans (decodePayload_hello he ht hle)
  refine ⟨packU32 (encodeUtf8 t).length ++ encodeUtf8 t, ?_, fun rest => ?_⟩
  · simp only [encodeFrame, canonicalJsonBytes, ht, require, if_pos (And.intro hne hlength), bind,
      Except.bind]
    rfl
  · exact Framing.decodeAll_of_ok (nextFrame_of_complete rfl hlengthOk hunpack.symm) hframe

/-- A frame of no length is refused. -/
theorem decodeStream_zeros : decodeStream [0, 0, 0, 0] =
    ([], .refused (.protocol "lifecycle frame length is invalid")) :=
  Framing.decodeAll_of_error (nextFrame_of_not_lengthOk (h := [0, 0, 0, 0]) rfl (by decide))
    (decodeFrame_of_not_lengthOk rfl (by decide))

/-- **An envelope is lost with the frame after it**: fed in one piece, a HELLO and a frame of
no length give no envelope at all, although fed in two they give the HELLO. -/
theorem frameDecoder_split : ∃ frame, encodeFrame zeroHello = .ok frame ∧
    decodeStream (frame ++ [0, 0, 0, 0]) =
      ([zeroHello], .refused (.protocol "lifecycle frame length is invalid")) ∧
    (decodeChunks [frame, [0, 0, 0, 0]]).yielded = [zeroHello] ∧
    (decodeChunks [frame ++ [0, 0, 0, 0]]).yielded = [] := by
  have hroom : (Value.dict zeroHello.toDict).room ≤ maxPayloadBytes := by decide
  obtain ⟨frame, hencode, hframe⟩ := exists_frame_hello (e := zeroHello) rfl
    ((Value.width_le_room _).trans hroom)
  have hnew : OCIControlV2FrameDecoder.new.Keeps [] := .header [] (by decide)
  have hstream : decodeStream (frame ++ [0, 0, 0, 0]) =
      ([zeroHello], .refused (.protocol "lifecycle frame length is invalid")) := by
    rw [hframe, decodeStream_zeros]
  have hfirst : decodeStream frame = ([zeroHello], .rest []) := by
    have hnil := hframe []
    rwa [List.append_nil, decodeStream, decodeStream,
      Framing.decodeAll_of_none hnew.next_eq_none] at hnil
  refine ⟨frame, hencode, hstream, ?_, ?_⟩
  · obtain ⟨d, hfeed, hd⟩ := OCIControlV2FrameDecoder.follows.rest hnew hfirst
    obtain ⟨d', hfeed'⟩ := OCIControlV2FrameDecoder.follows.refused hd decodeStream_zeros
    simp only [decodeChunks, feedAll, hfeed, hfeed', List.append_nil]
  · rw [← List.nil_append (frame ++ _)] at hstream
    obtain ⟨d, hfeed⟩ := OCIControlV2FrameDecoder.follows.refused hnew hstream
    simp only [decodeChunks, feedAll, hfeed]

end Palimpsest.Control
