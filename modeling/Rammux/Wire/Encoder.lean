import Rammux.Wire.Decoder

/-!
# The encoder

`OutFrame` and `EncoderItem` of `src/wire/codec/encoder.rs`, the clock of `src/wire/clock.rs`, and
the writing half of `RammuxCodec` (`src/wire/codec.rs`). Each attempt to write has a time and an
answer of the transport (`WriteAttempt`). What the transport accepts is kept with the time at which
it was accepted, byte by byte.

`OutFrame.encoding` is a frame as a whole, with the timestamp of its `PING`. An item that is being
written is at some point of such an encoding (`EncoderItem.Encodes`), and the timestamp is open as
long as that point is the start.
-/

namespace Rammux

/-! ## The clock -/

/-- The private clock of a side. -/
structure Clock where
  epoch : Instant

/-- The timestamp of an instant: microseconds, truncated to 32 bits. -/
def Clock.micros (c : Clock) (now : Instant) : UInt32 := UInt32.ofNat ((now - c.epoch) / 1000)

/-! ## Frames to be written -/

/-- The stream part of an `OutFrame`. -/
structure OutStream where
  id : StreamId
  flags : ControlFlags
  /-- Bytes returned to the receive window of the peer, 0 for none. -/
  credit : UInt32
  /-- Stream data, empty for none. -/
  data : Bytes
  deriving DecidableEq

/-- A frame to be written, before its header is encoded. -/
structure OutFrame where
  /-- Whether to send a `PING`. Its `t_ping` is set by the encoder. -/
  ping : Bool := false
  /-- A `PONG` to send. -/
  pong : Option Pong := none
  /-- Stream part of the frame. -/
  stream : Option OutStream := none
  /-- Whether this is the `TERM` frame. -/
  term : Bool := false
  deriving DecidableEq

namespace OutFrame

/-- The `TERM` frame. -/
def terminate : OutFrame := { term := true }

/-- Whether the frame carries nothing, so it must not be sent. -/
def isEmpty (f : OutFrame) : Bool := !f.ping && f.pong.isNone && f.stream.isNone && !f.term

/-- The payload. -/
def data (f : OutFrame) : Bytes := f.stream.elim [] OutStream.data

/-- Length of the payload. -/
def dataLen (f : OutFrame) : ℕ := f.data.length

end OutFrame

/-! ## Frames that are being written -/

/-- A frame that is being written. -/
structure EncoderItem where
  header : Header
  payload : Bytes
  /-- The buffer of the encoded header. -/
  encoded : Bytes
  headerLen : ℕ
  /-- How many bytes of the frame were accepted by the transport. -/
  consumed : ℕ

namespace EncoderItem

/-- Whether the frame carries a `PING`, which needs a stamp. -/
def hasPing (i : EncoderItem) : Bool := i.header.ping.isSome

/-- Whether the transport already accepted some bytes of the frame. -/
def isStarted (i : EncoderItem) : Bool := 0 < i.consumed

/-- Encodes the header with the given `t_ping`, if `PING` is carried. -/
def stamp (i : EncoderItem) (tPing : UInt32) : Except Panic EncoderItem :=
  if i.isStarted then .error .headerFixed
  else do
    let header := if i.hasPing then { i.header with ping := some tPing } else i.header
    let (encoded, headerLen) ← header.encode i.encoded
    return { i with header, encoded, headerLen }

/-- The stamp before an attempt to write: until the transport accepts a byte, the timestamp is
whatever the time is now. -/
def restamp (i : EncoderItem) (tPing : UInt32) : Except Panic EncoderItem :=
  if i.hasPing && !i.isStarted then i.stamp tPing else .ok i

/-- The stream part of the header of a frame. -/
def streamHeader (s : OutStream) : Except Panic StreamHeader :=
  if s.data.length < 2^16 then
    .ok
      { id := s.id
        flags := s.flags
        credit := NonZeroU32.new s.credit
        dataLen := NonZeroU16.new (UInt16.ofNat s.data.length) }
  else .error .dataTooBig

/-- The item of a frame, of which nothing is written. -/
def new (frame : OutFrame) : Except Panic EncoderItem := do
  let stream ← frame.stream.mapM streamHeader
  -- The value of `ping` is set when the frame is written.
  let header : Header :=
    { stream
      ping := if frame.ping then some 0 else none
      pong := frame.pong
      term := frame.term }
  let item : EncoderItem :=
    { header
      payload := frame.data
      encoded := List.replicate maxHeaderLen 0
      headerLen := 0
      consumed := 0 }
  item.stamp 0

/-- How many bytes of the frame were not yet accepted by the transport. -/
def remaining (i : EncoderItem) : Except Panic ℕ :=
  u64Sub (i.headerLen + i.payload.length) i.consumed

/-- The unwritten part of the frame, as at most two slices. -/
def slices (i : EncoderItem) : List Bytes :=
  let headerLeft := i.headerLen - i.consumed
  let payloadDone := i.consumed - i.headerLen
  (if 0 < headerLeft then [(i.encoded.take i.headerLen).drop (i.headerLen - headerLeft)] else []) ++
    if payloadDone < i.payload.length then [i.payload.drop payloadDone] else []

/-- Marks some bytes as accepted by the transport. -/
def advance (i : EncoderItem) (cnt : ℕ) : Except Panic EncoderItem := do
  if cnt ≤ (← i.remaining) then .ok { i with consumed := i.consumed + cnt }
  else .error .advanceOverflow

end EncoderItem

/-! ## Writing to the transport -/

/-- How the transport answers a write. -/
inductive WriteAnswer where
  | pending
  | fail
  /-- It accepts up to `n` bytes, of all slices or only of the first. -/
  | accept (n : ℕ) (vectored : Bool)
  deriving DecidableEq

/-- An attempt to write, and its time. -/
structure WriteAttempt where
  now : Instant
  answer : WriteAnswer
  deriving DecidableEq

/-- Whether the transport accepts a byte, if one is offered. -/
def WriteAttempt.accepts (a : WriteAttempt) : Bool :=
  match a.answer with
  | .accept n _ => 0 < n
  | _ => false

/-- What a transport accepted, each byte with the time of the attempt that wrote it. -/
abbrev Outbox := List (UInt8 × Instant)

/-- `poll_write_vectored` of some slices. -/
def WriteAnswer.write (slices : List Bytes) : WriteAnswer → Poll (Except IoError ℕ)
  | .pending => .pending
  | .fail => .ready (.error .transport)
  | .accept n vectored =>
    .ready (.ok (min n (if vectored then slices.flatten.length else (slices.headD []).length)))

/-- What `poll_write_pending` and the rest of the sink return. -/
abbrev Written := Poll (Except ErrorKind Unit) × Option EncoderItem × Outbox × List WriteAttempt

/-- `poll_write_pending`: writes the pending item, if any, to the transport completely. Returns the
attempts that are left. -/
def pollWritePending (clock : Clock) :
    List WriteAttempt → Option EncoderItem → Outbox → Except Panic Written
  | attempts, none, out => .ok (.ready (.ok ()), none, out, attempts)
  | [], some item, out => do
    if (← item.remaining) = 0 then .ok (.ready (.ok ()), none, out, [])
    else .ok (.pending, some item, out, [])
  | attempt :: attempts, some item, out => do
    if (← item.remaining) = 0 then .ok (.ready (.ok ()), none, out, attempt :: attempts)
    else
      -- The time in a ping is that of the attempt, until a byte of it is out.
      let item ← item.restamp (clock.micros attempt.now)
      match attempt.answer.write item.slices with
      | .pending => .ok (.pending, some item, out, attempts)
      | .ready (.error e) => .ok (.ready (.error (.io e)), some item, out, attempts)
      | .ready (.ok written) =>
        if written = 0 then .ok (.ready (.error (.io .writeZero)), some item, out, attempts)
        else do
          let accepted := (item.slices.flatten.take written).map fun b => (b, attempt.now)
          let item ← item.advance written
          pollWritePending clock attempts (some item) (out ++ accepted)

/-- `start_send`: makes a frame the pending item. -/
def startSend (pending : Option EncoderItem) (frame : OutFrame) :
    Except Panic (Option EncoderItem) :=
  if pending.isSome then .error .encoderBusy
  else if frame.isEmpty then .error .emptyFrame
  else do
    let item ← EncoderItem.new frame
    return some item

/-- Writing fails only with the transport. -/
theorem pollWritePending_error {clock : Clock} {attempts left : List WriteAttempt}
    {pending pending' : Option EncoderItem} {out out' : Outbox} {e : ErrorKind}
    (h : pollWritePending clock attempts pending out =
      .ok (.ready (.error e), pending', out', left)) :
    ∃ io, e = .io io := by
  induction attempts generalizing pending out with
  | nil =>
    cases pending with
    | none => cases h
    | some item =>
      obtain ⟨n, -, h⟩ := Lib.bind_eq_ok.mp h
      split_ifs at h <;> cases h
  | cons attempt attempts ih =>
    cases pending with
    | none => cases h
    | some item =>
      obtain ⟨n, -, h⟩ := Lib.bind_eq_ok.mp h
      split_ifs at h
      · cases h
      obtain ⟨item', -, h⟩ := Lib.bind_eq_ok.mp h
      match hw : attempt.answer.write item'.slices with
      | .pending =>
        simp only [hw] at h
        cases h
      | .ready (.error io) =>
        simp only [hw] at h
        cases h
        exact ⟨io, rfl⟩
      | .ready (.ok written) =>
        simp only [hw] at h
        split_ifs at h
        · cases h
          -- A transport that accepts no byte has failed, too.
          exact ⟨_, rfl⟩
        · obtain ⟨item'', -, h⟩ := Lib.bind_eq_ok.mp h
          exact ih h

/-! ## A frame as a whole -/

namespace OutFrame

/-- The header of a frame, with the timestamp of its `PING`. -/
def header (f : OutFrame) (t : UInt32) : Header where
  stream := f.stream.map fun s =>
    { id := s.id
      flags := s.flags
      credit := NonZeroU32.new s.credit
      dataLen := NonZeroU16.new (UInt16.ofNat s.data.length) }
  ping := if f.ping then some t else none
  pong := f.pong
  term := f.term

/-- The bytes of a frame. -/
def encoding (f : OutFrame) (t : UInt32) : Bytes := (f.header t).bytes ++ f.data

/-- What the peer is to see of a frame. -/
def item (f : OutFrame) (t : UInt32) : Item :=
  if f.term then .terminate else .frame (f.header t) f.data

/-- The timestamp changes nothing but the `PING`. -/
theorem header_stamp (f : OutFrame) (t t' : UInt32) :
    (if (f.header t).ping.isSome then { f.header t with ping := some t' } else f.header t) =
      f.header t' := by
  unfold header
  cases f.ping <;> rfl

/-- The time is in the header of a ping only. -/
theorem header_of_not_ping {f : OutFrame} {t : UInt32} (h : (f.header t).ping.isSome = false)
    (t' : UInt32) : f.header t' = f.header t := by
  unfold header at h ⊢
  cases hp : f.ping with
  | false => rfl
  | true => simp [hp] at h

/-- Whether a header is legal does not depend on the time. -/
theorem legal_header {f : OutFrame} {t : UInt32} (h : (f.header t).Legal) (t' : UInt32) :
    (f.header t').Legal := by
  have hping : (f.header t').ping.isSome = (f.header t).ping.isSome := by
    unfold header
    cases f.ping <;> rfl
  refine ⟨?_, fun hterm => ?_, h.stream⟩
  · rw [hping]
    exact h.nonempty
  · have halone := h.alone hterm
    rw [header_of_not_ping (by rw [halone]; rfl) t', halone]

/-- No frame has an empty encoding. -/
theorem length_encoding_pos (f : OutFrame) (t : UInt32) : 0 < (f.encoding t).length := by
  simp only [encoding, Header.bytes, List.length_append, Lib.length_be16]
  omega

/-- The timestamp does not change the length of a frame. -/
theorem length_encoding (f : OutFrame) (t t' : UInt32) :
    (f.encoding t).length = (f.encoding t').length := by
  simp only [encoding, Header.bytes, header, List.length_append]
  cases f.ping <;> simp

end OutFrame

namespace EncoderItem

variable {i i' : EncoderItem} {f : OutFrame} {t t' : UInt32}

/-- An item that is being written encodes a frame. -/
structure Encodes (i : EncoderItem) (f : OutFrame) (t : UInt32) : Prop where
  header : i.header = f.header t
  legal : (f.header t).Legal
  payload : i.payload = f.data
  size : i.encoded.length = maxHeaderLen
  encoded : i.encoded.take i.headerLen = (f.header t).bytes
  headerLen : i.headerLen = (f.header t).bytes.length
  consumed : i.consumed ≤ (f.encoding t).length

/-- The bytes that are held for a frame are as many as its encoding has. -/
theorem Encodes.length (h : i.Encodes f t) :
    i.headerLen + i.payload.length = (f.encoding t).length := by
  rw [h.headerLen, h.payload, OutFrame.encoding, List.length_append]

/-- What remains is what was not consumed. -/
theorem Encodes.remaining (h : i.Encodes f t) :
    i.remaining = .ok ((f.encoding t).length - i.consumed) := by
  rw [EncoderItem.remaining, h.length, u64Sub, if_pos h.consumed]

/-- Encoding a legal header into the buffer of an item. -/
theorem encodes_of_encode {header : Header} {buffer encoded : Bytes} {headerLen : ℕ}
    (hsize : buffer.length = maxHeaderLen) (h : header.encode buffer = .ok (encoded, headerLen)) :
    header.Legal ∧ encoded.length = maxHeaderLen ∧ encoded.take headerLen = header.bytes ∧
      headerLen = header.bytes.length := by
  have hl := Header.legal_of_encode h
  rw [Header.encode_ok hl hsize] at h
  cases h
  have hle : header.bytes.length ≤ maxHeaderLen := by
    rw [Header.length_bytes hl]
    exact Header.headerLen_le _
  refine ⟨hl, ?_, List.take_left, rfl⟩
  rw [List.length_append, List.length_drop]
  omega

/-- Stamping an item of which nothing is written. -/
theorem Encodes.stamp (h : i.Encodes f t) (hstart : i.isStarted = false) (t' : UInt32) :
    ∃ i', i.stamp t' = .ok i' ∧ i'.Encodes f t' ∧ i'.consumed = i.consumed := by
  have hlegal := OutFrame.legal_header h.legal t'
  have hzero : i.consumed = 0 := by simpa [isStarted] using hstart
  have henc := Header.encode_ok hlegal h.size
  obtain ⟨-, hsize, htake, hlen⟩ := encodes_of_encode h.size henc
  refine ⟨{ i with
    header := f.header t'
    encoded := (f.header t').bytes ++ i.encoded.drop (f.header t').bytes.length
    headerLen := (f.header t').bytes.length }, ?_,
    ⟨rfl, hlegal, h.payload, hsize, htake, hlen, hzero ▸ Nat.zero_le _⟩, rfl⟩
  unfold EncoderItem.stamp hasPing
  rw [hstart, if_neg Bool.false_ne_true, h.header, OutFrame.header_stamp]
  exact Lib.bind_eq_ok.mpr ⟨_, henc, rfl⟩

/-- The slices are the rest of the frame. -/
theorem Encodes.slices (h : i.Encodes f t) :
    i.slices.flatten = (f.encoding t).drop i.consumed := by
  have hheader : (if 0 < i.headerLen - i.consumed then
      [(i.encoded.take i.headerLen).drop (i.headerLen - (i.headerLen - i.consumed))] else
      []).flatten = (f.header t).bytes.drop i.consumed := by
    rw [h.encoded]
    split_ifs with hleft
    · rw [List.flatten_singleton, show i.headerLen - (i.headerLen - i.consumed) =
        i.consumed by omega]
    · rw [List.flatten_nil, List.drop_eq_nil_of_le (by rw [← h.headerLen]; omega)]
  have hpayload : (if i.consumed - i.headerLen < i.payload.length then
      [i.payload.drop (i.consumed - i.headerLen)] else []).flatten =
      f.data.drop (i.consumed - (f.header t).bytes.length) := by
    rw [← h.headerLen, ← h.payload]
    split_ifs with hdone
    · rw [List.flatten_singleton]
    · rw [List.flatten_nil, List.drop_eq_nil_of_le (by omega)]
  unfold EncoderItem.slices
  simp only
  rw [List.flatten_append, hheader, hpayload, OutFrame.encoding, List.drop_append]

/-- The first slice is a part of the slices. -/
theorem length_head_slices (i : EncoderItem) :
    (i.slices.headD []).length ≤ i.slices.flatten.length := by
  cases i.slices with
  | nil => exact le_rfl
  | cons s ss =>
    rw [List.headD_cons, List.flatten_cons, List.length_append]
    exact Nat.le_add_right _ _

/-- There are no empty slices. -/
theorem Encodes.head_slices_pos (h : i.Encodes f t) (hleft : i.consumed < (f.encoding t).length) :
    0 < (i.slices.headD []).length := by
  have hlen := h.length
  have hencoded := congrArg List.length h.encoded
  rw [← h.headerLen] at hencoded
  unfold EncoderItem.slices
  by_cases hheader : 0 < i.headerLen - i.consumed
  · simp only [if_pos hheader, List.singleton_append, List.headD_cons, List.length_drop, hencoded]
    omega
  · have hpayload : i.consumed - i.headerLen < i.payload.length := by omega
    simp only [if_neg hheader, if_pos hpayload, List.nil_append, List.headD_cons, List.length_drop]
    omega

/-- The stream part of the header of a frame that is sent. -/
theorem mapM_streamHeader {stream : Option StreamHeader} (t : UInt32) :
    f.stream.mapM streamHeader = .ok stream ↔
      f.data.length < 2^16 ∧ stream = (f.header t).stream := by
  unfold OutFrame.data OutFrame.header
  cases f.stream with
  | none => simp [pure, Except.pure, eq_comm]
  | some s =>
    simp only [Option.mapM_some, streamHeader, Option.elim_some, Option.map_some]
    by_cases hlt : s.data.length < 2^16
    · simp only [hlt, if_true, true_and]
      constructor
      · rintro ⟨⟩
        rfl
      · rintro rfl
        rfl
    · simp only [hlt, if_false, false_and, iff_false]
      nofun

/-- The item of a frame that is sent. -/
theorem encodes_new (h : new f = .ok i) :
    i.Encodes f 0 ∧ i.consumed = 0 ∧ f.data.length < 2^16 := by
  simp only [new, Lib.bind_eq_ok] at h
  obtain ⟨stream, hstream, h⟩ := h
  obtain ⟨hlt, rfl⟩ := (mapM_streamHeader 0).mp hstream
  have hstamp : stamp ⟨f.header 0, f.data, List.replicate maxHeaderLen 0, 0, 0⟩ 0 = .ok i := h
  have hnot : isStarted ⟨f.header 0, f.data, List.replicate maxHeaderLen 0, 0, 0⟩ = false := rfl
  unfold stamp hasPing at hstamp
  rw [hnot, if_neg Bool.false_ne_true] at hstamp
  simp only [OutFrame.header_stamp, Lib.bind_eq_ok] at hstamp
  obtain ⟨⟨encoded, headerLen⟩, henc, hstamp⟩ := hstamp
  cases hstamp
  obtain ⟨hlegal, hsize, htake, hlen⟩ := encodes_of_encode (List.length_replicate ..) henc
  exact ⟨⟨rfl, hlegal, rfl, hsize, htake, hlen, Nat.zero_le _⟩, rfl, hlt⟩

/-- A frame with a legal header can be sent. -/
theorem new_ok (hl : (f.header 0).Legal) (hlt : f.data.length < 2^16) : ∃ i, new f = .ok i := by
  have henc := Header.encode_ok hl (List.length_replicate (n := maxHeaderLen) (a := 0))
  have hstamp : ∃ i, stamp ⟨f.header 0, f.data, List.replicate maxHeaderLen 0, 0, 0⟩ 0 = .ok i := by
    unfold stamp hasPing
    rw [show isStarted ⟨f.header 0, f.data, List.replicate maxHeaderLen 0, 0, 0⟩ = false from rfl,
      if_neg Bool.false_ne_true, OutFrame.header_stamp]
    exact ⟨_, Lib.bind_eq_ok.mpr ⟨_, henc, rfl⟩⟩
  obtain ⟨i, hi⟩ := hstamp
  exact ⟨i, Lib.bind_eq_ok.mpr ⟨_, (mapM_streamHeader 0).mpr ⟨hlt, rfl⟩, hi⟩⟩

end EncoderItem

/-! ## Writing a frame -/

/-- The time of the first byte. -/
def Outbox.start (out : Outbox) : Instant := (out.head?.map Prod.snd).getD 0

/-- A part of what the transport accepted is a frame, with the time of its first byte. -/
structure Wrote (clock : Clock) (f : OutFrame) (seg : Outbox) : Prop where
  legal : (f.header 0).Legal
  fits : f.data.length < 2^16
  bytes : seg.map Prod.fst = f.encoding (clock.micros seg.start)

/-- A part of what the transport accepted is what it has of the item of a frame. -/
structure Writing (clock : Clock) (i : EncoderItem) (f : OutFrame) (seg : Outbox) : Prop where
  encodes : ∃ t, i.Encodes f t ∧ seg.map Prod.fst = (f.encoding t).take i.consumed ∧
    (seg ≠ [] → f.header t = f.header (clock.micros seg.start))
  fits : f.data.length < 2^16
  length : seg.length = i.consumed

namespace Writing

variable {clock : Clock} {i : EncoderItem} {f : OutFrame} {seg : Outbox}

/-- A frame of which everything is written. -/
theorem wrote (h : Writing clock i f seg) (hdone : i.remaining = .ok 0) : Wrote clock f seg := by
  obtain ⟨t, henc, hseg, hstart⟩ := h.encodes
  have hle := henc.consumed
  have hpos := f.length_encoding_pos t
  have hlen : i.consumed = (f.encoding t).length := by
    rw [henc.remaining, Except.ok.injEq] at hdone
    omega
  have hne : seg ≠ [] := by
    rintro rfl
    rw [← h.length, List.length_nil] at hlen
    omega
  refine ⟨OutFrame.legal_header henc.legal 0, h.fits, ?_⟩
  rw [hseg, hlen, List.take_length, OutFrame.encoding, OutFrame.encoding, hstart hne]

/-- Before each attempt the timestamp of an item is renewed, unless it is fixed. -/
theorem restamp (h : Writing clock i f seg) (now : Instant) :
    ∃ i', i.restamp (clock.micros now) = .ok i' ∧ seg.length = i'.consumed ∧
      ∃ t, i'.Encodes f t ∧ seg.map Prod.fst = (f.encoding t).take i'.consumed ∧
        f.header t = f.header (clock.micros (if seg = [] then now else seg.start)) := by
  obtain ⟨t, henc, hseg, hstart⟩ := h.encodes
  unfold EncoderItem.restamp
  by_cases hne : seg = []
  · subst hne
    have hzero : i.consumed = 0 := h.length.symm
    rw [if_pos rfl]
    by_cases hping : i.hasPing
    · -- Nothing is written yet, so the header is encoded anew.
      have hnot : i.isStarted = false := by simp [EncoderItem.isStarted, hzero]
      obtain ⟨i', hi', henc', hsame⟩ := henc.stamp hnot (clock.micros now)
      refine ⟨i', ?_, by rw [hsame, hzero]; rfl, clock.micros now, henc', ?_, rfl⟩
      · rw [hping, hnot]
        exact hi'
      · rw [hsame, hzero, List.take_zero, List.map_nil]
    · have hping : i.hasPing = false := by simpa using hping
      refine ⟨i, by rw [hping]; rfl, h.length, t, henc, hseg, ?_⟩
      rw [EncoderItem.hasPing, henc.header] at hping
      exact (OutFrame.header_of_not_ping hping _).symm
  · have hpos : 0 < seg.length := List.length_pos_iff.mpr hne
    have hstarted : i.isStarted = true := by
      rw [h.length] at hpos
      simpa [EncoderItem.isStarted] using hpos
    rw [if_neg hne]
    exact ⟨i, by simp [hstarted], h.length, t, henc, hseg, hstart hne⟩

end Writing

/-- What one attempt writes of an item. -/
theorem WriteAnswer.written_le {answer : WriteAnswer} {i : EncoderItem} {written : ℕ}
    (h : answer.write i.slices = .ready (.ok written)) : written ≤ i.slices.flatten.length := by
  cases answer with
  | pending => nomatch h
  | fail => nomatch h
  | accept n vectored =>
    cases h
    cases vectored with
    | false => exact (Nat.min_le_right _ _).trans i.length_head_slices
    | true => exact Nat.min_le_right _ _

/-- A transport that accepts a byte accepts one of an item that is not written yet. -/
theorem WriteAttempt.written_pos {attempt : WriteAttempt} {i : EncoderItem} {f : OutFrame}
    {t : UInt32} (hacc : attempt.accepts = true) (henc : i.Encodes f t)
    (hleft : i.consumed < (f.encoding t).length) :
    ∃ written, attempt.answer.write i.slices = .ready (.ok written) ∧ written ≠ 0 := by
  unfold accepts at hacc
  cases hans : attempt.answer with
  | pending => rw [hans] at hacc; cases hacc
  | fail => rw [hans] at hacc; cases hacc
  | accept n vectored =>
    rw [hans] at hacc
    have hn : 0 < n := of_decide_eq_true hacc
    have hhead := henc.head_slices_pos hleft
    have hall := i.length_head_slices
    refine ⟨_, rfl, ?_⟩
    cases vectored with
    | false => exact (Nat.lt_min.mpr ⟨hn, hhead⟩).ne'
    | true => exact (Nat.lt_min.mpr ⟨hn, hhead.trans_le hall⟩).ne'

namespace Writing

variable {clock : Clock} {i : EncoderItem} {f : OutFrame} {seg : Outbox}

/-- An attempt that writes some of an item. -/
theorem advance {now : Instant} {t : UInt32} {written : ℕ} (hlt : f.data.length < 2^16)
    (hlen : seg.length = i.consumed) (henc : i.Encodes f t)
    (hseg : seg.map Prod.fst = (f.encoding t).take i.consumed)
    (hstart : f.header t = f.header (clock.micros (if seg = [] then now else seg.start)))
    (hle : written ≤ i.slices.flatten.length) (hpos : written ≠ 0) :
    ∃ i', i.advance written = .ok i' ∧
      Writing clock i' f (seg ++ (i.slices.flatten.take written).map fun b => (b, now)) := by
  have hcons := henc.consumed
  rw [henc.slices, List.length_drop] at hle
  refine ⟨{ i with consumed := i.consumed + written }, ?_, ⟨t, ?_, ?_, fun _ => ?_⟩, hlt, ?_⟩
  · exact Lib.bind_eq_ok.mpr ⟨_, henc.remaining, if_pos hle⟩
  · exact { henc with consumed := by show i.consumed + written ≤ _; omega }
  · rw [List.map_append, hseg, List.map_map, henc.slices]
    show _ ++ List.map id _ = _
    rw [List.map_id, ← List.take_add]
  · -- The first byte is of this attempt or of an earlier one.
    rw [hstart, henc.slices]
    cases seg with
    | nil =>
      have hdrop : (f.encoding t).drop i.consumed ≠ [] := by
        intro h
        have := List.length_drop (l := f.encoding t) (i := i.consumed)
        rw [h, List.length_nil] at this
        omega
      obtain ⟨b, bs, hbs⟩ := List.exists_cons_of_ne_nil hdrop
      obtain ⟨k, rfl⟩ := Nat.exists_eq_succ_of_ne_zero hpos
      rw [hbs]
      rfl
    | cons b bs => rfl
  · rw [List.length_append, hlen, List.length_map, List.length_take, henc.slices, List.length_drop]
    show _ = i.consumed + written
    omega

/-- What `poll_write_pending` comes to: either the frame is written, or some of it is, and then the
transport did not accept a byte at each attempt, or there were fewer attempts than bytes. -/
def Polled (clock : Clock) (f : OutFrame) (seg acc : Outbox) (attempts : List WriteAttempt)
    (res : Poll (Except ErrorKind Unit)) (pending : Option EncoderItem) : Prop :=
  (pending = none ∧ res = .ready (.ok ()) ∧ Wrote clock f (seg ++ acc)) ∨
    ∃ i, pending = some i ∧ res ≠ .ready (.ok ()) ∧ Writing clock i f (seg ++ acc) ∧
      ((∀ a ∈ attempts, a.accepts = true) →
        seg.length + attempts.length < (f.encoding 0).length)

/-- The end of `poll_write_pending`: everything is written. -/
theorem polled_of_remaining (h : Writing clock i f seg) (hrem : i.remaining = .ok 0)
    (attempts : List WriteAttempt) (out : Outbox) :
    pollWritePending clock attempts (some i) out =
        .ok (.ready (.ok ()), none, out ++ [], attempts) ∧
      Polled clock f seg [] attempts (.ready (.ok ())) none := by
  refine ⟨?_, .inl ⟨rfl, rfl, ?_⟩⟩
  · rw [List.append_nil]
    cases attempts <;> exact Lib.bind_eq_ok.mpr ⟨0, hrem, rfl⟩
  · rw [List.append_nil]
    exact h.wrote hrem

/-- `poll_write_pending` does not panic, whatever the transport answers, and what it writes is the
frame. -/
theorem pollWritePending_ok (attempts : List WriteAttempt) (h : Writing clock i f seg)
    (out : Outbox) :
    ∃ res pending acc left,
      pollWritePending clock attempts (some i) out = .ok (res, pending, out ++ acc, left) ∧
      Polled clock f seg acc attempts res pending := by
  induction attempts generalizing i seg out with
  | nil =>
    obtain ⟨t, henc, -, -⟩ := h.encodes
    by_cases hzero : (f.encoding t).length - i.consumed = 0
    · exact ⟨_, _, _, _, h.polled_of_remaining (by rw [henc.remaining, hzero]) [] out⟩
    refine ⟨.pending, some i, [], [], ?_, .inr ⟨i, rfl, nofun, ?_, fun _ => ?_⟩⟩
    · rw [List.append_nil]
      exact Lib.bind_eq_ok.mpr ⟨_, henc.remaining, if_neg hzero⟩
    · rwa [List.append_nil]
    · rw [f.length_encoding 0 t, h.length, List.length_nil]
      omega
  | cons attempt attempts ih =>
    obtain ⟨t, henc, -, -⟩ := h.encodes
    by_cases hzero : (f.encoding t).length - i.consumed = 0
    · exact ⟨_, _, _, _, h.polled_of_remaining (by rw [henc.remaining, hzero]) _ out⟩
    -- The item is stamped; then the transport answers.
    obtain ⟨i', hstamp, hlen, t', henc', hseg, hstart⟩ := h.restamp attempt.now
    have hkept : Writing clock i' f seg := ⟨⟨t', henc', hseg, fun hne => by
      rw [hstart, if_neg hne]⟩, h.fits, hlen⟩
    have hleft : i'.consumed < (f.encoding t').length := by
      rw [← hlen, h.length, f.length_encoding t' t]
      omega
    have hstep : pollWritePending clock (attempt :: attempts) (some i) out =
        match attempt.answer.write i'.slices with
        | .pending => .ok (.pending, some i', out, attempts)
        | .ready (.error e) => .ok (.ready (.error (.io e)), some i', out, attempts)
        | .ready (.ok written) =>
          if written = 0 then .ok (.ready (.error (.io .writeZero)), some i', out, attempts)
          else i'.advance written >>= fun item => pollWritePending clock attempts (some item)
            (out ++ (i'.slices.flatten.take written).map fun b => (b, attempt.now)) := by
      rw [pollWritePending, henc.remaining]
      simp only [bind, Except.bind, hzero, if_false, hstamp]
    -- Without a byte written, the item is what it was.
    have hstays {res : Poll (Except ErrorKind Unit)} (hres : res ≠ .ready (.ok ()))
        (hans : ∀ written, attempt.answer.write i'.slices = .ready (.ok written) → written = 0) :
        Polled clock f seg [] (attempt :: attempts) res (some i') := by
      refine .inr ⟨i', rfl, hres, by rwa [List.append_nil], fun hacc => ?_⟩
      obtain ⟨written, hok, hpos⟩ :=
        WriteAttempt.written_pos (hacc attempt List.mem_cons_self) henc' hleft
      exact absurd (hans written hok) hpos
    rw [hstep]
    rcases hans : attempt.answer.write i'.slices with _ | e | written
    · exact ⟨.pending, _, [], _, by rw [List.append_nil], hstays nofun (by rw [hans]; nofun)⟩
    · exact ⟨.ready (.error (.io e)), _, [], _, by rw [List.append_nil],
        hstays nofun (by rw [hans]; nofun)⟩
    by_cases hw : written = 0
    · refine ⟨.ready (.error (.io .writeZero)), some i', [], attempts, ?_, hstays nofun ?_⟩
      · rw [List.append_nil, hw]
        rfl
      · rw [hans, hw]
        rintro _ ⟨⟩
        rfl
    obtain ⟨next, hnext, hwriting⟩ :=
      advance h.fits hlen henc' hseg hstart (WriteAnswer.written_le hans) hw
    obtain ⟨res, pending, acc, left, hrun, hpost⟩ := ih hwriting
      (out ++ (i'.slices.flatten.take written).map fun b => (b, attempt.now))
    refine ⟨res, pending, (i'.slices.flatten.take written).map (fun b => (b, attempt.now)) ++ acc,
      left, ?_, ?_⟩
    · simp only [hw, if_false]
      rw [hnext, ← List.append_assoc]
      exact hrun
    · unfold Polled at hpost ⊢
      rw [← List.append_assoc]
      refine hpost.imp_right fun ⟨i₁, hi₁, hres, hw₁, hacc⟩ => ⟨i₁, hi₁, hres, hw₁, fun hall => ?_⟩
      have hlt := hacc fun a ha => hall a (List.mem_cons_of_mem _ ha)
      have hle := WriteAnswer.written_le hans
      rw [List.length_append, List.length_map, List.length_take] at hlt
      rw [List.length_cons]
      omega

end Writing

end Rammux
