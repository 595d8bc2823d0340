import Rammux.Basic
import Rammux.Lib.BigEndian

/-!
# Frame headers

`src/wire/header.rs`: the flags of a frame, and the fields that they announce. `Header.encode` and
`Header.decode` compute the layout separately, one from the fields that there are and the other from
the flags. `Header.bytes` is the layout as a whole: encoding writes it, and decoding reads it back.
-/

namespace Rammux

/-! ## Flags -/

/-- Flags of a frame. -/
structure Flags where
  bits : UInt16
  deriving DecidableEq, Repr

namespace Flags

/-- First frame of a stream. -/
def syn : Flags := ⟨0x0001⟩
/-- The sender of the frame stopped reading the stream. -/
def finRead : Flags := ⟨0x0002⟩
/-- The sender of the frame stopped writing the stream. -/
def finWrite : Flags := ⟨0x0004⟩
/-- The frame returns bytes of the receive window to the peer. -/
def window : Flags := ⟨0x0008⟩
/-- The frame carries stream data. -/
def data : Flags := ⟨0x0010⟩
/-- The frame carries a `PING`. -/
def ping : Flags := ⟨0x0020⟩
/-- The frame carries a `PONG`. -/
def pong : Flags := ⟨0x0040⟩
/-- End of the session. -/
def term : Flags := ⟨0x0080⟩

/-- No flags. -/
def empty : Flags := ⟨0⟩

/-- The flags of either. -/
def union (f g : Flags) : Flags := ⟨f.bits ||| g.bits⟩

/-- Whether all flags of `g` are set. -/
def contains (f g : Flags) : Bool := f.bits &&& g.bits == g.bits

/-- Whether a flag of `g` is set. -/
def intersects (f g : Flags) : Bool := f.bits &&& g.bits != 0

/-- Whether no flag is set. -/
def isEmpty (f : Flags) : Bool := f.bits == 0

/-- Sets or clears the flags of `g`. -/
def set (f g : Flags) (value : Bool) : Flags :=
  if value then f.union g else ⟨f.bits &&& ~~~g.bits⟩

/-- The flags with these bits, if no other bits are set. -/
def fromBits (raw : UInt16) : Option Flags := if raw &&& 0xFF00 = 0 then some ⟨raw⟩ else none

/-- Flags that make the frame carry a stream ID. -/
def stream : Flags := (((syn.union finRead).union finWrite).union window).union data

/-- Length of the flags field itself. -/
def flagsLen : ℕ := 2

/-- The length of the whole header with these flags. -/
def headerLen (f : Flags) : ℕ :=
  flagsLen + (if f.intersects stream then 2 else 0) + (if f.contains window then 4 else 0) +
    (if f.contains data then 2 else 0) + (if f.contains ping then 4 else 0) +
    if f.contains pong then 4 else 0

end Flags

/-- Why bytes are no frame. -/
inductive DecodeError where
  | reservedFlags
  | noFlags
  | termCombined
  | zeroCredit
  | zeroLength
  | exceedsLimit
  deriving DecidableEq, Repr

/-- Checks the flags in isolation. -/
def Flags.validate (raw : UInt16) : Except DecodeError Flags :=
  match fromBits raw with
  | none => .error .reservedFlags
  | some flags =>
    if flags.isEmpty then .error .noFlags
    else if flags.contains term && flags != term then .error .termCombined
    else .ok flags

/-! ## Headers -/

/-- Length of the longest possible header. -/
def maxHeaderLen : ℕ := 18

/-- Fields of a `PONG`. -/
structure Pong where
  /-- `t_ping` of the `PING` that is answered. -/
  tEcho : UInt32
  deriving DecidableEq, Repr

/-- The flags of the stream part of a header. -/
def StreamHeader.frameFlags (s : StreamHeader) : Flags :=
  ((((Flags.empty.set .syn s.flags.syn).set .finRead s.flags.finRead).set .finWrite
    s.flags.finWrite).set .window s.credit.isSome).set .data s.dataLen.isSome

/-- A frame header, validated. -/
structure Header where
  /-- Stream part of the frame. -/
  stream : Option StreamHeader := none
  /-- `t_ping` of a `PING` carried by the frame. -/
  ping : Option UInt32 := none
  /-- A `PONG` carried by the frame. -/
  pong : Option Pong := none
  /-- Whether this is the `TERM` frame. -/
  term : Bool := false
  deriving DecidableEq

/-- The flags of a header. -/
def Header.flags (h : Header) : Flags :=
  (((h.stream.elim .empty StreamHeader.frameFlags).set .ping h.ping.isSome).set .pong
    h.pong.isSome).set .term h.term

/-- A buffer that is written from its start. -/
structure Writer where
  buf : Bytes
  «at» : ℕ

/-- Writes some bytes. -/
def Writer.put (w : Writer) (bytes : Bytes) : Except Panic Writer :=
  if w.at + bytes.length ≤ w.buf.length then
    .ok ⟨w.buf.take w.at ++ bytes ++ w.buf.drop (w.at + bytes.length), w.at + bytes.length⟩
  else .error .outOfRange

/-- A buffer that is read. -/
structure Reader where
  buf : Bytes
  «at» : ℕ

/-- Reads `n` bytes. -/
def Reader.take (r : Reader) (n : ℕ) : Except Panic (Bytes × Reader) :=
  if r.at + n ≤ r.buf.length then .ok ((r.buf.drop r.at).take n, ⟨r.buf, r.at + n⟩)
  else .error .outOfRange

namespace Header

/-- Writes a field that may be absent. -/
def putField {α : Type} (w : Writer) (field : Option α) (toBytes : α → Bytes) :
    Except Panic Writer :=
  match field with
  | none => .ok w
  | some value => w.put (toBytes value)

/-- Encodes the stream part of a header. -/
def encodeStream (w : Writer) : Option StreamHeader → Except Panic Writer
  | none => .ok w
  | some stream => do
    let w ← w.put (Lib.be16 stream.id.raw)
    let w ← putField w stream.credit fun credit => Lib.be32 credit.get
    putField w stream.dataLen fun len => Lib.be16 len.get

/-- Encodes a header into a buffer. Returns the buffer, and how many of its bytes are used. -/
def encode (h : Header) (out : Bytes) : Except Panic (Bytes × ℕ) :=
  let flags := h.flags
  if !(Flags.validate flags.bits).isOk then .error .illegalFrame
  else if h.stream.any fun stream => stream.frameFlags.isEmpty then .error .streamWithoutFlags
  else do
    let w ← Writer.put ⟨out, 0⟩ (Lib.be16 flags.bits)
    let w ← encodeStream w h.stream
    let w ← putField w h.ping Lib.be32
    let w ← putField w h.pong fun pong => Lib.be32 pong.tEcho
    if w.at = flags.headerLen then .ok (w.buf, w.at) else .error .debugAssert

/-- Reads a field of `n` bytes, if it is present. -/
def takeField {α : Type} (r : Reader) (present : Bool) (n : ℕ) (ofBytes : Bytes → α) :
    Except Panic (Option α × Reader) :=
  if present then do
    let (bytes, r) ← r.take n
    return (some (ofBytes bytes), r)
  else .ok (none, r)

/-- Decodes the stream part of a header. -/
def decodeStream (flags : Flags) (r : Reader) :
    Except Panic (Except DecodeError (Option StreamHeader) × Reader) :=
  if flags.intersects .stream then do
    let (id, r) ← r.take 2
    let (credit, r) ← takeField r (flags.contains .window) 4 fun b => NonZeroU32.new (Lib.ofBe32 b)
    -- On the wire neither credit nor length may be zero.
    if credit = some none then return (.error .zeroCredit, r)
    let (dataLen, r) ← takeField r (flags.contains .data) 2 fun b => NonZeroU16.new (Lib.ofBe16 b)
    if dataLen = some none then return (.error .zeroLength, r)
    return (.ok (some
      { id := ⟨Lib.ofBe16 id⟩
        flags :=
          { finRead := flags.contains .finRead
            finWrite := flags.contains .finWrite
            syn := flags.contains .syn }
        credit := credit.join
        dataLen := dataLen.join }), r)
  else .ok (.ok none, r)

/-- Decodes a header with valid flags. -/
def decode (flags : Flags) (bytes : Bytes) : Except Panic (Except DecodeError Header) :=
  if bytes.length ≠ flags.headerLen then .error .debugAssert
  else do
    let (stream, r) ← decodeStream flags ⟨bytes, Flags.flagsLen⟩
    match stream with
    | .error e => .ok (.error e)
    | .ok stream => do
      let (ping, r) ← takeField r (flags.contains .ping) 4 Lib.ofBe32
      let (pong, r) ← takeField r (flags.contains .pong) 4 fun b => Pong.mk (Lib.ofBe32 b)
      if r.at ≠ bytes.length then .error .debugAssert
      else .ok (.ok { stream, ping, pong, term := flags.contains .term })

end Header

/-! ## The layout -/

/-- The bytes of the stream part of a header. -/
def StreamHeader.bytes (s : StreamHeader) : Bytes :=
  Lib.be16 s.id.raw ++ s.credit.elim [] (fun credit => Lib.be32 credit.get) ++
    s.dataLen.elim [] fun len => Lib.be16 len.get

/-- The bytes of a header. -/
def Header.bytes (h : Header) : Bytes :=
  Lib.be16 h.flags.bits ++ h.stream.elim [] StreamHeader.bytes ++ h.ping.elim [] Lib.be32 ++
    h.pong.elim [] fun pong => Lib.be32 pong.tEcho

/-- Whether the stream part of a header carries anything. -/
def StreamHeader.carries (s : StreamHeader) : Bool :=
  s.flags.syn || s.flags.finRead || s.flags.finWrite || s.credit.isSome || s.dataLen.isSome

/-- A header that a frame may have: there is something in it and in its stream part, and `TERM` is
alone. -/
structure Header.Legal (h : Header) : Prop where
  nonempty : h.term = true ∨ h.stream.isSome = true ∨ h.ping.isSome = true ∨ h.pong.isSome = true
  alone : h.term = true → h = { term := true }
  stream : ∀ s, h.stream = some s → s.carries = true

namespace Flags

/-- A single flag is contained if it is met. -/
theorem contains_of_bit (f : Flags) {g : Flags} {k : ℕ} (hg : g.bits.toNat = 2^k) :
    f.contains g = f.intersects g := by
  have hor : f.bits &&& g.bits = 0 ∨ f.bits &&& g.bits = g.bits := by
    rw [← UInt16.toNat_inj, ← UInt16.toNat_inj, UInt16.toNat_and, hg, Nat.and_two_pow]
    cases f.bits.toNat.testBit k <;> simp
  have hne : g.bits ≠ 0 := by
    intro h
    rw [h] at hg
    exact (Nat.two_pow_pos k).ne hg
  unfold contains intersects
  rcases hor with h | h
  · rw [h, bne_self_eq_false, beq_eq_false_iff_ne]
    exact hne.symm
  · rw [h, beq_self_eq_true, eq_comm, bne_iff_ne]
    exact hne

/-- The flags with the given bits. -/
def mk8 (syn finRead finWrite window data ping pong term : Bool) : Flags :=
  (((((((empty.set .syn syn).set .finRead finRead).set .finWrite finWrite).set .window window).set
    .data data).set .ping ping).set .pong pong).set .term term

/-- What the bits of flags say. -/
theorem mk8_spec : ∀ syn finRead finWrite window data ping pong term : Bool,
    let f := mk8 syn finRead finWrite window data ping pong term
    f.contains .syn = syn ∧ f.contains .finRead = finRead ∧ f.contains .finWrite = finWrite ∧
      f.contains .window = window ∧ f.contains .data = data ∧ f.contains .ping = ping ∧
      f.contains .pong = pong ∧ f.contains .term = term ∧
      f.intersects .stream = (syn || finRead || finWrite || window || data) := by
  decide +kernel

/-- Which flags a frame may have. -/
theorem validate_mk8 : ∀ syn finRead finWrite window data ping pong term : Bool,
    (validate (mk8 syn finRead finWrite window data ping pong term).bits).isOk =
      if term then !(syn || finRead || finWrite || window || data || ping || pong)
      else syn || finRead || finWrite || window || data || ping || pong := by
  decide +kernel

end Flags

/-- The flags of a stream part are empty when it carries nothing. -/
theorem StreamHeader.frameFlags_isEmpty (s : StreamHeader) :
    s.frameFlags.isEmpty = !s.carries := by
  unfold frameFlags carries
  generalize s.flags.syn = a
  generalize s.flags.finRead = b
  generalize s.flags.finWrite = c
  generalize s.credit.isSome = d
  generalize s.dataLen.isSome = e
  revert a b c d e
  decide

namespace Header

/-- The flags of a header without a stream part. -/
theorem flags_of_none {h : Header} (hs : h.stream = none) :
    h.flags = .mk8 false false false false false h.ping.isSome h.pong.isSome h.term := by
  rw [flags, hs]
  rfl

/-- The flags of a header with a stream part. -/
theorem flags_of_some {h : Header} {s : StreamHeader} (hs : h.stream = some s) :
    h.flags = .mk8 s.flags.syn s.flags.finRead s.flags.finWrite s.credit.isSome s.dataLen.isSome
      h.ping.isSome h.pong.isSome h.term := by
  rw [flags, hs]
  rfl

/-- The headers that a frame may have are those with valid flags, and flags in the stream part. -/
theorem legal_iff (h : Header) : h.Legal ↔ (Flags.validate h.flags.bits).isOk = true ∧
    ∀ s, h.stream = some s → s.frameFlags.isEmpty = false := by
  obtain ⟨stream, ping, pong, term⟩ := h
  cases stream with
  | none =>
    rw [flags_of_none rfl, Flags.validate_mk8]
    constructor
    · rintro ⟨hne, halone, -⟩
      refine ⟨?_, nofun⟩
      cases term with
      | true =>
        obtain ⟨-, rfl, rfl, -⟩ := Header.mk.inj (halone rfl)
        rfl
      | false => simpa using hne
    · rintro ⟨hv, -⟩
      cases term with
      | true => exact ⟨.inl rfl, fun _ => by cases ping <;> cases pong <;> simp_all, nofun⟩
      | false => exact ⟨by simpa using hv, nofun, nofun⟩
  | some s =>
    have hbits : (s.flags.syn || s.flags.finRead || s.flags.finWrite || s.credit.isSome ||
        s.dataLen.isSome) = s.carries := rfl
    rw [flags_of_some rfl, Flags.validate_mk8]
    simp only [hbits, Option.some.injEq, forall_eq', StreamHeader.frameFlags_isEmpty,
      Bool.not_eq_false']
    constructor
    · rintro ⟨-, halone, hstream⟩
      have hs := hstream s rfl
      cases term with
      | true => nomatch (Header.mk.inj (halone rfl)).1
      | false => exact ⟨by simp [hs], hs⟩
    · rintro ⟨hv, hs⟩
      rw [hs] at hv
      refine ⟨.inr (.inl rfl), fun ht => ?_, fun s' hs' => Option.some.inj hs' ▸ hs⟩
      rw [show term = true from ht] at hv
      cases hv

end Header

/-! ## Encoding -/

/-- A buffer that has been written up to some point. -/
def Writer.after (written out : Bytes) : Writer :=
  ⟨written ++ out.drop written.length, written.length⟩

/-- `put` writes right after what was written, where there is room. -/
theorem Writer.put_after (written : Bytes) {bytes out : Bytes}
    (h : written.length + bytes.length ≤ out.length) :
    (after written out).put bytes = .ok (after (written ++ bytes) out) := by
  have hbuf : (written ++ out.drop written.length).length = out.length := by
    rw [List.length_append, List.length_drop]
    omega
  unfold put after
  simp only [hbuf]
  rw [if_pos h, List.take_left, List.drop_append, List.drop_eq_nil_of_le (by omega),
    List.drop_drop, List.length_append]
  simp

/-- A field is written right after what was written, or not at all when it is absent. -/
theorem Header.putField_after {α : Type} {written out : Bytes} {field : Option α}
    {toBytes : α → Bytes} (h : written.length + (field.elim [] toBytes).length ≤ out.length) :
    putField (.after written out) field toBytes =
      .ok (.after (written ++ field.elim [] toBytes) out) := by
  cases field with
  | none => rw [Option.elim_none, List.append_nil]; rfl
  | some value => exact Writer.put_after _ h

/-- The fields of a stream part are written right after what was written. -/
theorem Header.encodeStream_after {written out : Bytes} {stream : Option StreamHeader}
    (h : written.length + (stream.elim [] StreamHeader.bytes).length ≤ out.length) :
    encodeStream (.after written out) stream =
      .ok (.after (written ++ stream.elim [] StreamHeader.bytes) out) := by
  cases stream with
  | none => rw [Option.elim_none, List.append_nil]; rfl
  | some s =>
    simp only [Option.elim_some, StreamHeader.bytes, List.length_append] at h ⊢
    refine Lib.bind_eq_ok.mpr ⟨_, Writer.put_after _ ?_, Lib.bind_eq_ok.mpr
      ⟨_, putField_after ?_, ?_⟩⟩
    · omega
    · rw [List.length_append]
      omega
    · rw [putField_after, List.append_assoc, List.append_assoc, List.append_assoc]
      rw [List.length_append, List.length_append]
      omega

namespace Header

/-- A field of fixed width takes its width, if it is there. -/
theorem length_field {α : Type} (field : Option α) {toBytes : α → Bytes} {n : ℕ}
    (h : ∀ a, (toBytes a).length = n) :
    (field.elim [] toBytes).length = if field.isSome then n else 0 := by
  cases field with
  | none => rfl
  | some a => exact h a

/-- The layout is as long as the flags say. -/
theorem length_bytes {h : Header} (hl : h.Legal) : h.bytes.length = h.flags.headerLen := by
  have hping := length_field h.ping Lib.length_be32
  have hpong := length_field h.pong fun pong => Lib.length_be32 pong.tEcho
  cases hs : h.stream with
  | none =>
    obtain ⟨-, -, -, hw, hd, hpi, hpo, -, hst⟩ :=
      Flags.mk8_spec false false false false false h.ping.isSome h.pong.isSome h.term
    rw [flags_of_none hs]
    simp only [bytes, hs, Option.elim_none, List.length_append, Lib.length_be16, hping, hpong,
      List.length_nil, Flags.headerLen, hw, hd, hpi, hpo, hst]
    rfl
  | some s =>
    obtain ⟨-, -, -, hw, hd, hpi, hpo, -, hst⟩ :=
      Flags.mk8_spec s.flags.syn s.flags.finRead s.flags.finWrite s.credit.isSome s.dataLen.isSome
        h.ping.isSome h.pong.isSome h.term
    have hcarries : (s.flags.syn || s.flags.finRead || s.flags.finWrite || s.credit.isSome ||
        s.dataLen.isSome) = true := hl.stream s hs
    have hcredit := length_field s.credit fun credit => Lib.length_be32 credit.get
    have hlen := length_field s.dataLen fun len => Lib.length_be16 len.get
    rw [flags_of_some hs]
    simp only [bytes, StreamHeader.bytes, hs, Option.elim_some, List.length_append,
      Lib.length_be16, hping, hpong, hcredit, hlen, Flags.headerLen, hw, hd, hpi, hpo, hst,
      hcarries, Flags.flagsLen, if_true]
    omega

/-- No header is longer than the longest. -/
theorem headerLen_le (f : Flags) : f.headerLen ≤ maxHeaderLen := by
  unfold Flags.headerLen Flags.flagsLen maxHeaderLen
  split_ifs <;> omega

/-- Encoding a header that a frame may have writes its layout. -/
theorem encode_ok {h : Header} (hl : h.Legal) {out : Bytes} (hout : out.length = maxHeaderLen) :
    h.encode out = .ok (h.bytes ++ out.drop h.bytes.length, h.bytes.length) := by
  obtain ⟨hv, hs⟩ := (legal_iff h).mp hl
  have hlen : h.bytes.length ≤ out.length := by
    rw [hout, length_bytes hl]
    exact headerLen_le _
  have hany : h.stream.any (fun stream => stream.frameFlags.isEmpty) = false := by
    cases hst : h.stream with
    | none => rfl
    | some s => exact hs s hst
  have hend : (Writer.after h.bytes out).at = h.flags.headerLen := length_bytes hl
  simp only [bytes, List.length_append] at hlen
  unfold encode
  simp only [hv, hany, Bool.not_true, Bool.false_eq_true, if_false]
  -- One write after the other: the flags, the stream part, `PING`, `PONG`.
  refine Lib.bind_eq_ok.mpr ⟨_, Writer.put_after [] ?_, Lib.bind_eq_ok.mpr
    ⟨_, encodeStream_after ?_, Lib.bind_eq_ok.mpr ⟨_, putField_after ?_, Lib.bind_eq_ok.mpr
      ⟨_, putField_after ?_, if_pos hend⟩⟩⟩⟩
  all_goals
    simp only [List.nil_append, List.length_append, List.length_nil]
    omega

/-- Whatever is encoded is a header that a frame may have. -/
theorem legal_of_encode {h : Header} {out : Bytes} {res : Bytes × ℕ} (he : h.encode out = .ok res) :
    h.Legal := by
  rw [legal_iff]
  unfold encode at he
  simp only at he
  split_ifs at he with hv hs
  refine ⟨by simpa using hv, fun s hst => ?_⟩
  rw [hst] at hs
  simpa using hs

end Header

/-! ## Decoding what was encoded -/

/-- Reading what was written at the reader's place. -/
theorem Reader.take_append (before bytes after : Bytes) {n : ℕ} (h : bytes.length = n) :
    take ⟨before ++ bytes ++ after, before.length⟩ n =
      .ok (bytes, ⟨before ++ bytes ++ after, (before ++ bytes).length⟩) := by
  subst h
  unfold take
  rw [if_pos (by simp only [List.length_append]; omega), List.append_assoc, List.drop_left,
    List.take_left, List.length_append]

namespace Header

/-- A field that was written is read back, and the reader is behind it. -/
theorem takeField_append {α β : Type} (before after : Bytes) (field : Option α)
    {toBytes : α → Bytes} (ofBytes : Bytes → β) {n : ℕ} (h : ∀ a, (toBytes a).length = n) :
    takeField ⟨before ++ field.elim [] toBytes ++ after, before.length⟩ field.isSome n ofBytes =
      .ok (field.map fun a => ofBytes (toBytes a), ⟨before ++ field.elim [] toBytes ++ after,
        (before ++ field.elim [] toBytes).length⟩) := by
  cases field with
  | none => simp [takeField]
  | some a =>
    rw [Option.elim_some, takeField, Option.isSome_some, if_pos rfl,
      Reader.take_append before (toBytes a) after (h a)]
    rfl

/-- The flags of a header announce its fields. -/
theorem flags_spec (h : Header) :
    h.flags.contains .ping = h.ping.isSome ∧ h.flags.contains .pong = h.pong.isSome ∧
      h.flags.contains .term = h.term := by
  cases hs : h.stream with
  | none =>
    obtain ⟨-, -, -, -, -, hpi, hpo, ht, -⟩ :=
      Flags.mk8_spec false false false false false h.ping.isSome h.pong.isSome h.term
    rw [flags_of_none hs]
    exact ⟨hpi, hpo, ht⟩
  | some s =>
    obtain ⟨-, -, -, -, -, hpi, hpo, ht, -⟩ :=
      Flags.mk8_spec s.flags.syn s.flags.finRead s.flags.finWrite s.credit.isSome s.dataLen.isSome
        h.ping.isSome h.pong.isSome h.term
    rw [flags_of_some hs]
    exact ⟨hpi, hpo, ht⟩

/-- A nonzero number is the nonzero form of its value. -/
theorem new32_get (n : NonZeroU32) : NonZeroU32.new n.get = some n := by
  rw [NonZeroU32.new, dif_neg n.ne_zero]

/-- A nonzero number is the nonzero form of its value. -/
theorem new16_get (n : NonZeroU16) : NonZeroU16.new n.get = some n := by
  rw [NonZeroU16.new, dif_neg n.ne_zero]

/-- The stream part is decoded from its layout. -/
theorem decodeStream_bytes {h : Header} (hl : h.Legal) {before : Bytes} (after : Bytes)
    (hbefore : before.length = 2) :
    decodeStream h.flags ⟨before ++ h.stream.elim [] StreamHeader.bytes ++ after, 2⟩ =
      .ok (.ok h.stream, ⟨before ++ h.stream.elim [] StreamHeader.bytes ++ after,
        (before ++ h.stream.elim [] StreamHeader.bytes).length⟩) := by
  cases hs : h.stream with
  | none =>
    obtain ⟨-, -, -, -, -, -, -, -, hst⟩ :=
      Flags.mk8_spec false false false false false h.ping.isSome h.pong.isSome h.term
    rw [flags_of_none hs, decodeStream, hst]
    simp [hbefore]
  | some s =>
    obtain ⟨hsyn, hfr, hfw, hw, hd, -, -, -, hst⟩ :=
      Flags.mk8_spec s.flags.syn s.flags.finRead s.flags.finWrite s.credit.isSome s.dataLen.isSome
        h.ping.isSome h.pong.isSome h.term
    have hcarries : (s.flags.syn || s.flags.finRead || s.flags.finWrite || s.credit.isSome ||
        s.dataLen.isSome) = true := hl.stream s hs
    -- The fields one after the other, each read up to where the next one begins.
    have hid := Reader.take_append before (Lib.be16 s.id.raw)
      (s.credit.elim [] (fun credit => Lib.be32 credit.get) ++
        s.dataLen.elim [] (fun len => Lib.be16 len.get) ++ after) (Lib.length_be16 _)
    have hcredit := takeField_append (before ++ Lib.be16 s.id.raw)
      (s.dataLen.elim [] (fun len => Lib.be16 len.get) ++ after) s.credit
      (fun b => NonZeroU32.new (Lib.ofBe32 b)) fun credit => Lib.length_be32 credit.get
    have hlen := takeField_append (before ++ Lib.be16 s.id.raw ++
      s.credit.elim [] (fun credit => Lib.be32 credit.get)) after s.dataLen
      (fun b => NonZeroU16.new (Lib.ofBe16 b)) fun len => Lib.length_be16 len.get
    rw [flags_of_some hs, decodeStream, hst, hcarries, if_pos rfl, hw, hd, hsyn, hfr, hfw]
    simp only [Option.elim_some, StreamHeader.bytes, List.append_assoc, hbefore]
      at hid hcredit hlen ⊢
    simp only [hid, bind, Except.bind, hcredit, hlen, Lib.ofBe32_be32, Lib.ofBe16_be16, new32_get,
      new16_get]
    -- No field is zero, so neither check of the decoder fails.
    have hsome : ∀ {α : Type} (field : Option α), field.map some ≠ some none ∧
        (field.map some).join = field := by
      intro α field
      cases field with
      | none => exact ⟨nofun, rfl⟩
      | some a => exact ⟨nofun, rfl⟩
    rw [if_neg (hsome s.credit).1, if_neg (hsome s.dataLen).1, (hsome s.credit).2,
      (hsome s.dataLen).2]
    rfl

/-- What was encoded is decoded. -/
theorem decode_bytes {h : Header} (hl : h.Legal) : decode h.flags h.bytes = .ok (.ok h) := by
  obtain ⟨hpi, hpo, ht⟩ := flags_spec h
  have hstream := decodeStream_bytes hl
    (h.ping.elim [] Lib.be32 ++ h.pong.elim [] fun pong => Lib.be32 pong.tEcho)
    (Lib.length_be16 h.flags.bits)
  have hping := takeField_append (Lib.be16 h.flags.bits ++ h.stream.elim [] StreamHeader.bytes)
    (h.pong.elim [] fun pong => Lib.be32 pong.tEcho) h.ping Lib.ofBe32 Lib.length_be32
  have hpong := takeField_append (Lib.be16 h.flags.bits ++ h.stream.elim [] StreamHeader.bytes ++
    h.ping.elim [] Lib.be32) [] h.pong (fun b => Pong.mk (Lib.ofBe32 b))
    fun pong => Lib.length_be32 pong.tEcho
  simp only [List.append_assoc, List.append_nil] at hstream hping hpong
  unfold decode
  rw [if_neg (not_not.mpr (length_bytes hl)), hpi, hpo, ht]
  simp only [bytes, List.append_assoc, Flags.flagsLen, hstream, bind, Except.bind, hping, hpong,
    Lib.ofBe32_be32]
  rw [if_neg (not_not.mpr rfl), Option.map_id', Option.map_id']

end Header

end Rammux
