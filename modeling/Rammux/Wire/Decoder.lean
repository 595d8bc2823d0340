import Rammux.Wire.Protocol

/-!
# The decoder

`RammuxCodec::poll_next_frame` of `src/wire/codec.rs` and its state, `DecoderState` of
`src/wire/codec/decoder.rs`. The transport answers each read by itself: it may have nothing, it may
fail, or it gives any number of the bytes that it has, at most as many as it is offered room for
(`ReadAnswer`). A turn of the loop is one such read (`DecoderState.turn`).

Between two reads the decoder holds the bytes of a part of a frame, and its state is a function of
these bytes (`DecoderState.Holds`). So a turn that yields a frame yields the one that the protocol
sees in the bytes held, the bytes read, and whatever comes after them.
-/

namespace Rammux

/-- A point in time, in nanoseconds. -/
abbrev Instant := ℕ

/-- The failures of a transport. -/
inductive IoError where
  | unexpectedEof
  | writeZero
  | timedOut
  /-- Whatever else the transport reports. -/
  | transport
  deriving DecidableEq, Repr

/-- Why a connection fails. -/
inductive ErrorKind where
  | io (error : IoError)
  | decode (error : DecodeError)
  | stream (violation : StreamViolation)
  | alreadyDowngraded
  | poisoned
  deriving DecidableEq

/-- Whether the connection was used after it stopped working. -/
def ErrorKind.isMisuse : ErrorKind → Bool
  | .alreadyDowngraded | .poisoned => true
  | _ => false

/-- A loop goes round, or ends. -/
inductive Turn (α : Type) where
  | «continue»
  | «break» (value : α)

/-! ## Reading from the transport -/

/-- How the transport answers a read. -/
inductive ReadAnswer where
  | pending
  | fail
  /-- It gives up to `n + 1` bytes, and then it is `now`. -/
  | take (n : ℕ) (now : Instant)
  deriving DecidableEq

/-- The time after an answer. -/
def ReadAnswer.now : ReadAnswer → Instant
  | .take _ now => now
  | _ => 0

/-- Whether the read returns bytes, or the end. -/
def ReadAnswer.isTake : ReadAnswer → Bool
  | .take .. => true
  | _ => false

/-- What there is to read from a transport. -/
structure Inbox where
  bytes : Bytes
  /-- Whether no more will come. -/
  eof : Bool

/-- `poll_read` with room for some bytes. No bytes are the end of the transport. -/
def Inbox.read (io : Inbox) (room : ℕ) : ReadAnswer → Poll (Except IoError Bytes) × Inbox
  | .pending => (.pending, io)
  | .fail => (.ready (.error .transport), io)
  | .take n _ =>
    if io.bytes.isEmpty && !io.eof then (.pending, io)
    else
      let k := min (n + 1) room
      (.ready (.ok (io.bytes.take k)), { io with bytes := io.bytes.drop k })

/-! ## The decoder -/

/-- A frame other than `TERM`. -/
structure InboundFrame where
  header : Header
  /-- Payload of the frame, empty if there is no `DATA`. -/
  data : Bytes
  /-- Time when the whole header was read. -/
  headerAt : Instant
  deriving DecidableEq

/-- A frame read from the transport. -/
inductive DecodedFrame where
  | frame (frame : InboundFrame)
  | terminate
  deriving DecidableEq

/-- What is on the wire for a frame. -/
def DecodedFrame.item : DecodedFrame → Item
  | .frame f => .frame f.header f.data
  | .terminate => .terminate

/-- The state of the decoder. The buffers are as far as they are filled. -/
inductive DecoderState where
  /-- Until the flags are read, `need` is just the length of the flags. -/
  | readingHeader (buffer : Bytes) (need : ℕ) (flags : Option Flags)
  | readingData (header : Header) (headerAt : Instant) (capacity : ℕ) (buffer : Bytes)

namespace DecoderState

/-- The state between two frames. -/
def default : DecoderState := .readingHeader [] Flags.flagsLen none

/-- The room that the next read is offered. -/
def room : DecoderState → Except Panic ℕ
  | .readingHeader buffer need _ =>
    if buffer.length ≤ need ∧ need ≤ maxHeaderLen then .ok (need - buffer.length)
    else .error .outOfRange
  | .readingData _ _ capacity buffer =>
    if buffer.length ≤ capacity then .ok (capacity - buffer.length) else .error .outOfRange

/-- What a turn comes to: a frame, the end, or an error. -/
abbrev Outcome := Option (Except ErrorKind DecodedFrame)

/-- The whole header is read. -/
def headerRead (limit : ℕ) (now : Instant) (flags : Flags) (buffer : Bytes) (need : ℕ) :
    Except Panic (Turn Outcome × DecoderState) := do
  match ← Header.decode flags (buffer.take need) with
  | .error e =>
    return (.break (some (.error (.decode e))), .readingHeader buffer need (some flags))
  | .ok header =>
    if header.term then return (.break (some (.ok .terminate)), default)
    else
      match header.stream.bind StreamHeader.dataLen with
      -- A frame without data is complete with its header.
      | none => return (.break (some (.ok (.frame ⟨header, [], now⟩))), default)
      | some len =>
        if limit < len.get.toNat then
          return (.break (some (.error (.decode .exceedsLimit))),
            .readingHeader buffer need (some flags))
        else return (.continue, .readingData header now len.get.toNat [])

/-- One turn of the loop, with the bytes that were read. -/
def turn (limit : ℕ) (now : Instant) (d : DecoderState) (chunk : Bytes) :
    Except Panic (Turn Outcome × DecoderState) :=
  match d with
  | .readingHeader buffer need flags =>
    if chunk = [] then
      .ok (.break (if buffer = [] then none else some (.error (.io .unexpectedEof))), d)
    else
      let buffer := buffer ++ chunk
      if buffer.length < need then .ok (.continue, .readingHeader buffer need flags)
      else
        match flags with
        | some flags => headerRead limit now flags buffer need
        | none =>
          -- Only the flags are read, now we know how much more to read.
          match Flags.validate (Lib.ofBe16 (buffer.take 2)) with
          | .error e =>
            .ok (.break (some (.error (.decode e))), .readingHeader buffer need none)
          | .ok flags =>
            let need := flags.headerLen
            if buffer.length < need then .ok (.continue, .readingHeader buffer need (some flags))
            else headerRead limit now flags buffer need
  | .readingData header headerAt capacity buffer =>
    if chunk = [] then .ok (.break (some (.error (.io .unexpectedEof))), d)
    else
      let buffer := buffer ++ chunk
      if buffer.length = capacity then
        .ok (.break (some (.ok (.frame ⟨header, buffer, headerAt⟩))), default)
      else .ok (.continue, .readingData header headerAt capacity buffer)

end DecoderState

/-- `poll_next_frame`, with the answers of the transport. Returns the answers that are left. -/
def pollNextFrame (limit : ℕ) (d : DecoderState) (io : Inbox) : List ReadAnswer →
    Except Panic (Poll DecoderState.Outcome × DecoderState × Inbox × List ReadAnswer)
  | [] => .ok (.pending, d, io, [])
  | answer :: answers => do
    -- A read asks for no more than the header or the payload still needs.
    let room ← d.room
    match io.read room answer with
    | (.pending, io) => return (.pending, d, io, answers)
    | (.ready (.error e), io) => return (.ready (some (.error (.io e))), d, io, answers)
    | (.ready (.ok chunk), io) =>
      match ← d.turn limit answer.now chunk with
      | (.continue, d) => pollNextFrame limit d io answers
      | (.break outcome, d) => return (.ready outcome, d, io, answers)

/-! ## What the decoder holds -/

namespace DecoderState

open Protocol

/-- The decoder holds the beginning of a frame. -/
inductive Holds (limit : ℕ) : DecoderState → Bytes → Prop
  | flags {buffer : Bytes} (hlen : buffer.length < Flags.flagsLen) :
    Holds limit (.readingHeader buffer Flags.flagsLen none) buffer
  | header {flags : Flags} {b₀ b₁ : UInt8} {bytes : Bytes}
      (hflags : Lib.ofBe16 [b₀, b₁] = flags.bits)
      (hv : flagViolation flags.bits = none) (hlen : bytes.length < widths flags.bits fields) :
    Holds limit (.readingHeader (b₀ :: b₁ :: bytes) flags.headerLen (some flags))
      (b₀ :: b₁ :: bytes)
  | data {flags : UInt16} {b₀ b₁ : UInt8} {bytes : Bytes} {len : ℕ} (headerAt : Instant)
      (buffer : Bytes) (hflags : Lib.ofBe16 [b₀, b₁] = flags)
      (hv : flagViolation flags = none) (hlen : bytes.length = widths flags fields)
      (hok : violation limit flags bytes = none)
      (hdata : Field.len.value flags bytes = some len) (hbuffer : buffer.length < len) :
    Holds limit (.readingData (Protocol.header flags bytes) headerAt len buffer)
      (b₀ :: b₁ :: bytes ++ buffer)

/-- What a turn comes to is what the protocol sees in the bytes held and those that follow. -/
def Yields (limit : ℕ) (held more : Bytes) : Turn Outcome → DecoderState → Prop
  | .continue, d => Holds limit d held
  | .break (some (.ok f)), d => d = default ∧ parse limit (held ++ more) = .item f.item more
  | .break (some (.error (.decode e))), _ => parse limit (held ++ more) = .error e
  | .break _, _ => False

/-- The flags of a string that has some. -/
theorem parse_cons {limit : ℕ} {flags : UInt16} {b₀ b₁ : UInt8}
    (hflags : Lib.ofBe16 [b₀, b₁] = flags) (bytes : Bytes) :
    parse limit (b₀ :: b₁ :: bytes) =
      match flagViolation flags with
      | some e => .error e
      | none => parseFields limit flags bytes := by
  rw [← hflags]
  rfl

/-- When the bytes of a header are there, the decoder answers as the protocol does, whatever
follows. -/
theorem headerRead_yields (limit : ℕ) (now : Instant) {flags : Flags} {b₀ b₁ : UInt8}
    {bytes : Bytes} (hflags : Lib.ofBe16 [b₀, b₁] = flags.bits)
    (hv : flagViolation flags.bits = none) (hlen : bytes.length = widths flags.bits fields) :
    ∃ t d, headerRead limit now flags (b₀ :: b₁ :: bytes) flags.headerLen = .ok (t, d) ∧
      ∀ more, Yields limit (b₀ :: b₁ :: bytes) more t d := by
  -- The buffer is the header and nothing else: a read asks for no more than is missing.
  have htake : (b₀ :: b₁ :: bytes).take flags.headerLen = b₀ :: b₁ :: bytes := by
    refine List.take_of_length_le ?_
    rw [Header.headerLen_eq, ← hlen, Nat.add_comm]
    rfl
  -- The protocol checks the flags first, and they were found right when they were read.
  have hparse : ∀ more, parse limit (b₀ :: b₁ :: bytes ++ more) =
      parseFields limit flags.bits (bytes ++ more) := by
    intro more
    rw [List.cons_append, List.cons_append, parse_cons hflags, hv]
  have hviolation := violation_eq limit flags.bits bytes
  simp only [parseFields_append hlen] at hparse
  unfold headerRead
  rw [htake, Header.decode_eq hlen]
  cases hz : zeroViolation flags.bits bytes with
  | some e =>
    -- A field that must not be zero is.
    rw [hz] at hviolation
    simp only [hviolation] at hparse
    exact ⟨_, _, rfl, hparse⟩
  | none =>
    rw [hz] at hviolation
    simp only [bind, Except.bind, pure, Except.pure, header_dataLen]
    by_cases ht : has flags.bits 0x0080 = true
    · -- `TERM` has no payload.
      have hnone := value_of_term hv ht bytes .len
      have hterm : (Protocol.header flags.bits bytes).term = true := ht
      rw [hnone, Option.getD_none, if_neg (Nat.not_lt_zero _)] at hviolation
      simp only [hviolation, hnone, ht] at hparse
      rw [if_pos hterm]
      exact ⟨_, _, rfl, fun more => ⟨rfl, hparse more⟩⟩
    have hterm : ¬ (Protocol.header flags.bits bytes).term = true := ht
    rw [if_neg hterm]
    rw [Bool.not_eq_true] at ht
    cases hl : Field.len.value flags.bits bytes with
    | none =>
      rw [hl, Option.getD_none, if_neg (Nat.not_lt_zero _)] at hviolation
      simp only [hviolation, hl, ht] at hparse
      exact ⟨_, _, rfl, fun more => ⟨rfl, hparse more⟩⟩
    | some len =>
      have hlt : len < 2^16 := value_lt flags.bits bytes .len len hl
      have hpos : len ≠ 0 := by
        rintro rfl
        rw [zeroViolation, hl] at hz
        split_ifs at hz
        exact absurd rfl ‹_›
      obtain ⟨n, hn⟩ := Option.ne_none_iff_exists'.mp (mt (Header.new16_eq_none hlt).mp hpos)
      have hget : n.get.toNat = len := by
        rw [NonZeroU16.get_of_new hn, UInt16.toNat_ofNat_of_lt' hlt]
      rw [Option.bind_some, hn]
      simp only [hget]
      rw [hl, Option.getD_some] at hviolation
      by_cases hlimit : limit < len
      · -- The payload is longer than the limit allows.
        rw [if_pos hlimit] at hviolation ⊢
        simp only [hviolation] at hparse
        exact ⟨_, _, rfl, hparse⟩
      · -- The header is right: the payload is to be read.
        rw [if_neg hlimit] at hviolation ⊢
        refine ⟨_, _, rfl, fun more => ?_⟩
        have hholds := Holds.data now [] hflags hv hlen hviolation hl
          (Nat.pos_of_ne_zero hpos)
        rw [List.append_nil] at hholds
        exact hholds

/-- A turn that reads something yields what the protocol says, and does not panic. -/
theorem turn_yields {limit room : ℕ} {d : DecoderState} {pending chunk : Bytes}
    (hd : Holds limit d pending) (hroom : d.room = .ok room) (hne : chunk ≠ [])
    (hle : chunk.length ≤ room) (now : Instant) : ∃ t d', d.turn limit now chunk = .ok (t, d') ∧
      ∀ more, Yields limit (pending ++ chunk) more t d' := by
  cases hd with
  | @flags buffer hlen =>
    simp only [DecoderState.room] at hroom
    rw [if_pos ⟨hlen.le, by decide⟩] at hroom
    cases hroom
    unfold turn
    simp only [if_neg hne]
    by_cases hshort : (pending ++ chunk).length < Flags.flagsLen
    · rw [if_pos hshort]
      exact ⟨_, _, rfl, fun _ => Holds.flags hshort⟩
    rw [if_neg hshort]
    -- Both flag bytes are there, and nothing else.
    have htwo : (pending ++ chunk).length = 2 := by
      rw [List.length_append] at hshort ⊢
      simp only [Flags.flagsLen] at hlen hle hshort
      omega
    obtain ⟨b₀, b₁, hbytes⟩ := List.length_eq_two.mp htwo
    rw [hbytes, List.take_of_length_le (by rfl), Header.validate_eq]
    cases hv : flagViolation (Lib.ofBe16 [b₀, b₁]) with
    | some e =>
      refine ⟨_, _, rfl, fun more => ?_⟩
      simp only [Yields, List.cons_append]
      rw [parse_cons rfl, hv]
    | none =>
      have hneed : (Flags.mk (Lib.ofBe16 [b₀, b₁])).headerLen =
          2 + widths (Lib.ofBe16 [b₀, b₁]) fields := Header.headerLen_eq _
      simp only [List.length_cons, List.length_nil]
      by_cases hmore : 2 < (Flags.mk (Lib.ofBe16 [b₀, b₁])).headerLen
      · rw [if_pos hmore]
        refine ⟨_, _, rfl, fun _ => Holds.header rfl hv ?_⟩
        show 0 < widths (Lib.ofBe16 [b₀, b₁]) fields
        omega
      · rw [if_neg hmore]
        refine headerRead_yields limit now rfl hv ?_
        show 0 = widths (Lib.ofBe16 [b₀, b₁]) fields
        omega
  | @header flags b₀ b₁ bytes hflags hv hlen =>
    simp only [DecoderState.room] at hroom
    split_ifs at hroom with hin
    cases hroom
    have hneed := Header.headerLen_eq flags
    unfold turn
    simp only [if_neg hne]
    simp only [List.cons_append, List.length_cons, List.length_append] at hle hin ⊢
    by_cases hshort : bytes.length + chunk.length + 1 + 1 < flags.headerLen
    · rw [if_pos hshort]
      refine ⟨_, _, rfl, fun _ => Holds.header hflags hv ?_⟩
      rw [List.length_append]
      simp only [Flags.flagsLen] at hneed
      omega
    · rw [if_neg hshort]
      refine headerRead_yields limit now hflags hv ?_
      rw [List.length_append]
      simp only [Flags.flagsLen] at hneed
      omega
  | @data flags b₀ b₁ bytes len headerAt buffer hflags hv hlen hok hdata hbuffer =>
    simp only [DecoderState.room] at hroom
    rw [if_pos hbuffer.le] at hroom
    cases hroom
    unfold turn
    simp only [if_neg hne]
    by_cases hfull : (buffer ++ chunk).length = len
    · -- The last bytes of the payload.
      rw [if_pos hfull]
      have hterm : has flags 0x0080 = false := by
        by_contra ht
        rw [value_of_term hv (by simpa using ht)] at hdata
        cases hdata
      refine ⟨_, _, rfl, fun more => ⟨rfl, ?_⟩⟩
      rw [List.append_assoc, List.append_assoc, List.cons_append, List.cons_append,
        parse_cons hflags, hv]
      simp only
      rw [parseFields_append hlen, hok, hdata, hterm, ← List.append_assoc buffer]
      simp only [Option.getD_some, ← hfull, List.length_append, List.take_left', List.drop_left']
      rw [if_neg (by omega)]
      rfl
    · rw [if_neg hfull, List.append_assoc]
      refine ⟨_, _, rfl, fun _ => Holds.data headerAt _ hflags hv hlen hok hdata ?_⟩
      rw [List.length_append] at hfull ⊢
      omega

/-- The decoder always asks for something. -/
theorem Holds.room_pos {limit : ℕ} {d : DecoderState} {pending : Bytes}
    (hd : Holds limit d pending) :
    ∃ room, d.room = .ok room ∧ 0 < room := by
  cases hd with
  | flags hlen => exact ⟨_, if_pos ⟨hlen.le, by decide⟩, Nat.sub_pos_of_lt hlen⟩
  | @header flags b₀ b₁ bytes hflags hv hlen =>
    have hlt : (b₀ :: b₁ :: bytes).length < flags.headerLen := by
      rw [Header.headerLen_eq, List.length_cons, List.length_cons]
      simp only [Flags.flagsLen]
      omega
    exact ⟨_, if_pos ⟨hlt.le, Header.headerLen_le _⟩, Nat.sub_pos_of_lt hlt⟩
  | data headerAt buffer hflags hv hlen hok hdata hbuffer =>
    exact ⟨_, if_pos hbuffer.le, Nat.sub_pos_of_lt hbuffer⟩

/-- What the decoder holds is less than a frame. -/
theorem Holds.short {limit : ℕ} {d : DecoderState} {pending : Bytes} (hd : Holds limit d pending) :
    parse limit pending = .short := by
  cases hd with
  | flags hlen =>
    unfold parse
    split
    · exact absurd hlen (by simp [Flags.flagsLen])
    · rfl
  | header hflags hv hlen =>
    rw [parse_cons hflags, hv]
    simp only [parseFields]
    rw [if_pos hlen]
  | data headerAt buffer hflags hv hlen hok hdata hbuffer =>
    rw [List.cons_append, List.cons_append, parse_cons hflags, hv]
    simp only
    rw [parseFields_append hlen, hok, hdata]
    simp only [Option.getD_some]
    rw [if_pos hbuffer]

/-- A new decoder holds nothing. -/
theorem holds_default (limit : ℕ) : Holds limit default [] := .flags (by decide)

/-- At the end of the transport the decoder ends, or complains if it holds something. -/
theorem Holds.turn_nil {limit : ℕ} {d : DecoderState} {pending : Bytes} (hd : Holds limit d pending)
    (now : Instant) : d.turn limit now [] =
      .ok (.break (if pending = [] then none else some (.error (.io .unexpectedEof))), d) := by
  cases hd with
  | flags hlen => rfl
  | header hflags hv hlen => rfl
  | data headerAt buffer hflags hv hlen hok hdata hbuffer => rfl

/-- What a call of `poll_next_frame` comes to, when it holds the bytes `held` of a frame: those that
it held before, and those that it has read. -/
def Called (limit : ℕ) (held : Bytes) (io : Inbox) : Poll Outcome → DecoderState → Prop
  | .pending, d => Holds limit d held
  | .ready (some (.ok f)), d =>
    d = default ∧ ∀ more, parse limit (held ++ more) = .item f.item more
  | .ready (some (.error (.decode e))), _ => ∀ more, parse limit (held ++ more) = .error e
  | .ready (some (.error (.io .transport))), d => Holds limit d held
  | .ready (some (.error (.io .unexpectedEof))), _ =>
    held ≠ [] ∧ parse limit held = .short ∧ io.bytes = [] ∧ io.eof = true
  | .ready none, _ => held = [] ∧ io.bytes = [] ∧ io.eof = true
  | _, _ => False

/-- The turn that ends a call says what the call comes to. -/
theorem Yields.called {limit : ℕ} {held : Bytes} {outcome : Outcome} {d : DecoderState}
    (h : ∀ more, Yields limit held more (.break outcome) d) (io : Inbox) :
    Called limit held io (.ready outcome) d ∧ outcome ≠ some (.error (.io .transport)) := by
  match outcome, h with
  | none, h => exact (h []).elim
  | some (.ok f), h => exact ⟨⟨(h []).1, fun more => (h more).2⟩, nofun⟩
  | some (.error (.decode e)), h => exact ⟨h, nofun⟩
  | some (.error (.io e)), h => exact (h []).elim
  | some (.error (.stream v)), h => exact (h []).elim
  | some (.error .alreadyDowngraded), h => exact (h []).elim
  | some (.error .poisoned), h => exact (h []).elim

/-- The reads that are answered with bytes, or the end. -/
def takes (answers : List ReadAnswer) : ℕ := answers.countP ReadAnswer.isTake

/-- One more answer is at most one more read that returns bytes, or the end. -/
theorem takes_cons_le (answer : ReadAnswer) (answers : List ReadAnswer) :
    takes (answer :: answers) ≤ takes answers + 1 := by
  unfold takes
  rw [List.countP_cons]
  split_ifs <;> omega

/-- What a call does, with the bytes that it reads and the answers that it uses. -/
structure Call (limit : ℕ) (pending : Bytes) (io : Inbox) (answers : List ReadAnswer)
    (res : Poll Outcome) (d : DecoderState) (io' : Inbox) (left : List ReadAnswer) (chunk : Bytes) :
    Prop where
  bytes : io.bytes = chunk ++ io'.bytes
  eof : io'.eof = io.eof
  called : Called limit (pending ++ chunk) io' res d
  suffix : left <:+ answers
  used : answers ≠ [] → left.length < answers.length
  fail : res = .ready (some (.error (.io .transport))) → .fail ∈ answers
  /-- With everything there to read, each answer gives a byte, or the end. -/
  paid : io.eof = true → (res = .pending ∨ ∃ f, res = .ready (some (.ok f))) →
    takes answers ≤ takes left + chunk.length

/-- A call that reads something before it goes on as another call does. -/
theorem Call.cons {limit : ℕ} {pending chunk chunk' : Bytes} {io io₁ io' : Inbox}
    {answer : ReadAnswer} {answers left : List ReadAnswer} {res : Poll Outcome} {d : DecoderState}
    (h : Call limit (pending ++ chunk) io₁ answers res d io' left chunk')
    (hbytes : io.bytes = chunk ++ io₁.bytes) (heof : io₁.eof = io.eof) (hne : chunk ≠ []) :
    Call limit pending io (answer :: answers) res d io' left (chunk ++ chunk') where
  bytes := by rw [hbytes, h.bytes, List.append_assoc]
  eof := h.eof.trans heof
  called := by rw [← List.append_assoc]; exact h.called
  suffix := h.suffix.trans (List.suffix_cons _ _)
  used _ := Nat.lt_succ_of_le h.suffix.length_le
  fail hres := List.mem_cons_of_mem _ (h.fail hres)
  paid he hres := by
    have hpaid := h.paid (heof.trans he) hres
    have hpos := List.length_pos_iff.mpr hne
    have hcons := takes_cons_le answer answers
    rw [List.length_append]
    omega

/-- Answers that are enough to read everything are enough for the rest, after a call that does not
end. -/
theorem Call.enough {limit calls : ℕ} {pending chunk : Bytes} {io io' : Inbox}
    {answers left : List ReadAnswer} {res : Poll Outcome} {d : DecoderState}
    (h : Call limit pending io answers res d io' left chunk) (heof : io.eof = true)
    (hres : res = .pending ∨ ∃ f, res = .ready (some (.ok f)))
    (hlen : answers.length ≤ calls + 1) (htakes : io.bytes.length < takes answers) :
    left.length ≤ calls ∧ io'.bytes.length < takes left := by
  have hne : answers ≠ [] := by
    rintro rfl
    exact absurd htakes (Nat.not_lt_zero _)
  have hused := h.used hne
  have hpaid := h.paid heof hres
  rw [h.bytes, List.length_append] at htakes
  exact ⟨by omega, by omega⟩

/-- Every call of `poll_next_frame` returns, and what it returns is what the protocol sees. -/
theorem pollNextFrame_call {limit : ℕ} {d : DecoderState} {pending : Bytes}
    (hd : Holds limit d pending) (io : Inbox) (answers : List ReadAnswer) :
    ∃ res d' io' left chunk, pollNextFrame limit d io answers = .ok (res, d', io', left) ∧
      Call limit pending io answers res d' io' left chunk := by
  -- By induction on what the transport answers: the loop goes on as long as it yields bytes.
  induction answers generalizing d pending io with
  | nil =>
    refine ⟨_, _, _, _, [], rfl, rfl, rfl, ?_, List.suffix_rfl, fun h => absurd rfl h, nofun,
      fun _ _ => le_rfl⟩
    rw [List.append_nil]
    exact hd
  | cons answer answers ih =>
    -- A decoder that waits has room, so a read of zero bytes is the end and nothing else.
    obtain ⟨room, hroom, hpos⟩ := hd.room_pos
    unfold pollNextFrame
    rw [hroom]
    have hsuffix : answers <:+ answer :: answers := List.suffix_cons _ _
    have hused : answer :: answers ≠ [] → answers.length < (answer :: answers).length :=
      fun _ => Nat.lt_succ_self _
    have hheld : Holds limit d (pending ++ []) := by
      rw [List.append_nil]
      exact hd
    cases answer with
    | pending =>
      exact ⟨_, _, _, _, [], rfl, rfl, rfl, hheld, hsuffix, hused, nofun, fun _ _ => le_rfl⟩
    | fail =>
      exact ⟨_, _, _, _, [], rfl, rfl, rfl, hheld, hsuffix, hused, fun _ => List.mem_cons_self,
        fun _ h => by simp at h⟩
    | take n now =>
      by_cases hwait : (io.bytes.isEmpty && !io.eof) = true
      · -- The peer has not sent more yet.
        simp only [Inbox.read, if_pos hwait]
        refine ⟨_, _, _, _, [], rfl, rfl, rfl, hheld, hsuffix, hused, nofun, fun he => ?_⟩
        rw [he] at hwait
        simp at hwait
      simp only [Inbox.read, if_neg hwait]
      have hbytes := (List.take_append_drop (min (n + 1) room) io.bytes).symm
      by_cases hend : io.bytes = []
      · -- The end of the transport.
        have heof : io.eof = true := by simpa [hend] using hwait
        simp only [hend, List.take_nil, List.drop_nil, bind, Except.bind, hd.turn_nil]
        refine ⟨_, _, _, _, [], rfl, hend, rfl, ?_, hsuffix, hused, ?_, fun _ => ?_⟩
        · rw [List.append_nil]
          split_ifs with hp
          · exact ⟨hp, rfl, heof⟩
          · exact ⟨hp, hd.short, rfl, heof⟩
        · split_ifs <;> simp
        · split_ifs <;> simp
      -- Some bytes were read, and no more than there was room for.
      have hchunk : io.bytes.take (min (n + 1) room) ≠ [] := by
        rw [Ne, List.take_eq_nil_iff]
        rintro (h | h)
        · omega
        · exact hend h
      have hle : (io.bytes.take (min (n + 1) room)).length ≤ room :=
        (List.length_take_le _ _).trans (Nat.min_le_right _ _)
      obtain ⟨t, d', hturn, hy⟩ := turn_yields hd hroom hchunk hle now
      simp only [bind, Except.bind, ReadAnswer.now, hturn]
      cases t with
      | «continue» =>
        -- The frame is not complete: the loop reads on.
        obtain ⟨res, d'', io', left, chunk', hcall, hspec⟩ := ih (hy []) ⟨io.bytes.drop _, io.eof⟩
        exact ⟨_, _, _, _, _, hcall, hspec.cons hbytes rfl hchunk⟩
      | «break» outcome =>
        obtain ⟨hcalled, hok⟩ := Yields.called hy ⟨io.bytes.drop (min (n + 1) room), io.eof⟩
        refine ⟨_, _, _, _, _, rfl, hbytes, rfl, hcalled, hsuffix, hused, ?_, fun _ _ => ?_⟩
        · rintro ⟨⟩
          exact absurd rfl hok
        · exact (takes_cons_le _ _).trans (Nat.add_le_add_left (List.length_pos_iff.mpr hchunk) _)

end DecoderState

/-! ## Repeated calls -/

/-- What repeated calls of `poll_next_frame` yield. -/
structure Decoded where
  /-- The frames, each with what was left to read when it was yielded. -/
  frames : List (DecodedFrame × Bytes)
  /-- The end of the transport, or the first error, once there was one. -/
  stop : Option (Option ErrorKind)

/-- Calls `poll_next_frame` up to `calls` times, until the transport ends or there is an error. -/
def decodeAll (limit : ℕ) : ℕ → DecoderState → Inbox → List ReadAnswer → Except Panic Decoded
  | 0, _, _, _ => .ok ⟨[], none⟩
  | calls + 1, d, io, answers => do
    let (res, d, io, answers) ← pollNextFrame limit d io answers
    match res with
    | .pending => decodeAll limit calls d io answers
    | .ready none => return ⟨[], some none⟩
    | .ready (some (.error e)) => return ⟨[], some (some e)⟩
    | .ready (some (.ok f)) => do
      let r ← decodeAll limit calls d io answers
      return ⟨(f, io.bytes) :: r.frames, r.stop⟩

namespace Protocol

/-- The error that the way a string ends is reported as. -/
def reported : Lib.Ending DecodeError → Option ErrorKind
  | .clean => none
  | .cut => some (.io .unexpectedEof)
  | .error e => some (.decode e)

end Protocol

namespace Decoded

open Protocol DecoderState

/-- The frames as they are on the wire. -/
def items (r : Decoded) : List (Item × Bytes) := r.frames.map fun f => (f.1.item, f.2)

/-- Repeated calls yield what the protocol sees in a string: its frames in order, each when exactly
the bytes up to its end are read, and then how it ends. They may not have come that far yet, or the
transport may have failed. -/
structure Follows (r : Decoded) (limit : ℕ) (bytes : Bytes) : Prop where
  frames : r.items <+: ((grammar limit).parseAll bytes).1
  stop : ∀ e, r.stop = some e → e = some (.io .transport) ∨
    (r.items = ((grammar limit).parseAll bytes).1 ∧
      e = reported ((grammar limit).parseAll bytes).2)

/-- A frame that is decoded first is the first frame of the bytes. -/
theorem Follows.cons {r : Decoded} {limit : ℕ} {bytes rest : Bytes} {f : DecodedFrame}
    (h : r.Follows limit rest) (hparse : parse limit bytes = .item f.item rest) :
    Follows ⟨(f, rest) :: r.frames, r.stop⟩ limit bytes := by
  have hall := Lib.Grammar.parseAll_item (g := grammar limit) hparse
  refine ⟨?_, fun e he => ?_⟩
  · rw [hall]
    exact List.cons_prefix_cons.mpr ⟨rfl, h.frames⟩
  · rw [hall]
    refine (h.stop e he).imp_right fun ⟨hitems, herr⟩ => ⟨?_, herr⟩
    exact congrArg (List.cons _) hitems

/-- Repeated calls, from whatever the decoder holds. -/
theorem decodeAll_follows {limit : ℕ} (calls : ℕ) {d : DecoderState} {pending : Bytes}
    (hd : Holds limit d pending) (io : Inbox) (heof : io.eof = true) (answers : List ReadAnswer) :
    ∃ r, decodeAll limit calls d io answers = .ok r ∧ r.Follows limit (pending ++ io.bytes) ∧
      (.fail ∉ answers → r.stop ≠ some (some (.io .transport)) ∧
        (answers.length ≤ calls → io.bytes.length < takes answers → r.stop ≠ none)) := by
  induction calls generalizing d pending io answers with
  | zero =>
    refine ⟨_, rfl, ⟨List.nil_prefix, nofun⟩, fun _ => ⟨nofun, fun hlen htakes => ?_⟩⟩
    rw [List.length_eq_zero_iff.mp (Nat.le_zero.mp hlen)] at htakes
    exact absurd htakes (Nat.not_lt_zero _)
  | succ calls ih =>
    obtain ⟨res, d', io', left, chunk, hcall, hspec⟩ := pollNextFrame_call hd io answers
    have hbytes : pending ++ io.bytes = pending ++ chunk ++ io'.bytes := by
      rw [hspec.bytes, List.append_assoc]
    have heof' := hspec.eof.trans heof
    have hcalled := hspec.called
    unfold decodeAll
    rw [hcall, hbytes]
    simp only [bind, Except.bind]
    match res, hspec, hcalled with
    | .pending, hspec, hholds =>
      obtain ⟨r, hr, hf, hstop⟩ := ih hholds io' heof' left
      refine ⟨r, hr, hf, fun hfail => ?_⟩
      obtain ⟨hok, hstop⟩ := hstop fun hmem => hfail (hspec.suffix.subset hmem)
      refine ⟨hok, fun hlen htakes => ?_⟩
      obtain ⟨hlen', htakes'⟩ := hspec.enough heof (.inl rfl) hlen htakes
      exact hstop hlen' htakes'
    | .ready (some (.ok f)), hspec, ⟨hdef, hparse⟩ =>
      obtain ⟨r, hr, hf, hstop⟩ := ih (hdef ▸ holds_default limit) io' heof' left
      refine ⟨_, by rw [hr]; rfl, hf.cons (hparse io'.bytes), fun hfail => ?_⟩
      obtain ⟨hok, hstop⟩ := hstop fun hmem => hfail (hspec.suffix.subset hmem)
      refine ⟨hok, fun hlen htakes => ?_⟩
      obtain ⟨hlen', htakes'⟩ := hspec.enough heof (.inr ⟨f, rfl⟩) hlen htakes
      exact hstop hlen' htakes'
    | .ready none, hspec, ⟨hheld, hrest, _⟩ =>
      -- The transport ended between two frames.
      have hall := Lib.Grammar.parseAll_short (g := grammar limit) (s := []) rfl
      refine ⟨_, rfl, ⟨List.nil_prefix, ?_⟩, fun _ => ⟨nofun, fun _ _ => nofun⟩⟩
      rintro _ ⟨⟩
      rw [hheld, hrest, List.append_nil, hall]
      exact .inr ⟨rfl, rfl⟩
    | .ready (some (.error (.decode e))), hspec, hparse =>
      -- The protocol sees the same error, since no byte behind it matters.
      have hall := Lib.Grammar.parseAll_error (g := grammar limit) (hparse io'.bytes)
      refine ⟨_, rfl, ⟨List.nil_prefix, ?_⟩, fun _ => ⟨nofun, fun _ _ => nofun⟩⟩
      rintro _ ⟨⟩
      rw [hall]
      exact .inr ⟨rfl, rfl⟩
    | .ready (some (.error (.io .unexpectedEof))), hspec, ⟨hheld, hshort, hrest, _⟩ =>
      -- The transport ended within a frame.
      have hall := Lib.Grammar.parseAll_short (g := grammar limit) hshort
      refine ⟨_, rfl, ⟨List.nil_prefix, ?_⟩, fun _ => ⟨nofun, fun _ _ => nofun⟩⟩
      rintro _ ⟨⟩
      rw [hrest, List.append_nil, hall, if_neg (by simpa using hheld)]
      exact .inr ⟨rfl, rfl⟩
    | .ready (some (.error (.io .transport))), hspec, _ =>
      refine ⟨_, rfl, ⟨List.nil_prefix, ?_⟩, fun hfail => absurd (hspec.fail rfl) hfail⟩
      rintro _ ⟨⟩
      exact .inl rfl

/-- The decoder accepts the frames of the protocol, however the transport splits them into reads: as
far as the calls go, they yield the frames in order, each when exactly the bytes up to its end are
read; when they end, all frames were yielded, and they end as the protocol says; and they do end,
once the transport has answered often enough. -/
theorem decodeAll_protocol (limit : ℕ) (bytes : Bytes) (calls : ℕ) (answers : List ReadAnswer)
    (hfail : .fail ∉ answers) :
    ∃ r, decodeAll limit calls .default ⟨bytes, true⟩ answers = .ok r ∧
      r.items <+: ((grammar limit).parseAll bytes).1 ∧
      (∀ e, r.stop = some e → r.items = ((grammar limit).parseAll bytes).1 ∧
        e = reported ((grammar limit).parseAll bytes).2) ∧
      (answers.length ≤ calls → bytes.length < takes answers → r.stop ≠ none) := by
  obtain ⟨r, hr, hf, hstop⟩ :=
    decodeAll_follows calls (holds_default limit) ⟨bytes, true⟩ rfl answers
  obtain ⟨hok, hends⟩ := hstop hfail
  refine ⟨r, hr, hf.frames, fun e he => (hf.stop e he).resolve_left ?_, hends⟩
  rintro rfl
  exact hok he

/-- Two frames and a half of a third, read byte by byte with pauses. -/
theorem decodeAll_protocol_bytewise : ∃ r,
    decodeAll 4 40 .default ⟨[0, 0x30, 0, 6, 0, 2, 0, 0, 0, 9, 7, 8, 0, 0x80, 0], true⟩
        (List.replicate 18 [.pending, .take 0 0]).flatten = .ok r ∧
      r.items = ((grammar 4).parseAll [0, 0x30, 0, 6, 0, 2, 0, 0, 0, 9, 7, 8, 0, 0x80, 0]).1 ∧
      r.items.map Prod.snd = [[0, 0x80, 0], [0]] ∧ r.stop = some (some (.io .unexpectedEof)) := by
  obtain ⟨r, hr, -, hstop, hends⟩ := decodeAll_protocol 4
    [0, 0x30, 0, 6, 0, 2, 0, 0, 0, 9, 7, 8, 0, 0x80, 0] 40
    (List.replicate 18 [.pending, .take 0 0]).flatten (by decide)
  have heval : (decodeAll 4 40 .default
      ⟨[0, 0x30, 0, 6, 0, 2, 0, 0, 0, 9, 7, 8, 0, 0x80, 0], true⟩
      (List.replicate 18 [.pending, .take 0 0]).flatten).map
        (fun r => (r.items.map Prod.snd, r.stop)) =
      .ok ([[0, 0x80, 0], [0]], some (some (.io .unexpectedEof))) := by
    with_unfolding_all rfl
  obtain ⟨e, he⟩ := Option.ne_none_iff_exists'.mp (hends (by decide) (by decide))
  rw [hr] at heval
  obtain ⟨hrest, hlast⟩ := Prod.mk.inj (Except.ok.inj heval)
  exact ⟨r, hr, (hstop e he).1, hrest, hlast⟩

end Decoded

end Rammux
