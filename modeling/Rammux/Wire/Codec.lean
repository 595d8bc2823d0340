import Rammux.Wire.Decoder
import Rammux.Wire.RoundTrip

/-!
# The codec

`RammuxCodec` of `src/wire/codec.rs`: the decoder and the encoder of a connection, over one
transport. The calls are those of `Decoder.lean` and `Encoder.lean`; the codec keeps their states
between the calls, and adds the timeout between inbound frames.

What the transport answers is an input of each call, as is whether a timer has elapsed. Every call
keeps the state of the other direction, and moves its own on: what was written is the frames that
the codec was handed, with the last one perhaps in part (`Sends`), and what was read is frames, with
the beginning of one that the decoder holds (`Reads`).
-/

namespace Rammux

/-- The transport: what is there to read, and what was written to it. -/
structure Transport where
  inbox : Inbox
  out : Outbox

/-- The codec of a connection. -/
structure RammuxCodec where
  io : Transport
  pending : Option EncoderItem := none
  decoder : DecoderState := .default
  frameLimit : ℕ
  clock : Clock

namespace RammuxCodec

/-- The next inbound frame. A call that has to wait fails if the timeout has `elapsed`. -/
def pollNext (self : RammuxCodec) (answers : List ReadAnswer) (elapsed : Bool) :
    Except Panic (Poll DecoderState.Outcome × RammuxCodec) := do
  let (res, decoder, inbox, _) ← pollNextFrame self.frameLimit self.decoder self.io.inbox answers
  let self := { self with decoder, io := { self.io with inbox } }
  match res with
  | .pending =>
    if elapsed then return (.ready (some (.error (.io .timedOut))), self)
    else return (.pending, self)
  | .ready result => return (.ready result, self)

/-- Writes the pending frame, after which the next one can be sent. -/
def pollReady (self : RammuxCodec) (attempts : List WriteAttempt) :
    Except Panic (Poll (Except ErrorKind Unit) × RammuxCodec) := do
  let (res, pending, out, _) ← pollWritePending self.clock attempts self.pending self.io.out
  return (res, { self with pending, io := { self.io with out } })

/-- Takes a frame to send. -/
def startSend (self : RammuxCodec) (frame : OutFrame) : Except Panic RammuxCodec := do
  let pending ← Rammux.startSend self.pending frame
  return { self with pending }

/-- Writes the pending frame, and then asks the transport for something. -/
def pollThen (self : RammuxCodec) (attempts : List WriteAttempt)
    (answer : Poll (Except IoError Unit)) :
    Except Panic (Poll (Except ErrorKind Unit) × RammuxCodec) := do
  let (res, self) ← self.pollReady attempts
  match res with
  | .ready (.ok ()) =>
    match answer with
    | .pending => return (.pending, self)
    | .ready result => return (.ready (result.mapError .io), self)
  | res => return (res, self)

/-- Flushes the codec. -/
def pollFlush (self : RammuxCodec) (attempts : List WriteAttempt)
    (flush : Poll (Except IoError Unit)) :
    Except Panic (Poll (Except ErrorKind Unit) × RammuxCodec) := self.pollThen attempts flush

/-- Flushes the codec, and shuts the transport down. -/
def pollClose (self : RammuxCodec) (attempts : List WriteAttempt)
    (shutdown : Poll (Except IoError Unit)) :
    Except Panic (Poll (Except ErrorKind Unit) × RammuxCodec) := self.pollThen attempts shutdown

end RammuxCodec

/-! ## What the calls do -/

open Protocol

/-- A string is an encoding of the frame. -/
structure OutFrame.Encoded (f : OutFrame) (s : Bytes) : Prop where
  legal : (f.header 0).Legal
  fits : f.data.length < 2^16
  bytes : ∃ t, s = f.encoding t

/-- A receiver that takes a frame from an encoding takes the one that was encoded. A limit of the
receiver may keep it from taking any. -/
theorem OutFrame.Encoded.offers {f : OutFrame} {s : Bytes} (h : f.Encoded s) (limit : ℕ) :
    ∃ i, (i = .terminate ↔ f.term = true) ∧ (grammar limit).Offers i s := by
  obtain ⟨t, rfl⟩ := h.bytes
  refine ⟨f.item t, ?_, fun more j rest hparse => ?_⟩
  · unfold OutFrame.item
    split_ifs with hterm <;> simp [hterm]
  · have henc := OutFrame.parse_encoding h.legal h.fits limit t more
    rw [show (grammar limit).parse = parse limit from rfl, henc] at hparse
    split_ifs at hparse
    cases hparse
    exact ⟨rfl, rfl⟩

namespace RammuxCodec

variable {c c' : RammuxCodec} {frames : List OutFrame} {read : Bytes}

/-- What a call that writes leaves alone. -/
structure SameReader (c c' : RammuxCodec) : Prop where
  inbox : c'.io.inbox = c.io.inbox
  decoder : c'.decoder = c.decoder
  frameLimit : c'.frameLimit = c.frameLimit
  clock : c'.clock = c.clock

/-- What a call that reads leaves alone. -/
structure SameWriter (c c' : RammuxCodec) : Prop where
  out : c'.io.out = c.io.out
  pending : c'.pending = c.pending
  frameLimit : c'.frameLimit = c.frameLimit
  clock : c'.clock = c.clock

/-- The reading half stays the same, step after step. -/
theorem SameReader.trans {c'' : RammuxCodec} (h : c.SameReader c')
    (h' : c'.SameReader c'') : c.SameReader c'' :=
  ⟨h'.inbox.trans h.inbox, h'.decoder.trans h.decoder, h'.frameLimit.trans h.frameLimit,
    h'.clock.trans h.clock⟩

/-- The codec was handed the frames. They are written, the last one perhaps in part. -/
def Sends (c : RammuxCodec) (frames : List OutFrame) : Prop :=
  Sender.Inv c.clock frames ⟨c.pending, c.io.out⟩

/-- What was written is a beginning of the encodings, and all of them once nothing is pending. -/
theorem Sends.encodings (h : c.Sends frames) :
    ∃ strs, List.Forall₂ OutFrame.Encoded frames strs ∧
      c.io.out.map Prod.fst <+: strs.flatten ∧
      (c.pending = none → c.io.out.map Prod.fst = strs.flatten) := by
  obtain ⟨done, segs, part, hdone, hout, hpending⟩ := Sender.Inv.written h
  have hsegs : List.Forall₂ OutFrame.Encoded done (segs.map (List.map Prod.fst)) :=
    List.forall₂_map_right_iff.mpr (hdone.imp fun _ _ hw => ⟨hw.legal, hw.fits, _, hw.bytes⟩)
  change c.io.out = segs.flatten ++ part at hout
  rw [hout, List.map_append, List.map_flatten]
  rcases hpending with ⟨-, rfl, rfl⟩ | ⟨i, f, hsome, rfl, hwriting⟩
  · refine ⟨_, hsegs, ?_, fun _ => ?_⟩ <;> rw [List.map_nil, List.append_nil]
  · obtain ⟨t, henc, hpart, -⟩ := hwriting.encodes
    refine ⟨_ ++ [f.encoding t], List.rel_append hsegs (.cons ⟨?_, hwriting.fits, t, rfl⟩ .nil), ?_,
      fun hnone => ?_⟩
    · exact OutFrame.legal_header henc.legal 0
    · rw [List.flatten_append, List.flatten_singleton, hpart]
      exact List.prefix_append_right_inj _ |>.mpr (List.take_prefix _ _)
    · exact absurd (hsome.symm.trans hnone) nofun

/-- What was read is frames, and the beginning of a frame that the decoder holds. -/
def Reads (c : RammuxCodec) (read : Bytes) : Prop :=
  ∃ (taken : List Bytes) (held : Bytes), read = taken.flatten ++ held ∧
    (∀ s ∈ taken, ∃ i, i ≠ .terminate ∧ (grammar c.frameLimit).Frame i s) ∧
    DecoderState.Holds c.frameLimit c.decoder held

/-- What was read is frames, the last of which is `TERM`. -/
def ReadTerm (limit : ℕ) (read : Bytes) : Prop :=
  ∃ (taken : List Bytes) (last : Bytes), read = taken.flatten ++ last ∧
    (∀ s ∈ taken, ∃ i, i ≠ .terminate ∧ (grammar limit).Frame i s) ∧
    (grammar limit).Frame .terminate last

/-- What was read is a matter of the reading half alone. -/
theorem Reads.congr (h : c.Reads read) (hs : c.SameReader c') : c'.Reads read := by
  unfold Reads at h ⊢
  rwa [hs.frameLimit, hs.decoder]

/-- What was sent is a matter of the writing half alone. -/
theorem Sends.congr (h : c.Sends frames) (hs : c.SameWriter c') : c'.Sends frames := by
  unfold Sends at h ⊢
  rwa [hs.clock, hs.pending, hs.out]

/-- With nothing pending, a call that writes does nothing. -/
theorem pollReady_of_none (attempts : List WriteAttempt) (h : c.pending = none) :
    c.pollReady attempts = .ok (.ready (.ok ()), c) := by
  obtain ⟨io, pending, decoder, limit, clock⟩ := c
  cases h
  cases attempts <;> rfl

/-- A call that writes fails only with the transport. -/
theorem pollReady_error {attempts : List WriteAttempt} {e : ErrorKind}
    (h : c.pollReady attempts = .ok (.ready (.error e), c')) : ∃ io, e = .io io := by
  obtain ⟨⟨res, pending, out, left⟩, hwrite, hret⟩ := Lib.bind_eq_ok.mp h
  cases hret
  exact pollWritePending_error hwrite

/-- A codec fails to write only with an error of the transport. -/
theorem pollThen_error {attempts : List WriteAttempt} {answer : Poll (Except IoError Unit)}
    {e : ErrorKind} (h : c.pollThen attempts answer = .ok (.ready (.error e), c')) :
    ∃ io, e = .io io := by
  obtain ⟨⟨res, c₁⟩, hready, h⟩ := Lib.bind_eq_ok.mp h
  match res with
  | .pending => cases h
  | .ready (.error e) =>
    cases h
    exact pollReady_error hready
  | .ready (.ok ()) =>
    match answer with
    | .pending => cases h
    | .ready (.ok ()) => cases h
    | .ready (.error io) =>
      cases h
      exact ⟨io, rfl⟩

/-- What a call that writes does: it writes more of the frames, and returns once nothing is
pending. -/
structure Wrote (c : RammuxCodec) (frames : List OutFrame) (res : Poll (Except ErrorKind Unit))
    (c' : RammuxCodec) : Prop where
  sends : c'.Sends frames
  same : c.SameReader c'
  out : c.io.out <+: c'.io.out
  pending : c.pending = none ∨ res = .ready (.ok ()) → c'.pending = none
  error : ∀ e, res = .ready (.error e) → ∃ io, e = .io io

/-- A call that writes does not panic. -/
theorem Sends.pollReady (h : c.Sends frames) (attempts : List WriteAttempt) :
    ∃ res c', c.pollReady attempts = .ok (res, c') ∧ c.Wrote frames res c' := by
  obtain ⟨res, s', hstep, hinv, hgrows, hready, -⟩ := Sender.Inv.poll h attempts
  obtain ⟨⟨res', pending, out, left⟩, hwrite, hret⟩ := Lib.bind_eq_ok.mp hstep
  cases hret
  have hcall : c.pollReady attempts = .ok (res, { c with pending, io := { c.io with out } }) :=
    Lib.bind_eq_ok.mpr ⟨_, hwrite, rfl⟩
  refine ⟨_, _, hcall, hinv, ⟨rfl, rfl, rfl, rfl⟩, hgrows, fun h => h.elim (fun hnone => ?_) hready,
    fun e he => pollReady_error (he ▸ hcall)⟩
  rw [pollReady_of_none attempts hnone] at hcall
  exact hready (congrArg Prod.fst (Except.ok.inj hcall)).symm

/-- A call that writes and then asks the transport for something. -/
theorem Sends.pollThen (h : c.Sends frames) (attempts : List WriteAttempt)
    (answer : Poll (Except IoError Unit)) :
    ∃ res c', c.pollThen attempts answer = .ok (res, c') ∧ c.Wrote frames res c' := by
  obtain ⟨res, c', hready, hwrote⟩ := h.pollReady attempts
  have hpost (res' : Poll (Except ErrorKind Unit))
      (hcall : c.pollThen attempts answer = .ok (res', c'))
      (hok : res' = .ready (.ok ()) → res = .ready (.ok ())) :
      ∃ res c', c.pollThen attempts answer = .ok (res, c') ∧ c.Wrote frames res c' :=
    ⟨res', c', hcall, hwrote.sends, hwrote.same, hwrote.out,
      fun h => hwrote.pending (h.imp_right hok),
      fun e he => pollThen_error (he ▸ hcall)⟩
  match res with
  | .pending => exact hpost .pending (Lib.bind_eq_ok.mpr ⟨_, hready, rfl⟩) nofun
  | .ready (.error e) => exact hpost _ (Lib.bind_eq_ok.mpr ⟨_, hready, rfl⟩) nofun
  | .ready (.ok ()) =>
    match answer with
    | .pending => exact hpost _ (Lib.bind_eq_ok.mpr ⟨_, hready, rfl⟩) fun _ => rfl
    | .ready result => exact hpost _ (Lib.bind_eq_ok.mpr ⟨_, hready, rfl⟩) fun _ => rfl

/-- The codec takes a frame. -/
theorem Sends.startSend {frame : OutFrame} (h : c.Sends frames)
    (hcall : c.startSend frame = .ok c') :
    c'.Sends (frames ++ [frame]) ∧ c.SameReader c' ∧ c'.io.out = c.io.out := by
  obtain ⟨pending, hsend, hret⟩ := Lib.bind_eq_ok.mp hcall
  cases hret
  refine ⟨?_, ⟨rfl, rfl, rfl, rfl⟩, rfl⟩
  exact Sender.Inv.send (o := .ready (.ok ())) h (Lib.bind_eq_ok.mpr ⟨pending, hsend, rfl⟩)

/-- The codec takes a legal frame once nothing is pending. -/
theorem startSend_ok {frame : OutFrame} {limit : ℕ} (hf : frame.Legal limit) (hlimit : limit < 2^16)
    (hnone : c.pending = none) : ∃ c', c.startSend frame = .ok c' := by
  obtain ⟨s', hstep⟩ : ∃ s', Sender.step c.clock ⟨c.pending, c.io.out⟩ (.send frame) =
      .ok (.ready (.ok ()), s') := Sender.send_ok hf hlimit hnone
  obtain ⟨pending, hsend, -⟩ := Lib.bind_eq_ok.mp hstep
  exact ⟨_, Lib.bind_eq_ok.mpr ⟨pending, hsend, rfl⟩⟩

/-- What a call that reads does: it takes `chunk` from the transport, which ends with the frame that
it yields. -/
structure Took (c : RammuxCodec) (read : Bytes) (res : Poll DecoderState.Outcome) (c' : RammuxCodec)
    (chunk : Bytes) : Prop where
  same : c.SameWriter c'
  inbox : c.io.inbox.bytes = chunk ++ c'.io.inbox.bytes
  error : ∀ e, res = .ready (some (.error e)) → e.isMisuse = false
  pending : res = .pending → c'.Reads (read ++ chunk)
  frame : ∀ f, res = .ready (some (.ok (.frame f))) →
    c'.Reads (read ++ chunk) ∧ f.data.length ≤ c.frameLimit
  term : res = .ready (some (.ok .terminate)) → ReadTerm c.frameLimit (read ++ chunk)

/-- From a call of the decoder: less than a frame, which it holds, or a frame. -/
theorem took_of_called {res : Poll DecoderState.Outcome} {taken : List Bytes} {held chunk : Bytes}
    (hread : read = taken.flatten ++ held)
    (htaken : ∀ s ∈ taken, ∃ i, i ≠ .terminate ∧ (grammar c.frameLimit).Frame i s)
    (hsame : c.SameWriter c') (hinbox : c.io.inbox.bytes = chunk ++ c'.io.inbox.bytes)
    (h : DecoderState.Called c.frameLimit (held ++ chunk) c'.io.inbox res c'.decoder) :
    c.Took read res c' chunk where
  same := hsame
  inbox := hinbox
  error := by
    rintro e rfl
    match e, h with
    | .io .unexpectedEof, _ => rfl
    | .io .transport, _ => rfl
    | .decode _, _ => rfl
  pending := by
    rintro rfl
    refine ⟨taken, held ++ chunk, ?_, ?_, ?_⟩
    · rw [hread, List.append_assoc]
    · rwa [hsame.frameLimit]
    · rw [hsame.frameLimit]
      exact h
  frame := by
    rintro f rfl
    -- What was held and what is new make one more frame, and nothing is held after it.
    obtain ⟨hd, hparse⟩ := h
    refine ⟨⟨taken ++ [held ++ chunk], [], ?_, fun s hs => ?_, hd ▸ DecoderState.holds_default _⟩,
      parse_data_le (hparse [])⟩
    · rw [hread, List.flatten_append, List.flatten_singleton, List.append_nil, List.append_assoc]
    · rw [hsame.frameLimit]
      rcases List.mem_append.mp hs with hs | hs
      · exact htaken s hs
      · rw [List.mem_singleton.mp hs]
        exact ⟨_, Item.noConfusion, hparse⟩
  term := by
    rintro rfl
    exact ⟨taken, held ++ chunk, by rw [hread, List.append_assoc], htaken, h.2⟩

/-- A call that reads does not panic. -/
theorem Reads.pollNext (h : c.Reads read) (answers : List ReadAnswer) (elapsed : Bool) :
    ∃ res c' chunk, c.pollNext answers elapsed = .ok (res, c') ∧ c.Took read res c' chunk := by
  obtain ⟨taken, held, hread, htaken, hholds⟩ := h
  obtain ⟨res, d, inbox, left, chunk, hcall, hpost⟩ :=
    DecoderState.pollNextFrame_call hholds c.io.inbox answers
  have htook : c.Took read res { c with decoder := d, io := { c.io with inbox } } chunk :=
    took_of_called hread htaken ⟨rfl, rfl, rfl, rfl⟩ hpost.bytes hpost.called
  match res with
  | .pending =>
    cases elapsed with
    | true =>
      refine ⟨_, _, chunk, Lib.bind_eq_ok.mpr ⟨_, hcall, rfl⟩, htook.same, htook.inbox, ?_, nofun,
        nofun, nofun⟩
      rintro _ ⟨⟩
      rfl
    | false => exact ⟨_, _, chunk, Lib.bind_eq_ok.mpr ⟨_, hcall, rfl⟩, htook⟩
  | .ready result => exact ⟨_, _, chunk, Lib.bind_eq_ok.mpr ⟨_, hcall, rfl⟩, htook⟩

end RammuxCodec

end Rammux
