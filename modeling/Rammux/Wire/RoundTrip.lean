import Rammux.Wire.Encoder

/-!
# What is written is read back

The bytes of a frame begin a string in which the protocol sees that frame
(`OutFrame.parse_encoding`). `Sender` is the sink half of `RammuxCodec`: calls that write, and calls
that make a frame the next to be written. Whatever the transport answers, its output is the
encodings of the frames that were sent, one after the other (`Sender.Inv`), and so a codec that
reads them yields these frames.
-/

namespace Rammux

open Protocol DecoderState

/-! ## The bytes of a frame -/

/-- The length of the payload that a header announces. -/
def Header.payloadLen (h : Header) : ℕ :=
  (h.stream.bind StreamHeader.dataLen).elim 0 fun len => len.get.toNat

/-- The length of the payload is the value of its field, or zero. -/
theorem payloadLen_header (flags : UInt16) (bytes : Bytes) :
    (Protocol.header flags bytes).payloadLen = (Field.len.value flags bytes).getD 0 := by
  unfold Header.payloadLen
  rw [header_dataLen]
  cases hlen : Field.len.value flags bytes with
  | none => rfl
  | some n =>
    have hlt : n < 2^16 := value_lt flags bytes .len n hlen
    rw [Option.bind_some, Option.getD_some]
    cases hnew : NonZeroU16.new (UInt16.ofNat n) with
    | none => exact ((Header.new16_eq_none hlt).mp hnew).symm
    | some len => rw [Option.elim_some, NonZeroU16.get_of_new hnew, UInt16.toNat_ofNat_of_lt' hlt]

/-- What the protocol sees in the bytes of a header and what follows them. -/
theorem Header.parse_bytes {h : Header} (hl : h.Legal) (limit : ℕ) (tail : Bytes) :
    parse limit (h.bytes ++ tail) =
      if limit < h.payloadLen then .error .exceedsLimit
      else if tail.length < h.payloadLen then .short
      else .item (if h.term then .terminate else .frame h (tail.take h.payloadLen))
        (tail.drop h.payloadLen) := by
  obtain ⟨b₀, b₁, bytes, hbytes, hflags⟩ : ∃ b₀ b₁ bytes, h.bytes = b₀ :: b₁ :: bytes ∧
      Lib.ofBe16 [b₀, b₁] = h.flags.bits := by
    refine ⟨_, _, _, rfl, ?_⟩
    exact Lib.ofBe16_be16 h.flags.bits
  have hv : flagViolation h.flags.bits = none := by
    have hok := ((legal_iff h).mp hl).1
    rw [validate_eq] at hok
    cases hv : flagViolation h.flags.bits with
    | none => rfl
    | some e => rw [hv] at hok; cases hok
  have hlen : bytes.length = widths h.flags.bits fields := by
    have hlen := length_bytes hl
    rw [hbytes, headerLen_eq, Flags.flagsLen, List.length_cons, List.length_cons] at hlen
    omega
  -- Decoding is what the protocol says, and it gives the header back.
  have hdecode := decode_bytes hl
  rw [hbytes, decode_eq hlen] at hdecode
  obtain ⟨hz, hheader⟩ : zeroViolation h.flags.bits bytes = none ∧
      Protocol.header h.flags.bits bytes = h := by
    cases hz : zeroViolation h.flags.bits bytes with
    | some e => rw [hz] at hdecode; cases hdecode
    | none =>
      rw [hz] at hdecode
      exact ⟨rfl, Except.ok.inj (Except.ok.inj hdecode)⟩
  have hpayload : (Field.len.value h.flags.bits bytes).getD 0 = h.payloadLen := by
    rw [← payloadLen_header, hheader]
  have hterm : has h.flags.bits 0x0080 = h.term := congrArg Header.term hheader
  rw [hbytes, List.cons_append, List.cons_append, parse_cons hflags, hv]
  simp only
  rw [parseFields_append hlen, violation_eq, hz]
  simp only [hpayload, hheader, hterm]
  by_cases hlimit : limit < h.payloadLen
  · rw [if_pos hlimit, if_pos hlimit]
  · rw [if_neg hlimit, if_neg hlimit]

namespace OutFrame

/-- A frame that may be sent with a limit: there is something in it and in its stream part, `TERM`
is alone, and the payload is within the limit. -/
structure Legal (limit : ℕ) (f : OutFrame) : Prop where
  nonempty : f.isEmpty = false
  alone : f.term = true → f = terminate
  carries : ∀ s, f.stream = some s → s.flags.syn = true ∨ s.flags.finRead = true ∨
    s.flags.finWrite = true ∨ s.credit ≠ 0 ∨ s.data ≠ []
  fits : f.data.length ≤ limit

variable {f : OutFrame} {limit : ℕ}

/-- The frame that ends the connection is legal. -/
theorem legal_terminate (limit : ℕ) : terminate.Legal limit :=
  ⟨rfl, fun _ => rfl, nofun, Nat.zero_le limit⟩

/-- The length in the header is that of the data. -/
theorem payloadLen_header (hlt : f.data.length < 2^16) (t : UInt32) :
    (f.header t).payloadLen = f.data.length := by
  unfold Header.payloadLen header
  unfold data at hlt ⊢
  cases hs : f.stream with
  | none => rfl
  | some s =>
    rw [hs, Option.elim_some] at hlt
    simp only [Option.map_some, Option.bind_some, Option.elim_some]
    cases hnew : NonZeroU16.new (UInt16.ofNat s.data.length) with
    | none => exact ((Header.new16_eq_none hlt).mp hnew).symm
    | some len => rw [Option.elim_some, NonZeroU16.get_of_new hnew, UInt16.toNat_ofNat_of_lt' hlt]

/-- A legal frame has a legal header. -/
theorem Legal.header (h : f.Legal limit) (hlimit : limit < 2^16) (t : UInt32) :
    (f.header t).Legal := by
  refine ⟨?_, fun hterm => ?_, fun sh hsh => ?_⟩
  · have hne := h.nonempty
    unfold isEmpty at hne
    unfold OutFrame.header
    cases hping : f.ping <;> cases hpong : f.pong <;> cases hstream : f.stream <;>
      cases hterm : f.term <;> simp_all
  · rw [h.alone hterm]
    rfl
  · unfold OutFrame.header at hsh
    obtain ⟨s, hs, rfl⟩ := Option.map_eq_some_iff.mp hsh
    have hfits := h.fits
    have hlen : NonZeroU16.new (UInt16.ofNat s.data.length) = none ↔ s.data = [] := by
      rw [Header.new16_eq_none, List.length_eq_zero_iff]
      rw [data, hs, Option.elim_some] at hfits
      omega
    have hcredit : NonZeroU32.new s.credit = none ↔ s.credit = 0 := by
      unfold NonZeroU32.new
      split <;> simp_all
    have hcarries := h.carries s hs
    simp only [StreamHeader.carries, Bool.or_eq_true, Option.isSome_iff_ne_none, ne_eq, hlen,
      hcredit]
    tauto

/-- What the protocol sees in the bytes of a frame and what follows them. -/
theorem parse_encoding (hl : (f.header 0).Legal) (hlt : f.data.length < 2^16) (limit : ℕ)
    (t : UInt32) (tail : Bytes) :
    parse limit (f.encoding t ++ tail) =
      if limit < f.data.length then .error .exceedsLimit else .item (f.item t) tail := by
  rw [encoding, List.append_assoc, Header.parse_bytes (legal_header hl t), payloadLen_header hlt,
    List.take_left, List.drop_left, List.length_append]
  rw [if_neg (show ¬ f.data.length + tail.length < f.data.length by omega)]
  rfl

end OutFrame

/-! ## The sink -/

/-- The sink half of a codec, and what its transport accepted. -/
structure Sender where
  pending : Option EncoderItem := none
  out : Outbox := []

namespace Sender

/-- The calls of the sink. -/
inductive Call where
  /-- `poll_ready`, with which `poll_flush` and `poll_close` begin too. -/
  | poll (attempts : List WriteAttempt)
  /-- `start_send`. -/
  | send (frame : OutFrame)

/-- What a call returns. -/
abbrev Answer := Poll (Except ErrorKind Unit)

/-- A call. -/
def step (clock : Clock) (s : Sender) : Call → Except Panic (Answer × Sender)
  | .poll attempts => do
    let (res, pending, out, _) ← pollWritePending clock attempts s.pending s.out
    return (res, { pending, out })
  | .send frame => do
    let pending ← startSend s.pending frame
    return (.ready (.ok ()), { s with pending })

/-- A sink, with its calls in any order. -/
def machine (clock : Clock) : Lib.Machine Panic Sender Call Answer where
  init := {}
  step := step clock

/-- The frames that were sent. -/
def sent (tr : List (Call × Answer)) : List OutFrame :=
  tr.filterMap fun e => match e.1 with
    | .poll _ => none
    | .send f => some f

/-- What the transport accepted is the frames that were sent, with the last one perhaps only in
part. -/
structure Inv (clock : Clock) (frames : List OutFrame) (s : Sender) : Prop where
  written : ∃ done segs part, List.Forall₂ (Wrote clock) done segs ∧ s.out = segs.flatten ++ part ∧
    (s.pending = none ∧ part = [] ∧ frames = done ∨
      ∃ i f, s.pending = some i ∧ frames = done ++ [f] ∧ Writing clock i f part)

variable {clock : Clock} {frames : List OutFrame} {s s' : Sender}

/-- A frame that was sent. -/
theorem writing_of_new {f : OutFrame} {i : EncoderItem} (h : EncoderItem.new f = .ok i) :
    Writing clock i f [] := by
  obtain ⟨henc, hzero, hlt⟩ := EncoderItem.encodes_new h
  refine ⟨⟨0, henc, ?_, nofun⟩, hlt, ?_⟩
  · rw [hzero, List.take_zero, List.map_nil]
  · rw [hzero, List.length_nil]

/-- A call that writes does not panic. It writes more of the frames, and all of them, once the
transport accepted bytes often enough. -/
theorem Inv.poll (h : Inv clock frames s) (attempts : List WriteAttempt) :
    ∃ o s', step clock s (.poll attempts) = .ok (o, s') ∧ Inv clock frames s' ∧
      s.out <+: s'.out ∧ (o = .ready (.ok ()) → s'.pending = none) ∧
      ((∀ a ∈ attempts, a.accepts = true) →
        (∀ f ∈ frames, (f.encoding 0).length ≤ attempts.length) → s'.pending = none) := by
  obtain ⟨done, segs, part, hdone, hout, hpending⟩ := h.written
  rcases hpending with ⟨hnone, hpart, hframes⟩ | ⟨i, f, hsome, hframes, hwriting⟩
  · refine ⟨.ready (.ok ()), s, ?_, h, List.prefix_rfl, fun _ => hnone, fun _ _ => hnone⟩
    unfold step
    rw [hnone]
    cases attempts <;> cases s <;> cases hnone <;> rfl
  obtain ⟨res, pending, acc, left, hrun, hpost⟩ := hwriting.pollWritePending_ok attempts s.out
  refine ⟨res, ⟨pending, s.out ++ acc⟩, ?_, ?_, List.prefix_append _ _, fun hready => ?_,
    fun hacc hlen => ?_⟩
  · unfold step
    rw [hsome]
    exact Lib.bind_eq_ok.mpr ⟨_, hrun, rfl⟩
  · rcases hpost with ⟨rfl, -, hwrote⟩ | ⟨i', rfl, -, hwriting', -⟩
    · -- The frame is written: what was its part is a whole segment now.
      refine ⟨done ++ [f], segs ++ [part ++ acc], [], ?_, ?_, .inl ⟨rfl, rfl, hframes⟩⟩
      · exact List.rel_append hdone (.cons hwrote .nil)
      · simp only [hout, List.flatten_append, List.flatten_singleton, List.append_nil,
          List.append_assoc]
    · refine ⟨done, segs, part ++ acc, hdone, ?_, .inr ⟨i', f, rfl, hframes, hwriting'⟩⟩
      rw [hout, List.append_assoc]
  · rcases hpost with ⟨rfl, -, -⟩ | ⟨i', -, hne, -, -⟩
    · rfl
    · exact absurd hready hne
  · rcases hpost with ⟨rfl, -, -⟩ | ⟨i', rfl, -, -, hshort⟩
    · rfl
    · have hlt := hshort hacc
      have hle := hlen f (by rw [hframes]; simp)
      omega

/-- Sending a frame. -/
theorem Inv.send (h : Inv clock frames s) {f : OutFrame} {o : Answer}
    (hstep : step clock s (.send f) = .ok (o, s')) : Inv clock (frames ++ [f]) s' := by
  obtain ⟨done, segs, part, hdone, hout, hpending⟩ := h.written
  obtain ⟨pending, hsend, hstep⟩ := Lib.bind_eq_ok.mp hstep
  cases hstep
  unfold startSend at hsend
  rcases hpending with ⟨hnone, rfl, rfl⟩ | ⟨i, -, hsome, -, -⟩
  · rw [hnone, Option.isSome_none, if_neg Bool.false_ne_true] at hsend
    split_ifs at hsend
    obtain ⟨item, hnew, hsend⟩ := Lib.bind_eq_ok.mp hsend
    cases hsend
    exact ⟨_, segs, [], hdone, hout, .inr ⟨item, f, rfl, rfl, writing_of_new hnew⟩⟩
  · rw [hsome] at hsend
    cases hsend

/-- A legal frame can be sent once the one before it is written. -/
theorem send_ok {f : OutFrame} {limit : ℕ} (hf : f.Legal limit) (hlimit : limit < 2^16)
    (hnone : s.pending = none) : ∃ s', step clock s (.send f) = .ok (.ready (.ok ()), s') := by
  obtain ⟨i, hi⟩ := EncoderItem.new_ok (hf.header hlimit 0) (hf.fits.trans_lt hlimit)
  refine ⟨{ s with pending := some i }, Lib.bind_eq_ok.mpr ⟨some i, ?_, rfl⟩⟩
  unfold startSend
  rw [hnone, hf.nonempty, Option.isSome_none, if_neg Bool.false_ne_true,
    if_neg Bool.false_ne_true]
  exact Lib.bind_eq_ok.mpr ⟨i, hi, rfl⟩

/-- The invariant of all runs. -/
theorem inv_of_run {tr : List (Call × Answer)} (hrun : (machine clock).Run tr s) :
    Inv clock (sent tr) s := by
  refine Lib.Machine.Run.invariant (I := fun tr s => Inv clock (sent tr) s) ?_ ?_ hrun
  · exact ⟨[], [], [], .nil, rfl, .inl ⟨rfl, rfl, rfl⟩⟩
  · intro tr s c o s' _ hinv hstep
    cases c with
    | poll attempts =>
      obtain ⟨o', s₁, hstep', hinv', -⟩ := hinv.poll attempts
      have heq : (o', s₁) = (o, s') := Except.ok.inj (hstep'.symm.trans hstep)
      cases heq
      simpa [sent] using hinv'
    | send f => simpa [sent] using hinv.send hstep

/-- The items that the peer is to see of some frames, each with its bytes. -/
def items (clock : Clock) (frames : List OutFrame) (segs : List Outbox) : List Item :=
  List.zipWith (fun f seg => f.item (clock.micros seg.start)) frames segs

/-- The protocol sees the frames in what the transport accepted. -/
theorem parseAll_segs {segs : List Outbox} (h : List.Forall₂ (Wrote clock) frames segs)
    {limit : ℕ} (hfits : ∀ f ∈ frames, f.data.length ≤ limit) :
    (((grammar limit).parseAll (segs.flatten.map Prod.fst)).1.map Prod.fst =
      items clock frames segs) ∧
    ((grammar limit).parseAll (segs.flatten.map Prod.fst)).2 = .clean := by
  have hread : ∀ a ∈ frames.zip segs, ∀ rest,
      (grammar limit).parse (a.2.map Prod.fst ++ rest) =
        .item (a.1.item (clock.micros a.2.start)) rest := by
    intro a ha rest
    have hwrote := (List.forall₂_iff_zip.mp h).2 ha
    have hle := hfits a.1 (List.of_mem_zip ha).1
    rw [hwrote.bytes]
    refine (OutFrame.parse_encoding hwrote.legal hwrote.fits limit _ rest).trans ?_
    rw [if_neg (by omega)]
  have hbytes : segs.flatten.map Prod.fst =
      ((frames.zip segs).map fun a => a.2.map Prod.fst).flatten ++ [] := by
    rw [List.append_nil, List.map_flatten]
    congr 1
    rw [← List.map_snd_zip h.length_eq.ge, List.map_map]
    rw [List.map_snd_zip h.length_eq.ge]
    rfl
  have hall := Lib.Grammar.parseAll_frames hread []
  have hnil := Lib.Grammar.parseAll_short (g := grammar limit) (s := []) rfl
  rw [hbytes, hall, hnil]
  refine ⟨?_, rfl⟩
  rw [List.append_nil, Lib.Grammar.map_fst_frames, items, List.zip_eq_zipWith, List.map_zipWith]

/-- What a codec reads is what another one was sent. -/
theorem round_trip (clock : Clock) (limit : NonZeroU16) {tr : List (Call × Answer)}
    (hrun : (machine clock).Run tr s) (hlegal : ∀ f ∈ sent tr, f.Legal limit.get.toNat) :
    (∀ attempts, ∃ o s', step clock s (.poll attempts) = .ok (o, s') ∧
      ((∀ a ∈ attempts, a.accepts = true) →
        (∀ f ∈ sent tr, (f.encoding 0).length ≤ attempts.length) → s'.pending = none)) ∧
    (s.pending = none →
      (∀ f, f.Legal limit.get.toNat → ∃ s', step clock s (.send f) = .ok (.ready (.ok ()), s')) ∧
      ∃ segs, segs.flatten = s.out ∧
        List.Forall₂ (fun f seg => seg.map Prod.fst = f.encoding (clock.micros seg.start))
          (sent tr) segs ∧
        ∀ calls answers, .fail ∉ answers →
          ∃ r, decodeAll limit.get.toNat calls .default ⟨s.out.map Prod.fst, true⟩ answers = .ok r ∧
            r.frames.map (fun f => f.1.item) <+: items clock (sent tr) segs ∧
            (answers.length ≤ calls → s.out.length < takes answers →
              r.frames.map (fun f => f.1.item) = items clock (sent tr) segs ∧
                r.stop = some none)) := by
  have hinv := inv_of_run hrun
  have hlimit : limit.get.toNat < 2^16 := limit.get.toNat_lt
  refine ⟨fun attempts => ?_, fun hnone => ⟨fun f hf => send_ok hf hlimit hnone, ?_⟩⟩
  · obtain ⟨o, s', hstep, -, -, -, hdone⟩ := hinv.poll attempts
    exact ⟨o, s', hstep, hdone⟩
  -- Nothing is pending, so what was written is whole segments, one for each frame.
  obtain ⟨done, segs, part, hwrote, hout, hpending⟩ := hinv.written
  rcases hpending with ⟨-, rfl, rfl⟩ | ⟨i, f, hsome, -⟩
  swap
  · rw [hnone] at hsome
    cases hsome
  rw [List.append_nil] at hout
  refine ⟨segs, hout.symm, hwrote.imp fun f seg h => h.bytes, fun calls answers hfail => ?_⟩
  obtain ⟨r, hr, hf, hstop⟩ := Decoded.decodeAll_follows calls (holds_default limit.get.toNat)
    ⟨s.out.map Prod.fst, true⟩ rfl answers
  -- The protocol sees the frames in these bytes, and the decoder what the protocol sees.
  obtain ⟨hall, hend⟩ := parseAll_segs hwrote fun f hf => (hlegal f hf).fits
  rw [hout, List.nil_append] at hf
  have hitems : r.frames.map (fun f => f.1.item) = r.items.map Prod.fst := by
    rw [Decoded.items, List.map_map]
    rfl
  refine ⟨r, hr, ?_, fun hcalls htakes => ?_⟩
  · rw [hitems, ← hall]
    exact hf.frames.map Prod.fst
  · obtain ⟨hok, hends⟩ := hstop hfail
    -- With reads enough the decoder stops, and not for the transport.
    obtain ⟨e, he⟩ := Option.ne_none_iff_exists'.mp
      (hends hcalls (by rwa [List.length_map]))
    rcases hf.stop e he with rfl | ⟨hsame, rfl⟩
    · exact absurd he hok
    · rw [hitems, hsame, hall, he, hend]
      exact ⟨rfl, rfl⟩

/-- A `PING` with two bytes of data, and then `TERM`. The transport refuses the first attempt, and
takes three bytes at the second, of which the timestamp is. -/
theorem round_trip_restamped : ∃ s tr segs r, (machine ⟨0⟩).Run tr s ∧
    sent tr = [{ ping := true, stream := some ⟨⟨6⟩, {}, 0, [7, 8]⟩ }, .terminate] ∧
    segs.flatten = s.out ∧
    decodeAll 4 50 .default ⟨s.out.map Prod.fst, true⟩ (List.replicate 15 (.take 2 0)) = .ok r ∧
    r.frames.map (fun f => f.1.item) = items ⟨0⟩ (sent tr) segs ∧
    r.frames.map (fun f => f.1.item) = [.frame ⟨some ⟨⟨6⟩, {}, none, some ⟨2, by decide⟩⟩,
      some 7000, none, false⟩ [7, 8], .terminate] := by
  have hrun : (machine ⟨0⟩).Run _ ⟨none,
      [0, 0x30, 0].map (·, 7000000) ++
        [6, 0, 2, 0, 0, 0x1B, 0x58, 7, 8, 0, 0x80].map (·, 9000000)⟩ :=
    Lib.Machine.Run.init (M := machine ⟨0⟩)
    |>.step (a := .send { ping := true, stream := some ⟨⟨6⟩, {}, 0, [7, 8]⟩ }) rfl
    |>.step (a := .poll [⟨5000000, .pending⟩]) rfl
    |>.step (a := .poll [⟨7000000, .accept 3 false⟩, ⟨8000000, .pending⟩]) rfl
    |>.step (a := .poll [⟨9000000, .accept 90 true⟩]) rfl
    |>.step (a := .send .terminate) rfl
    |>.step (a := .poll [⟨9000000, .accept 1 true⟩, ⟨9000000, .accept 1 false⟩]) rfl
  have hlegal : ∀ f ∈ [{ ping := true, stream := some ⟨⟨6⟩, {}, 0, [7, 8]⟩ }, OutFrame.terminate],
      f.Legal (NonZeroU16.mk 4 (by decide)).get.toNat := by
    intro f hf
    simp only [List.mem_cons, List.not_mem_nil, or_false] at hf
    rcases hf with rfl | rfl
    · exact ⟨rfl, nofun, by rintro _ ⟨⟩; simp, by decide⟩
    · exact ⟨rfl, fun _ => rfl, nofun, by decide⟩
  obtain ⟨segs, hout, -, hread⟩ := ((round_trip ⟨0⟩ ⟨4, by decide⟩ hrun hlegal).2 rfl).2
  obtain ⟨r, hr, -, hall⟩ := hread 50 (List.replicate 15 (.take 2 0)) (by decide)
  have hitems := (hall (by decide) (by decide)).1
  refine ⟨_, _, segs, r, hrun, rfl, hout, hr, hitems, ?_⟩
  have heval : (decodeAll 4 50 .default
      ⟨[0, 0x30, 0, 6, 0, 2, 0, 0, 0x1B, 0x58, 7, 8, 0, 0x80], true⟩
      (List.replicate 15 (.take 2 0))).map (fun r => r.frames.map fun f => f.1.item) =
      .ok [.frame ⟨some ⟨⟨6⟩, {}, none, some ⟨2, by decide⟩⟩, some 7000, none, false⟩ [7, 8],
        .terminate] := by
    with_unfolding_all rfl
  exact Except.ok.inj ((congrArg (Except.map _) hr).symm.trans heval)

end Sender

end Rammux
