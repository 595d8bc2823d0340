import Rammux.Wire.Header

/-!
# Accepted headers are canonical

A header is decoded from its own layout only. Every reader of `Header.decode` gives back the bytes
that its field is written as, so the layout of the decoded header is what was read; and the flags of
the decoded header are the flags that it was decoded with, since these are eight bits and each of
them says which field is there. Encoding the header again then writes the same bytes, and two
different strings of bytes are never decoded to the same header.
-/

namespace Rammux

/-! ## Flags are eight bits -/

namespace Flags

/-- Valid flags keep the bits that they were read from, and no other bits than eight are set. -/
theorem validate_eq_ok {raw : UInt16} {flags : Flags} (h : validate raw = .ok flags) :
    flags = ⟨raw⟩ ∧ raw &&& 0xFF00 = 0 := by
  unfold validate fromBits at h
  by_cases hraw : raw &&& 0xFF00 = 0
  · simp only [if_pos hraw] at h
    split_ifs at h
    cases h
    exact ⟨rfl, hraw⟩
  · simp only [if_neg hraw] at h
    cases h

/-- Flags without reserved bits fit into eight bits. -/
theorem toNat_lt_of_and {raw : UInt16} (h : raw &&& 0xFF00 = 0) : raw.toNat < 256 := by
  have hhigh : raw.toNat &&& 0xFF00 = 0 :=
    (UInt16.toNat_and raw 0xFF00).symm.trans (congrArg UInt16.toNat h)
  have hlow : raw.toNat = raw.toNat % 2^8 := by
    calc raw.toNat = raw.toNat % 2^16 := (Nat.mod_eq_of_lt raw.toNat_lt).symm
      _ = raw.toNat &&& (0xFF00 ||| 0xFF) := (Nat.and_two_pow_sub_one_eq_mod _ 16).symm
      _ = raw.toNat &&& 0xFF := by rw [Nat.and_or_distrib_left, hhigh, Nat.zero_or]
      _ = raw.toNat % 2^8 := Nat.and_two_pow_sub_one_eq_mod _ 8
  omega

/-- Flags of eight bits are known from what they contain. -/
theorem eq_mk8_of_lt : ∀ n : Fin 256, let f : Flags := ⟨UInt16.ofNat n⟩
    f = mk8 (f.contains .syn) (f.contains .finRead) (f.contains .finWrite) (f.contains .window)
      (f.contains .data) (f.contains .ping) (f.contains .pong) (f.contains .term) := by
  decide +kernel

/-- Valid flags are known from what they contain. -/
theorem eq_mk8 {raw : UInt16} {flags : Flags} (h : validate raw = .ok flags) :
    flags = mk8 (flags.contains .syn) (flags.contains .finRead) (flags.contains .finWrite)
      (flags.contains .window) (flags.contains .data) (flags.contains .ping)
      (flags.contains .pong) (flags.contains .term) := by
  obtain ⟨rfl, hraw⟩ := validate_eq_ok h
  have hn := eq_mk8_of_lt ⟨raw.toNat, toNat_lt_of_and hraw⟩
  rwa [UInt16.ofNat_toNat] at hn

/-- Flags meet the flags of a stream if they contain one of them. -/
theorem intersects_stream {raw : UInt16} {flags : Flags} (h : validate raw = .ok flags) :
    flags.intersects .stream = (flags.contains .syn || flags.contains .finRead ||
      flags.contains .finWrite || flags.contains .window || flags.contains .data) := by
  obtain ⟨-, -, -, -, -, -, -, -, hst⟩ := mk8_spec (flags.contains .syn) (flags.contains .finRead)
    (flags.contains .finWrite) (flags.contains .window) (flags.contains .data)
    (flags.contains .ping) (flags.contains .pong) (flags.contains .term)
  rwa [← eq_mk8 h] at hst

end Flags

/-! ## What a reader has read -/

/-- A reader that went on from `r`, over some bytes. -/
structure Reader.Read (r r' : Reader) (bytes : Bytes) : Prop where
  buf : r'.buf = r.buf
  read : r.buf.take r'.at = r.buf.take r.at ++ bytes

/-- Nothing was read where nothing happened. -/
theorem Reader.Read.nil (r : Reader) : r.Read r [] := ⟨rfl, (List.append_nil _).symm⟩

/-- What was read after what was read was read. -/
theorem Reader.Read.trans {r r' r'' : Reader} {b b' : Bytes} (h : r.Read r' b)
    (h' : r'.Read r'' b') : r.Read r'' (b ++ b') := by
  refine ⟨h'.buf.trans h.buf, ?_⟩
  have hread := h'.read
  rw [h.buf, h.read] at hread
  rw [hread, List.append_assoc]

/-- `take` reads as many bytes as it is asked for. -/
theorem Reader.take_read {r r' : Reader} {n : ℕ} {b : Bytes} (h : r.take n = .ok (b, r')) :
    b.length = n ∧ r.Read r' b := by
  unfold take at h
  split_ifs at h with hn
  cases h
  refine ⟨?_, rfl, List.take_add⟩
  rw [List.length_take, List.length_drop]
  omega

namespace Header

/-- A field that was read is there if the flags say so, and is written as what was read. -/
theorem takeField_read {α : Type} {r r' : Reader} {present : Bool} {n : ℕ} {ofBytes : Bytes → α}
    {field : Option α} (toBytes : α → Bytes) (hinv : ∀ b, b.length = n → toBytes (ofBytes b) = b)
    (h : takeField r present n ofBytes = .ok (field, r')) :
    field.isSome = present ∧ r.Read r' (field.elim [] toBytes) := by
  unfold takeField at h
  cases present with
  | false =>
    cases h
    exact ⟨rfl, .nil _⟩
  | true =>
    obtain ⟨⟨b, r₁⟩, htake, hret⟩ := Lib.bind_eq_ok.mp h
    obtain ⟨hlen, hread⟩ := Reader.take_read htake
    cases hret
    refine ⟨rfl, ?_⟩
    rwa [Option.elim_some, hinv b hlen]

/-- A number that must not be zero, as it is written. -/
theorem new32_elim (n : UInt32) : (NonZeroU32.new n).elim 0 NonZeroU32.get = n := by
  unfold NonZeroU32.new
  split_ifs with hn
  · exact hn.symm
  · rfl

/-- A number is that of its nonzero form, or zero. -/
theorem new16_elim (n : UInt16) : (NonZeroU16.new n).elim 0 NonZeroU16.get = n := by
  unfold NonZeroU16.new
  split_ifs with hn
  · exact hn.symm
  · rfl

/-- A field that may be absent and must not be zero, once zero is excluded. -/
theorem field_join {α β : Type} {field : Option (Option α)} (h : field ≠ some none) (zero : β)
    (get : α → β) (toBytes : β → Bytes) :
    field.join.isSome = field.isSome ∧
      field.elim [] (fun o => toBytes (o.elim zero get)) =
        field.join.elim [] fun a => toBytes (get a) := by
  match field with
  | none => exact ⟨rfl, rfl⟩
  | some none => exact absurd rfl h
  | some (some a) => exact ⟨rfl, rfl⟩

/-- The stream part that is decoded has the flags it was announced with, and the layout that was
read. -/
theorem decodeStream_read {flags : Flags} {r r' : Reader} {stream : Option StreamHeader}
    (h : decodeStream flags r = .ok (.ok stream, r')) :
    r.Read r' (stream.elim [] StreamHeader.bytes) ∧ stream.isSome = flags.intersects .stream ∧
      ∀ s, stream = some s → s.flags.syn = flags.contains .syn ∧
        s.flags.finRead = flags.contains .finRead ∧ s.flags.finWrite = flags.contains .finWrite ∧
        s.credit.isSome = flags.contains .window ∧ s.dataLen.isSome = flags.contains .data := by
  unfold decodeStream at h
  split_ifs at h with hst
  · obtain ⟨⟨id, r₁⟩, hid, h⟩ := Lib.bind_eq_ok.mp h
    obtain ⟨⟨credit, r₂⟩, hcredit, h⟩ := Lib.bind_eq_ok.mp h
    simp only at h
    split_ifs at h with hzero
    · cases h
    obtain ⟨⟨dataLen, r₃⟩, hlen, h⟩ := Lib.bind_eq_ok.mp h
    simp only at h
    split_ifs at h with hzero'
    · cases h
    -- What was read, field by field, is what would be written for it.
    obtain ⟨hidlen, hidread⟩ := Reader.take_read hid
    obtain ⟨hcsome, hcread⟩ := takeField_read
      (fun o : Option NonZeroU32 => Lib.be32 (o.elim 0 NonZeroU32.get))
      (fun b hb => by rw [new32_elim, Lib.be32_ofBe32 hb]) hcredit
    obtain ⟨hdsome, hdread⟩ := takeField_read
      (fun o : Option NonZeroU16 => Lib.be16 (o.elim 0 NonZeroU16.get))
      (fun b hb => by rw [new16_elim, Lib.be16_ofBe16 hb]) hlen
    -- A field of zero was refused, so a field that is there is there after `NonZero::new` as well.
    obtain ⟨hcjoin, hcbytes⟩ := field_join hzero 0 NonZeroU32.get Lib.be32
    obtain ⟨hdjoin, hdbytes⟩ := field_join hzero' 0 NonZeroU16.get Lib.be16
    rw [hcbytes] at hcread
    rw [hdbytes] at hdread
    cases h
    refine ⟨?_, hst.symm, ?_⟩
    · rw [Option.elim_some, StreamHeader.bytes, Lib.be16_ofBe16 hidlen]
      exact (hidread.trans hcread).trans hdread
    · intro s hs
      cases hs
      exact ⟨rfl, rfl, rfl, hcjoin.trans hcsome, hdjoin.trans hdsome⟩
  · cases h
    exact ⟨.nil _, by simpa using hst, by simp⟩

/-- What a header is decoded from: each of its parts is announced by the flags, and the parts make
up the bytes after the flags. -/
theorem decode_eq_ok {flags : Flags} {bytes : Bytes} {h : Header}
    (hd : decode flags bytes = .ok (.ok h)) :
    (h.stream.isSome = flags.intersects .stream ∧
      ∀ s, h.stream = some s → s.flags.syn = flags.contains .syn ∧
        s.flags.finRead = flags.contains .finRead ∧ s.flags.finWrite = flags.contains .finWrite ∧
        s.credit.isSome = flags.contains .window ∧ s.dataLen.isSome = flags.contains .data) ∧
    h.ping.isSome = flags.contains .ping ∧ h.pong.isSome = flags.contains .pong ∧
    h.term = flags.contains .term ∧
    bytes = bytes.take 2 ++ (h.stream.elim [] StreamHeader.bytes ++ h.ping.elim [] Lib.be32 ++
      h.pong.elim [] fun pong => Lib.be32 pong.tEcho) := by
  unfold decode at hd
  split_ifs at hd with hlen
  obtain ⟨⟨stream, r₁⟩, hstream, hd⟩ := Lib.bind_eq_ok.mp hd
  cases stream with
  | error e => cases hd
  | ok stream =>
    obtain ⟨⟨ping, r₂⟩, hping, hd⟩ := Lib.bind_eq_ok.mp hd
    obtain ⟨⟨pong, r₃⟩, hpong, hd⟩ := Lib.bind_eq_ok.mp hd
    simp only at hd
    split_ifs at hd with hend
    obtain ⟨hsread, hsome, hflags⟩ := decodeStream_read hstream
    obtain ⟨hpi, hpiread⟩ := takeField_read Lib.be32 (fun b hb => Lib.be32_ofBe32 hb) hping
    obtain ⟨hpo, hporead⟩ := takeField_read (fun pong : Pong => Lib.be32 pong.tEcho)
      (fun b hb => Lib.be32_ofBe32 hb) hpong
    -- The reader has come to the end, so what it read is everything after the flags.
    have hread := ((hsread.trans hpiread).trans hporead).read
    rw [not_not.mp hend, List.take_length] at hread
    cases hd
    exact ⟨⟨hsome, hflags⟩, hpi, hpo, rfl, hread⟩

/-- A header that was decoded with valid flags has these flags. -/
theorem flags_of_decode {raw : UInt16} {flags : Flags} {bytes : Bytes} {h : Header}
    (hv : Flags.validate raw = .ok flags) (hd : decode flags bytes = .ok (.ok h)) :
    h.flags = flags := by
  obtain ⟨⟨hsome, hs⟩, hpi, hpo, ht, -⟩ := decode_eq_ok hd
  have hbits := Flags.eq_mk8 hv
  have hstream := Flags.intersects_stream hv
  cases hst : h.stream with
  | none =>
    -- Without a stream part, none of its flags is set.
    rw [hst, Option.isSome_none] at hsome
    rw [← hsome] at hstream
    simp only [Bool.false_eq, Bool.or_eq_false_iff] at hstream
    obtain ⟨⟨⟨⟨hsyn, hfr⟩, hfw⟩, hw⟩, hdata⟩ := hstream
    rw [hsyn, hfr, hfw, hw, hdata] at hbits
    rw [flags_of_none hst, hpi, hpo, ht]
    exact hbits.symm
  | some s =>
    obtain ⟨hsyn, hfr, hfw, hw, hdata⟩ := hs s hst
    rw [flags_of_some hst, hsyn, hfr, hfw, hw, hdata, hpi, hpo, ht]
    exact hbits.symm

/-- A header that was decoded with valid flags is one that a frame may have. -/
theorem legal_of_decode {raw : UInt16} {flags : Flags} {bytes : Bytes} {h : Header}
    (hv : Flags.validate raw = .ok flags) (hd : decode flags bytes = .ok (.ok h)) : h.Legal := by
  obtain ⟨⟨hsome, hs⟩, -⟩ := decode_eq_ok hd
  obtain ⟨rfl, -⟩ := Flags.validate_eq_ok hv
  rw [legal_iff, flags_of_decode hv hd]
  refine ⟨by rw [hv]; rfl, fun s hst => ?_⟩
  obtain ⟨hsyn, hfr, hfw, hw, hdata⟩ := hs s hst
  rw [StreamHeader.frameFlags_isEmpty, StreamHeader.carries, hsyn, hfr, hfw, hw, hdata,
    ← Flags.intersects_stream hv, ← hsome, hst]
  rfl

/-- A header is decoded from its layout only. -/
theorem bytes_of_decode {raw : UInt16} {flags : Flags} {bytes : Bytes} {h : Header}
    (hv : Flags.validate raw = .ok flags) (hstart : bytes.take 2 = Lib.be16 raw)
    (hd : decode flags bytes = .ok (.ok h)) : h.bytes = bytes := by
  obtain ⟨-, -, -, -, hbytes⟩ := decode_eq_ok hd
  have hraw : h.flags.bits = raw := by
    rw [flags_of_decode hv hd, (Flags.validate_eq_ok hv).1]
  rw [hbytes, hstart, Header.bytes, hraw]
  simp only [List.append_assoc]

/-- Encoding is canonical. Whatever bytes are accepted as a header, the header has the flags of
these bytes, encoding it writes the same bytes, and no other bytes are accepted as that header. -/
theorem encode_canonical {raw : UInt16} {flags : Flags} {bytes : Bytes} {h : Header}
    (hv : Flags.validate raw = .ok flags) (hlen : bytes.length = flags.headerLen)
    (hstart : bytes.take 2 = Lib.be16 raw) (hd : decode flags bytes = .ok (.ok h)) :
    h.flags = flags ∧ flags.headerLen ≤ maxHeaderLen ∧
    (∀ out : Bytes, out.length = maxHeaderLen →
      h.encode out = .ok (bytes ++ out.drop flags.headerLen, flags.headerLen)) ∧
    ∀ (raw' : UInt16) (flags' : Flags) (bytes' : Bytes), Flags.validate raw' = .ok flags' →
      bytes'.length = flags'.headerLen → bytes'.take 2 = Lib.be16 raw' →
      decode flags' bytes' = .ok (.ok h) → bytes' = bytes := by
  have hbytes : h.bytes = bytes := bytes_of_decode hv hstart hd
  refine ⟨flags_of_decode hv hd, headerLen_le flags, fun out hout => ?_, ?_⟩
  · rw [encode_ok (legal_of_decode hv hd) hout, hbytes, hlen]
  · intro raw' flags' bytes' hv' _ hstart' hd'
    exact (bytes_of_decode hv' hstart' hd').symm.trans hbytes

/-- The longest header: every flag but `TERM`. -/
theorem encode_canonical_longest :
    let bytes : Bytes := [0, 0x7F, 0, 5, 0, 0, 0, 9, 0, 3, 0, 0, 1, 0, 0xFF, 0, 0, 1]
    ∃ h : Header, decode ⟨0x7F⟩ bytes = .ok (.ok h) ∧ h.flags = ⟨0x7F⟩ ∧
      h.encode (List.replicate 18 7) = .ok (bytes, 18) := by
  have hd : ∃ h : Header, decode ⟨0x7F⟩
      [0, 0x7F, 0, 5, 0, 0, 0, 9, 0, 3, 0, 0, 1, 0, 0xFF, 0, 0, 1] = .ok (.ok h) :=
    ⟨_, by with_unfolding_all rfl⟩
  obtain ⟨h, hd⟩ := hd
  have hv : Flags.validate 0x7F = .ok ⟨0x7F⟩ := by decide +kernel
  obtain ⟨hflags, -, hencode, -⟩ := encode_canonical hv (by decide +kernel) (by decide +kernel) hd
  exact ⟨h, hd, hflags, hencode _ (by decide +kernel)⟩

end Header

end Rammux
