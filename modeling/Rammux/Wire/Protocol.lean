import Rammux.Lib.Framing
import Rammux.Wire.Header

/-!
# The frame format

The section "Frame format" of `PROTOCOL.md`, as a parser of a whole string. It is not translated
from the code: it finds the fields of a header by their offsets, from the table of the fields, where
the code reads them one after the other. Both flag bytes are judged once they are there, the values
of the fields once the whole header is there.
-/

namespace Rammux

/-- What is on the wire, one after the other. -/
inductive Item where
  /-- A frame with a payload. -/
  | frame (header : Header) (data : Bytes)
  /-- The `TERM` frame. -/
  | terminate
  deriving DecidableEq

namespace Protocol

/-- The header fields, in wire order. -/
inductive Field where
  | streamId
  | credit
  | len
  | tPing
  | tEcho
  deriving DecidableEq

/-- The fields in wire order. -/
def fields : List Field := [.streamId, .credit, .len, .tPing, .tEcho]

/-- The flags that add a field. -/
def Field.flags : Field → UInt16
  | .streamId => 0x001F
  | .credit => 0x0008
  | .len => 0x0010
  | .tPing => 0x0020
  | .tEcho => 0x0040

/-- The bytes of a field. -/
def Field.width : Field → ℕ
  | .streamId | .len => 2
  | .credit | .tPing | .tEcho => 4

/-- Whether one of the flags in `mask` is set. -/
def has (flags mask : UInt16) : Bool := flags &&& mask != 0

/-- The bytes of those of the given fields that are present. -/
def widths (flags : UInt16) (fs : List Field) : ℕ :=
  ((fs.filter fun f => has flags f.flags).map Field.width).sum

/-- Where a field is, behind the flags. -/
def Field.offset (flags : UInt16) (f : Field) : ℕ := widths flags (fields.takeWhile (· ≠ f))

/-- The value of a field, if it is present. -/
def Field.value (flags : UInt16) (bytes : Bytes) (f : Field) : Option ℕ :=
  if has flags f.flags then some (Lib.ofBe ((bytes.drop (f.offset flags)).take f.width)) else none

/-- The header with these flags and fields. -/
def header (flags : UInt16) (bytes : Bytes) : Header where
  stream := (Field.streamId.value flags bytes).map fun id =>
    { id := ⟨UInt16.ofNat id⟩
      flags := ⟨has flags 0x0002, has flags 0x0004, has flags 0x0001⟩
      credit := (Field.credit.value flags bytes).bind fun n => NonZeroU32.new (UInt32.ofNat n)
      dataLen := (Field.len.value flags bytes).bind fun n => NonZeroU16.new (UInt16.ofNat n) }
  ping := (Field.tPing.value flags bytes).map UInt32.ofNat
  pong := (Field.tEcho.value flags bytes).map fun n => ⟨UInt32.ofNat n⟩
  term := has flags 0x0080

/-- What is wrong with the values of the fields. -/
def violation (limit : ℕ) (flags : UInt16) (bytes : Bytes) : Option DecodeError :=
  if Field.credit.value flags bytes = some 0 then some .zeroCredit
  else if Field.len.value flags bytes = some 0 then some .zeroLength
  else if limit < (Field.len.value flags bytes).getD 0 then some .exceedsLimit
  else none

/-- What is wrong with the flags. -/
def flagViolation (flags : UInt16) : Option DecodeError :=
  if has flags 0xFF00 then some .reservedFlags
  else if flags = 0 then some .noFlags
  else if has flags 0x0080 && flags ≠ 0x0080 then some .termCombined
  else none

/-- What a string begins with, behind its flags. -/
def parseFields (limit : ℕ) (flags : UInt16) (bytes : Bytes) : Lib.Parsed UInt8 Item DecodeError :=
  let headerLen := widths flags fields
  if bytes.length < headerLen then .short
  else
    match violation limit flags bytes with
    | some e => .error e
    | none =>
      let len := (Field.len.value flags bytes).getD 0
      if bytes.length < headerLen + len then .short
      else
        let item :=
          if has flags 0x0080 then .terminate
          else .frame (header flags bytes) ((bytes.drop headerLen).take len)
        .item item (bytes.drop (headerLen + len))

/-- What a string begins with. -/
def parse (limit : ℕ) : Bytes → Lib.Parsed UInt8 Item DecodeError
  | b₀ :: b₁ :: bytes =>
    let flags := Lib.ofBe16 [b₀, b₁]
    match flagViolation flags with
    | some e => .error e
    | none => parseFields limit flags bytes
  | _ => .short

/-- What comes after a frame is the end of the string. -/
theorem parseFields_consumes {limit : ℕ} {flags : UInt16} {bytes rest : Bytes} {i : Item}
    (h : parseFields limit flags bytes = .item i rest) : ∃ n, rest = bytes.drop n := by
  simp only [parseFields] at h
  by_cases hshort : bytes.length < widths flags fields
  · rw [if_pos hshort] at h
    cases h
  · rw [if_neg hshort] at h
    split at h
    · cases h
    · split at h
      · cases h
      · cases h
        exact ⟨_, rfl⟩

/-- No frame that is accepted has more data than the limit. -/
theorem parseFields_data_le {limit : ℕ} {flags : UInt16} {bytes rest data : Bytes} {h : Header}
    (hparse : parseFields limit flags bytes = .item (.frame h data) rest) :
    data.length ≤ limit := by
  simp only [parseFields] at hparse
  by_cases hshort : bytes.length < widths flags fields
  · rw [if_pos hshort] at hparse
    cases hparse
  rw [if_neg hshort] at hparse
  split at hparse
  · cases hparse
  · next hviolation =>
    split at hparse
    · cases hparse
    have hlimit : (Field.len.value flags bytes).getD 0 ≤ limit := by
      unfold violation at hviolation
      split_ifs at hviolation with _ _ hlimit
      exact not_lt.mp hlimit
    by_cases hterm : has flags 0x0080 = true
    · rw [if_pos hterm] at hparse
      cases hparse
    · rw [if_neg hterm] at hparse
      cases hparse
      exact (List.length_take_le _ _).trans hlimit

/-- The payload of a frame is within the limit. -/
theorem parse_data_le {limit : ℕ} {bytes rest data : Bytes} {h : Header}
    (hparse : parse limit bytes = .item (.frame h data) rest) : data.length ≤ limit := by
  unfold parse at hparse
  split at hparse
  · dsimp only at hparse
    split at hparse
    · cases hparse
    · exact parseFields_data_le hparse
  · cases hparse

/-- The frames of the protocol. -/
def grammar (limit : ℕ) : Lib.Grammar UInt8 Item DecodeError where
  parse := parse limit
  consumes := by
    intro s i rest h
    unfold parse at h
    split at h
    · next b₀ b₁ bytes =>
      simp only at h
      split at h
      · cases h
      · obtain ⟨n, rfl⟩ := parseFields_consumes h
        refine ⟨b₀ :: b₁ :: bytes.take n, List.cons_ne_nil _ _, ?_⟩
        rw [List.cons_append, List.cons_append, List.take_append_drop]
    · cases h

/-! ## The fields of a header -/

/-- No fields take no bytes. -/
@[simp] theorem widths_nil (flags : UInt16) : widths flags [] = 0 := rfl

/-- A field takes bytes when its flag is set, and the others follow. -/
@[simp] theorem widths_cons (flags : UInt16) (f : Field) (fs : List Field) :
    widths flags (f :: fs) = (if has flags f.flags then f.width else 0) + widths flags fs := by
  unfold widths
  rw [List.filter_cons]
  split <;> simp

/-- A frame with credit or data has a stream ID. -/
theorem has_streamId {flags : UInt16} {f : Field} (hf : f = .credit ∨ f = .len)
    (h : has flags f.flags = true) : has flags Field.streamId.flags = true := by
  have hmask : Field.streamId.flags &&& f.flags = f.flags := by rcases hf with rfl | rfl <;> rfl
  unfold has at h ⊢
  rw [bne_iff_ne] at h ⊢
  intro h0
  rw [← hmask, ← UInt16.and_assoc, h0, UInt16.zero_and] at h
  exact h rfl

/-- The fields of a header that is there are within it. -/
theorem Field.value_eq {flags : UInt16} {bytes : Bytes} {f : Field} (h : has flags f.flags = true) :
    f.value flags bytes = some (Lib.ofBe ((bytes.drop (f.offset flags)).take f.width)) :=
  if_pos h

/-- A field whose flag is not set has no value. -/
theorem Field.value_of_not {flags : UInt16} {bytes : Bytes} {f : Field}
    (h : has flags f.flags = false) : f.value flags bytes = none :=
  if_neg (by simp [h])

/-- Where the field after `f` is. -/
theorem offset_next (flags : UInt16) :
    Field.credit.offset flags =
        Field.streamId.offset flags + (if has flags Field.streamId.flags then 2 else 0) ∧
      Field.len.offset flags =
        Field.credit.offset flags + (if has flags Field.credit.flags then 4 else 0) ∧
      Field.tPing.offset flags =
        Field.len.offset flags + (if has flags Field.len.flags then 2 else 0) ∧
      Field.tEcho.offset flags =
        Field.tPing.offset flags + (if has flags Field.tPing.flags then 4 else 0) ∧
      widths flags fields =
        Field.tEcho.offset flags + (if has flags Field.tEcho.flags then 4 else 0) := by
  have hunfold : ∀ fs : List Field, ∀ f : Field, fields.takeWhile (· ≠ f) = fs →
      f.offset flags = widths flags fs := by
    rintro fs f rfl
    rfl
  rw [hunfold [] .streamId rfl, hunfold [.streamId] .credit rfl,
    hunfold [.streamId, .credit] .len rfl, hunfold [.streamId, .credit, .len] .tPing rfl,
    hunfold [.streamId, .credit, .len, .tPing] .tEcho rfl]
  simp only [fields, widths_cons, widths_nil, Field.width]
  omega

/-- What is wrong with the values of the fields, apart from the limit. -/
def zeroViolation (flags : UInt16) (bytes : Bytes) : Option DecodeError :=
  if Field.credit.value flags bytes = some 0 then some .zeroCredit
  else if Field.len.value flags bytes = some 0 then some .zeroLength
  else none

/-- A value fits into its field. -/
theorem value_lt (flags : UInt16) (bytes : Bytes) (f : Field) (n : ℕ)
    (h : f.value flags bytes = some n) : n < 256^f.width := by
  unfold Field.value at h
  split at h
  · cases h
    refine (Lib.ofBe_lt _).trans_le (Nat.pow_le_pow_right (by norm_num) ?_)
    exact List.length_take_le _ _
  · cases h

/-- A field is within the header. -/
theorem Field.offset_add_le {flags : UInt16} {f : Field} (h : has flags f.flags = true) :
    f.offset flags + f.width ≤ widths flags fields := by
  obtain ⟨h₁, h₂, h₃, h₄, h₅⟩ := offset_next flags
  cases f <;> simp only [h, if_true, Field.width] at * <;> omega

/-- The values of the fields are in the header, whatever comes after it. -/
theorem Field.value_append {flags : UInt16} {bytes : Bytes}
    (hlen : bytes.length = widths flags fields) (tail : Bytes) (f : Field) :
    f.value flags (bytes ++ tail) = f.value flags bytes := by
  cases hf : has flags f.flags with
  | false => rw [value_of_not hf, value_of_not hf]
  | true =>
    have hle := offset_add_le hf
    rw [value_eq hf, value_eq hf, List.drop_append_of_le_length (by omega),
      List.take_append_of_le_length (by rw [List.length_drop]; omega)]

/-- A header does not depend on the bytes behind it. -/
theorem header_append {flags : UInt16} {bytes : Bytes} (hlen : bytes.length = widths flags fields)
    (tail : Bytes) : header flags (bytes ++ tail) = header flags bytes := by
  simp only [header, Field.value_append hlen]

/-- Whether a header violates the protocol does not depend on the bytes behind it. -/
theorem violation_append {flags : UInt16} {bytes : Bytes}
    (hlen : bytes.length = widths flags fields) (limit : ℕ) (tail : Bytes) :
    violation limit flags (bytes ++ tail) = violation limit flags bytes := by
  simp only [violation, Field.value_append hlen]

/-- A zero that is forbidden is found before a length beyond the limit. -/
theorem violation_eq (limit : ℕ) (flags : UInt16) (bytes : Bytes) :
    violation limit flags bytes =
      match zeroViolation flags bytes with
      | some e => some e
      | none =>
        if limit < (Field.len.value flags bytes).getD 0 then some .exceedsLimit else none := by
  unfold violation zeroViolation
  split_ifs <;> rfl

/-- The length of the payload is in the stream part. -/
theorem header_dataLen (flags : UInt16) (bytes : Bytes) :
    (header flags bytes).stream.bind StreamHeader.dataLen =
      (Field.len.value flags bytes).bind fun n => NonZeroU16.new (UInt16.ofNat n) := by
  rw [header]
  cases hst : has flags Field.streamId.flags with
  | true =>
    rw [Field.value_eq hst]
    rfl
  | false =>
    have hlen : has flags Field.len.flags = false :=
      Bool.eq_false_iff.mpr fun h => by simp [has_streamId (.inr rfl) h] at hst
    rw [Field.value_of_not hst, Field.value_of_not hlen]
    rfl

/-- `TERM` has no fields. -/
theorem value_of_term {flags : UInt16} (hv : flagViolation flags = none)
    (ht : has flags 0x0080 = true) (bytes : Bytes) (f : Field) : f.value flags bytes = none := by
  have hflags : flags = 0x0080 := by
    unfold flagViolation at hv
    split_ifs at hv with _ _ h
    simpa [ht] using h
  refine Field.value_of_not ?_
  rw [hflags]
  cases f <;> rfl

/-- What is behind a header that is there is its payload and the rest of the string. -/
theorem parseFields_append {flags : UInt16} {bytes : Bytes}
    (hlen : bytes.length = widths flags fields) (limit : ℕ) (tail : Bytes) :
    parseFields limit flags (bytes ++ tail) =
      match violation limit flags bytes with
      | some e => .error e
      | none =>
        let len := (Field.len.value flags bytes).getD 0
        if tail.length < len then .short
        else
          .item (if has flags 0x0080 then .terminate
            else .frame (header flags bytes) (tail.take len)) (tail.drop len) := by
  simp only [parseFields, violation_append hlen, Field.value_append hlen,
    header_append hlen, List.length_append, ← hlen, List.drop_left, Nat.add_lt_add_iff_left,
    List.drop_length_add_append]
  rw [if_neg (by omega)]

end Protocol

/-! ## Decoding a header

The code reads the fields one after the other, so its reader is at the offset of each field when it
is the field's turn. -/

namespace Header

open Protocol

/-- The code and the protocol agree on which fields are present. -/
theorem contains_eq_has (f : Flags) :
    f.contains .syn = has f.bits 0x0001 ∧ f.contains .finRead = has f.bits 0x0002 ∧
      f.contains .finWrite = has f.bits 0x0004 ∧
      f.contains .window = has f.bits Field.credit.flags ∧
      f.contains .data = has f.bits Field.len.flags ∧
      f.contains .ping = has f.bits Field.tPing.flags ∧
      f.contains .pong = has f.bits Field.tEcho.flags ∧ f.contains .term = has f.bits 0x0080 ∧
      f.intersects .stream = has f.bits Field.streamId.flags :=
  ⟨f.contains_of_bit (k := 0) rfl, f.contains_of_bit (k := 1) rfl, f.contains_of_bit (k := 2) rfl,
    f.contains_of_bit (k := 3) rfl, f.contains_of_bit (k := 4) rfl, f.contains_of_bit (k := 5) rfl,
    f.contains_of_bit (k := 6) rfl, f.contains_of_bit (k := 7) rfl, rfl⟩

/-- And so on the length of the header. -/
theorem headerLen_eq (f : Flags) : f.headerLen = Flags.flagsLen + widths f.bits fields := by
  obtain ⟨-, -, -, hw, hd, hpi, hpo, -, hs⟩ := contains_eq_has f
  simp only [Flags.headerLen, fields, widths_cons, widths_nil, hw, hd, hpi, hpo, hs, Field.width]
  omega

section Decode

variable {flags : Flags} {b₀ b₁ : UInt8} {bytes : Bytes}

/-- Reading the next field gives its value, and moves behind it. -/
theorem takeField_value {α : Type} (flags : Flags) (b₀ b₁ : UInt8) (bytes : Bytes) (f : Field)
    (g : ℕ → α)
    (h : f.offset flags.bits + (if has flags.bits f.flags then f.width else 0) ≤ bytes.length) :
    takeField ⟨b₀ :: b₁ :: bytes, 2 + f.offset flags.bits⟩ (has flags.bits f.flags) f.width
        (fun b => g (Lib.ofBe b)) =
      .ok ((f.value flags.bits bytes).map g, ⟨b₀ :: b₁ :: bytes,
        2 + (f.offset flags.bits + if has flags.bits f.flags then f.width else 0)⟩) := by
  have hdrop : (b₀ :: b₁ :: bytes).drop (2 + f.offset flags.bits) =
      bytes.drop (f.offset flags.bits) := by
    rw [add_comm]
    rfl
  cases hf : has flags.bits f.flags with
  | false => rw [Field.value_of_not hf]; rfl
  | true =>
    rw [hf, if_pos rfl] at h
    rw [Field.value_eq hf]
    unfold takeField Reader.take
    rw [if_pos rfl, hdrop, if_pos (by simp only [List.length_cons]; omega), if_pos rfl,
      ← Nat.add_assoc]
    rfl

/-- A credit or a length is refused if its value is zero. -/
theorem refused_iff {α : Type} {value : Option ℕ} {width : ℕ} (new : ℕ → Option α)
    (hlt : ∀ n, value = some n → n < width) (hnew : ∀ n < width, new n = none ↔ n = 0) :
    value.map new = some none ↔ value = some 0 := by
  cases value with
  | none => simp
  | some n =>
    rw [Option.map_some, Option.some_inj, Option.some_inj]
    exact hnew n (hlt n rfl)

/-- Only zero has no nonzero form. -/
theorem new32_eq_none {n : ℕ} (h : n < 2^32) : NonZeroU32.new (UInt32.ofNat n) = none ↔ n = 0 := by
  unfold NonZeroU32.new
  rw [dite_eq_left_iff]
  simp only [reduceCtorEq, imp_false, not_not]
  rw [← UInt32.toNat_inj, UInt32.toNat_ofNat_of_lt' h]
  rfl

/-- Only zero has no nonzero form. -/
theorem new16_eq_none {n : ℕ} (h : n < 2^16) : NonZeroU16.new (UInt16.ofNat n) = none ↔ n = 0 := by
  unfold NonZeroU16.new
  rw [dite_eq_left_iff]
  simp only [reduceCtorEq, imp_false, not_not]
  rw [← UInt16.toNat_inj, UInt16.toNat_ofNat_of_lt' h]
  rfl

/-- The stream part of a header that is there. -/
theorem decodeStream_eq (b₀ b₁ : UInt8) (hlen : widths flags.bits fields ≤ bytes.length) :
    ∃ k, decodeStream flags ⟨b₀ :: b₁ :: bytes, 2⟩ =
        .ok (match zeroViolation flags.bits bytes with
          | some e => .error e
          | none => .ok (header flags.bits bytes).stream, ⟨b₀ :: b₁ :: bytes, k⟩) ∧
      (zeroViolation flags.bits bytes = none → k = 2 + Field.tPing.offset flags.bits) := by
  obtain ⟨hsyn, hfr, hfw, hw, hd, -, -, -, hs⟩ := contains_eq_has flags
  obtain ⟨ho₁, ho₂, ho₃, ho₄, ho₅⟩ := offset_next flags.bits
  have ho₀ : Field.streamId.offset flags.bits = 0 := rfl
  unfold decodeStream
  rw [hs]
  cases hst : has flags.bits Field.streamId.flags with
  | false =>
    -- Without a stream ID there is neither credit nor data.
    have hcredit : has flags.bits Field.credit.flags = false :=
      Bool.eq_false_iff.mpr fun h => by simp [has_streamId (.inl rfl) h] at hst
    have hlen' : has flags.bits Field.len.flags = false :=
      Bool.eq_false_iff.mpr fun h => by simp [has_streamId (.inr rfl) h] at hst
    have hnone : zeroViolation flags.bits bytes = none := by
      rw [zeroViolation, Field.value_of_not hcredit, Field.value_of_not hlen']
      rfl
    refine ⟨2, ?_, fun _ => ?_⟩
    · rw [hnone, if_neg Bool.false_ne_true, header, Field.value_of_not hst]
      rfl
    · simp only [hst, hcredit, hlen', Bool.false_eq_true, if_false] at ho₁ ho₂ ho₃
      omega
  | true =>
    -- The fields in the order of the header, each read where the one before it ends.
    simp only [hst, if_true] at ho₁
    have hid : Reader.take ⟨b₀ :: b₁ :: bytes, 2⟩ 2 =
        .ok (bytes.take 2, ⟨b₀ :: b₁ :: bytes, 2 + Field.credit.offset flags.bits⟩) := by
      unfold Reader.take
      rw [if_pos (by simp only [List.length_cons]; omega), ho₁, ho₀]
      rfl
    have hcredit := takeField_value flags b₀ b₁ bytes .credit
      (fun n => NonZeroU32.new (UInt32.ofNat n)) (by simp only [Field.width]; omega)
    have hdata := takeField_value flags b₀ b₁ bytes .len
      (fun n => NonZeroU16.new (UInt16.ofNat n)) (by simp only [Field.width]; omega)
    have hzero := refused_iff (fun n => NonZeroU32.new (UInt32.ofNat n))
      (value_lt flags.bits bytes .credit) fun n h => new32_eq_none h
    have hzero' := refused_iff (fun n => NonZeroU16.new (UInt16.ofNat n))
      (value_lt flags.bits bytes .len) fun n h => new16_eq_none h
    simp only [Field.width, ← ho₂] at hcredit
    simp only [Field.width, ← ho₃] at hdata
    simp only [if_true, hid, hw, hd, bind, Except.bind, Lib.ofBe32, Lib.ofBe16, hcredit, hzero,
      hdata, hzero']
    rw [zeroViolation]
    -- The decoder stops at the first zero, and credit comes before the length.
    by_cases hc : Field.credit.value flags.bits bytes = some 0
    · rw [if_pos hc, if_pos hc]
      exact ⟨_, rfl, by simp⟩
    rw [if_neg hc, if_neg hc]
    by_cases hl : Field.len.value flags.bits bytes = some 0
    · rw [if_pos hl, if_pos hl]
      exact ⟨_, rfl, by simp⟩
    rw [if_neg hl, if_neg hl]
    refine ⟨_, ?_, fun _ => rfl⟩
    rw [header, Field.value_eq hst, ho₀, hsyn, hfr, hfw]
    cases Field.credit.value flags.bits bytes <;> cases Field.len.value flags.bits bytes <;> rfl

/-- The code and the protocol agree on the flags that a frame may have. -/
theorem validate_eq (raw : UInt16) : Flags.validate raw =
    match flagViolation raw with
    | some e => .error e
    | none => .ok ⟨raw⟩ := by
  unfold Flags.validate Flags.fromBits flagViolation
  by_cases hres : raw &&& 0xFF00 = 0
  · have hhas : has raw 0xFF00 = false := by rw [has, hres]; rfl
    have hterm : (Flags.mk raw).contains .term = has raw 0x0080 :=
      (contains_eq_has ⟨raw⟩).2.2.2.2.2.2.2.1
    have hbits : ((Flags.mk raw != .term) : Bool) = decide (raw ≠ 0x0080) := by
      rw [Bool.eq_iff_iff]
      simp [Flags.term]
    have hempty : (Flags.mk raw).isEmpty = decide (raw = 0) := rfl
    rw [if_pos hres, hhas]
    simp only [hempty, hterm, hbits, Bool.false_eq_true, if_false, decide_eq_true_eq]
    split_ifs <;> rfl
  · have hhas : has raw 0xFF00 = true := by
      rw [has, bne_iff_ne]
      exact hres
    rw [if_neg hres, hhas]
    rfl

/-- Decoding a header that is there, with valid flags, gives what the protocol says, and does not
panic. -/
theorem decode_eq (hlen : bytes.length = widths flags.bits fields) :
    decode flags (b₀ :: b₁ :: bytes) = .ok (match zeroViolation flags.bits bytes with
      | some e => .error e
      | none => .ok (header flags.bits bytes)) := by
  obtain ⟨-, -, -, -, -, hpi, hpo, ht, -⟩ := contains_eq_has flags
  obtain ⟨-, -, -, ho₄, ho₅⟩ := offset_next flags.bits
  have hheader : (b₀ :: b₁ :: bytes).length = flags.headerLen := by
    rw [headerLen_eq, ← hlen, Nat.add_comm]
    rfl
  obtain ⟨k, hstream, hk⟩ := decodeStream_eq b₀ b₁ hlen.ge
  unfold decode
  rw [if_neg (not_not.mpr hheader)]
  refine Lib.bind_eq_ok.mpr ⟨_, hstream, ?_⟩
  cases hz : zeroViolation flags.bits bytes with
  | some e => rfl
  | none =>
    rw [hk hz]
    have hping := takeField_value flags b₀ b₁ bytes .tPing UInt32.ofNat
      (by simp only [Field.width]; omega)
    have hpong := takeField_value flags b₀ b₁ bytes .tEcho (fun n => Pong.mk (UInt32.ofNat n))
      (by simp only [Field.width]; omega)
    simp only [Field.width, ← ho₄] at hping
    simp only [Field.width, ← ho₅] at hpong
    simp only [hpi, hpo, ht]
    refine Lib.bind_eq_ok.mpr ⟨_, hping, Lib.bind_eq_ok.mpr ⟨_, hpong, ?_⟩⟩
    simp only
    rw [if_neg]
    · rfl
    · rw [not_not, hheader, headerLen_eq]
      rfl

end Decode

end Header

end Rammux
