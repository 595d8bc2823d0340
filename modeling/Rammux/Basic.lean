import Rammux.Lib.Machine
import Rammux.Lib.Slab

/-!
# The vocabulary of a connection

Roles and configurations (`src/config.rs`), stream IDs (`src/stream_id.rs`), the errors a peer can
cause (`src/error.rs`), and the control flags of a frame (`src/wire/header.rs`). `Panic` lists the
places where the code panics or, in a release build, wraps: the model has no state after one.
Counters that the code holds in a `u64` are natural numbers here, with the checked arithmetic of
`u64Add` and `u64Sub`.
-/

namespace Rammux

/-- A string of bytes. -/
abbrev Bytes := List UInt8

/-- What a poll returns. -/
inductive Poll (α : Type) where
  | pending
  | ready (value : α)
  deriving DecidableEq, Repr

/-- The value of a poll, or `default` while it is pending. -/
def Poll.getD {α : Type} (poll : Poll α) (default : α) : α :=
  match poll with
  | .pending => default
  | .ready value => value

def Poll.map {α β : Type} (f : α → β) : Poll α → Poll β
  | .pending => .pending
  | .ready value => .ready (f value)

/-! ## Panics and checked arithmetic -/

/-- Where the code panics. -/
inductive Panic where
  /-- A subtraction of counters below zero. -/
  | underflow
  /-- A sum of counters beyond its type. -/
  | overflow
  /-- `a half-closed direction has data to read`. -/
  | halfClosedEmpty
  /-- More bytes to send than the bytes waiting. -/
  | splitTo
  /-- `Slab::remove` of a slot that holds nothing. -/
  | invalidKey
  /-- `data too big`: a payload longer than its length field. -/
  | dataTooBig
  /-- `illegal frame`: flags that no frame may have. -/
  | illegalFrame
  /-- `stream part without flags`. -/
  | streamWithoutFlags
  /-- `empty frame`. -/
  | emptyFrame
  /-- `frame encoder is busy`. -/
  | encoderBusy
  /-- `the header is already fixed`. -/
  | headerFixed
  /-- `overflow`: the transport accepted more than it was offered. -/
  | advanceOverflow
  /-- A slice out of the range of its buffer. -/
  | outOfRange
  /-- A debug assertion. -/
  | debugAssert
  /-- A future polled after it resolved. -/
  | polledAfterCompletion
  /-- `the element is in another list`. -/
  | anotherList
  /-- `a linked element is reachable from its neighbour`. -/
  | unreachableElement
  /-- `list IDs do not run out`. -/
  | listIds
  /-- `capacity overflow`. -/
  | capacityOverflow
  /-- `Box::into_raw never returns null`. -/
  | nullBox
  deriving DecidableEq, Repr

/-- Addition of `u64` counters. -/
def u64Add (a b : ℕ) : Except Panic ℕ := if a + b < 2^64 then .ok (a + b) else .error .overflow

/-- Subtraction of `u64` counters. -/
def u64Sub (a b : ℕ) : Except Panic ℕ := if b ≤ a then .ok (a - b) else .error .underflow

/-- A sum of `u64`s is a value exactly when it does not overflow. -/
theorem u64Add_eq_ok {a b c : ℕ} : u64Add a b = .ok c ↔ a + b < 2^64 ∧ c = a + b := by
  unfold u64Add
  split_ifs with h
  · simp only [Except.ok.injEq, h, true_and, eq_comm]
  · simp only [h, false_and]

/-- A difference of `u64`s is a value exactly when it does not go below zero. -/
theorem u64Sub_eq_ok {a b c : ℕ} : u64Sub a b = .ok c ↔ b ≤ a ∧ c = a - b := by
  unfold u64Sub
  split_ifs with h
  · simp only [Except.ok.injEq, h, true_and, eq_comm]
  · simp only [h, false_and]

/-! ## Roles and stream IDs -/

/-- The role of a side: clients start streams with even IDs, servers with odd ones. -/
inductive RammuxRole where
  | client
  | server
  deriving DecidableEq, Repr

/-- The role of the other side. -/
def RammuxRole.other : RammuxRole → RammuxRole
  | .client => .server
  | .server => .client

/-- The other side of the other side is this side. -/
@[simp] theorem RammuxRole.other_other (p : RammuxRole) : p.other.other = p := by cases p <;> rfl

/-- The two sides are different. -/
theorem RammuxRole.other_ne (p : RammuxRole) : p.other ≠ p := by cases p <;> decide

/-- Whoever is not one side is the other one. -/
theorem RammuxRole.eq_other_of_ne {p q : RammuxRole} (h : q ≠ p) : q = p.other := by
  cases p <;> cases q <;> first | rfl | exact absurd rfl h

/-- There are only the two sides. -/
theorem RammuxRole.eq_or_eq_other (p q : RammuxRole) : q = p ∨ q = p.other := by
  by_cases h : q = p
  · exact .inl h
  · exact .inr (RammuxRole.eq_other_of_ne h)

/-- The 16-bit ID of a stream. -/
structure StreamId where
  /-- The ID as it is on the wire. -/
  raw : UInt16
  deriving DecidableEq, Repr

/-- The role that started the stream. -/
def StreamId.initiatedBy (id : StreamId) : RammuxRole :=
  if id.raw.toNat % 2 = 0 then .client else .server

/-- The slot of the slab that a stream with this ID is in, at the side that started it. -/
def StreamId.slabIdx (id : StreamId) : ℕ := id.raw.toNat / 2

/-- The ID of a slot, for the streams that `role` starts. -/
def StreamId.fromSlabIdx (idx : ℕ) (role : RammuxRole) : Option StreamId :=
  let id := idx * 2 + if role = .server then 1 else 0
  if id < 2^16 then some ⟨UInt16.ofNat id⟩ else none

/-- The ID made for a slot leads back to it, and belongs to the role it was made for. -/
theorem StreamId.fromSlabIdx_eq_some {idx : ℕ} {role : RammuxRole} {id : StreamId}
    (h : fromSlabIdx idx role = some id) : id.slabIdx = idx ∧ id.initiatedBy = role := by
  have key : ∀ n, n < 2^16 → (UInt16.ofNat n).toNat = n := fun n hn =>
    UInt16.toNat_ofNat_of_lt' hn
  unfold fromSlabIdx at h
  cases role with
  | client =>
    simp only [reduceCtorEq, if_false, add_zero] at h
    split at h
    · next hlt =>
      cases h
      simp only [slabIdx, initiatedBy, key _ hlt]
      exact ⟨by omega, by rw [if_pos (by omega)]⟩
    · cases h
  | server =>
    simp only [if_true] at h
    split at h
    · next hlt =>
      cases h
      simp only [slabIdx, initiatedBy, key _ hlt]
      exact ⟨by omega, by rw [if_neg (by omega)]⟩
    · cases h

/-- An ID is determined by its slot and the role that started it. -/
theorem StreamId.ext_of_slabIdx {i j : StreamId} (hs : i.slabIdx = j.slabIdx)
    (hr : i.initiatedBy = j.initiatedBy) : i = j := by
  obtain ⟨i⟩ := i
  obtain ⟨j⟩ := j
  simp only [slabIdx, initiatedBy] at hs hr
  have : i.toNat = j.toNat := by
    split_ifs at hr <;> omega
  rw [UInt16.toNat_inj.mp this]

/-! ## Configuration -/

/-- The configuration of a connection. The bounds are those of the types of the fields
(`NonZeroU16`, `NonZeroU32`, `u32`); the durations are in nanoseconds. -/
structure RammuxConfig where
  /-- Limit for the data of one frame. -/
  frameLimit : ℕ
  /-- How many streams of the peer are allowed at the same time. -/
  maxInboundStreams : ℕ
  /-- How many streams of our own are allowed at the same time. -/
  maxOutboundStreams : ℕ
  /-- Base window of the inbound direction of every stream. -/
  localRecvWindow : ℕ
  /-- Base window of the outbound direction of every stream. -/
  remoteRecvWindow : ℕ
  /-- Pool shared by the inbound directions. -/
  localRecvPool : ℕ
  /-- Pool shared by the outbound directions. -/
  remoteRecvPool : ℕ
  /-- Bytes of data after which a `PING` is due. -/
  pingBytes : ℕ
  /-- Time after which a `PING` is due. -/
  pingInterval : ℕ
  /-- Longest time between inbound frames. -/
  inboundFrameTimeout : ℕ
  frameLimit_pos : 0 < frameLimit
  frameLimit_lt : frameLimit < 2^16
  localRecvWindow_pos : 0 < localRecvWindow
  localRecvWindow_lt : localRecvWindow < 2^32
  remoteRecvWindow_pos : 0 < remoteRecvWindow
  remoteRecvWindow_lt : remoteRecvWindow < 2^32
  localRecvPool_lt : localRecvPool < 2^32
  remoteRecvPool_lt : remoteRecvPool < 2^32
  pingBytes_pos : 0 < pingBytes
  pingBytes_lt : pingBytes < 2^32

/-- The default configuration. -/
def RammuxConfig.new : RammuxConfig where
  frameLimit := 16 * 1024
  maxInboundStreams := 128
  maxOutboundStreams := 128
  localRecvWindow := 64 * 1024
  remoteRecvWindow := 64 * 1024
  localRecvPool := 4 * 1024 * 1024
  remoteRecvPool := 4 * 1024 * 1024
  pingBytes := 32 * 1024
  pingInterval := 5 * 10^9
  inboundFrameTimeout := 10 * 10^9
  frameLimit_pos := by decide
  frameLimit_lt := by decide
  localRecvWindow_pos := by decide
  localRecvWindow_lt := by decide
  remoteRecvWindow_pos := by decide
  remoteRecvWindow_lt := by decide
  localRecvPool_lt := by decide
  remoteRecvPool_lt := by decide
  pingBytes_pos := by decide
  pingBytes_lt := by decide

/-- How many streams each side can have at most. -/
def maxStreamsPerSide : ℕ := 2^15

/-- Why a configuration cannot be used. -/
inductive ConfigError where
  | tooManyStreams (field : String) (value : ℕ)
  | zeroPingInterval
  | pingIntervalTooLong (pingInterval inboundFrameTimeout : ℕ)
  deriving DecidableEq, Repr

/-- Checks that a configuration can be used to run a connection. -/
def RammuxConfig.validate (config : RammuxConfig) : Except ConfigError Unit :=
  if maxStreamsPerSide < config.maxInboundStreams then
    .error (.tooManyStreams "max_inbound_streams" config.maxInboundStreams)
  else if maxStreamsPerSide < config.maxOutboundStreams then
    .error (.tooManyStreams "max_outbound_streams" config.maxOutboundStreams)
  else if config.pingInterval = 0 then .error .zeroPingInterval
  else if config.inboundFrameTimeout ≤ config.pingInterval then
    .error (.pingIntervalTooLong config.pingInterval config.inboundFrameTimeout)
  else .ok ()

/-- The default configuration can be used. -/
theorem RammuxConfig.validate_new : RammuxConfig.new.validate = .ok () := by decide

/-! ## Violations of the protocol -/

/-- The violations of the protocol within one stream. -/
inductive StreamError where
  | wrongPool
  | unknownStream
  | occupiedId
  | tooManyStreams
  | dataAfterFinWrite
  | duplicateFinWrite
  | exceededPool
  | windowAfterFinRead
  | excessCredit
  | duplicateFinRead
  deriving DecidableEq, Repr

/-- A violation, with the stream it happened in: `ErrorKind::Stream`. -/
structure StreamViolation where
  /-- ID of the stream. -/
  id : StreamId
  /-- The violation. -/
  error : StreamError
  deriving DecidableEq, Repr

/-! ## The stream part of a frame -/

/-- A nonzero `u32`. -/
structure NonZeroU32 where
  /-- The value. -/
  get : UInt32
  ne_zero : get ≠ 0
  deriving DecidableEq

/-- A nonzero `u16`. -/
structure NonZeroU16 where
  /-- The value. -/
  get : UInt16
  ne_zero : get ≠ 0
  deriving DecidableEq

/-- The value, if it is not zero. -/
def NonZeroU32.new (n : UInt32) : Option NonZeroU32 := if h : n = 0 then none else some ⟨n, h⟩

/-- The value, if it is not zero. -/
def NonZeroU16.new (n : UInt16) : Option NonZeroU16 := if h : n = 0 then none else some ⟨n, h⟩

/-- A value that is made nonzero is the value. -/
theorem NonZeroU16.get_of_new {x : UInt16} {n : NonZeroU16} (h : new x = some n) : n.get = x := by
  unfold new at h
  split at h
  · cases h
  · cases h
    rfl

/-- A nonzero value is positive. -/
theorem NonZeroU32.toNat_pos (n : NonZeroU32) : 0 < n.get.toNat := by
  rcases Nat.eq_zero_or_pos n.get.toNat with h | h
  · exact absurd (UInt32.toNat_inj.mp h) n.ne_zero
  · exact h

/-- The bytes that a credit returns, 0 for none. -/
def creditLen (credit : Option NonZeroU32) : ℕ := credit.elim 0 (·.get.toNat)

/-- The credit of a field that is left out for zero. -/
@[simp] theorem creditLen_new (n : UInt32) : creditLen (NonZeroU32.new n) = n.toNat := by
  unfold NonZeroU32.new
  split_ifs with h
  · rw [h]; rfl
  · rfl

/-- The control flags of a stream. -/
structure ControlFlags where
  /-- The sender of the frame stopped reading. -/
  finRead : Bool := false
  /-- The sender of the frame stopped writing. -/
  finWrite : Bool := false
  /-- First frame of the stream. -/
  syn : Bool := false
  deriving DecidableEq, Repr

/-- The part of a frame header that concerns one stream. -/
structure StreamHeader where
  /-- ID of the stream. -/
  id : StreamId
  /-- Control flags. -/
  flags : ControlFlags
  /-- Bytes returned to the receive window of the peer. -/
  credit : Option NonZeroU32
  /-- Length of the payload. -/
  dataLen : Option NonZeroU16
  deriving DecidableEq

/-- Which `FIN_*`s of a stream, or of one of its directions, were sent and received. -/
structure FinState where
  sent : Bool := false
  received : Bool := false
  deriving DecidableEq, Repr

/-- Whether all `FIN_*`s were sent and received. -/
def FinState.isDead (f : FinState) : Bool := f.sent && f.received

/-- The `FIN_*`s that both directions have. -/
def FinState.and (f g : FinState) : FinState := ⟨f.sent && g.sent, f.received && g.received⟩

end Rammux
