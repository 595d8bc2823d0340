import Rammux.Wire.Header

/-!
# The `PING`/`PONG` exchange

`src/connection/pings.rs`: which `PONG` is owed, and when a `PING` is due. The timer of the schedule
is an input: whether it has elapsed when it is polled.
-/

namespace Rammux

/-- Addition of `u32` counters that saturates. -/
def u32SaturatingAdd (a b : ℕ) : ℕ := min (a + b) (2^32 - 1)

/-- Decides when to send `PING`s. -/
structure PingSchedule where
  /-- How many bytes of data trigger a `PING`. -/
  pingBytes : ℕ
  /-- Bytes of `DATA` written since the last `PING`. -/
  unpingedBytes : ℕ := 0
  deriving DecidableEq, Repr

namespace PingSchedule

/-- Whether a `PING` should be sent. -/
def pollDue (self : PingSchedule) (elapsed : Bool) : Bool :=
  decide (self.pingBytes ≤ self.unpingedBytes) || elapsed

/-- A `PING` is being sent. -/
def sent (self : PingSchedule) : PingSchedule := { self with unpingedBytes := 0 }

/-- `DATA` is being sent. -/
def dataSent (self : PingSchedule) (len : ℕ) : PingSchedule :=
  { self with unpingedBytes := u32SaturatingAdd self.unpingedBytes (min len (2^32 - 1)) }

end PingSchedule

/-- Our side of the exchange: the `PING`s we send and the `PONG`s we owe. -/
structure Pings where
  schedule : PingSchedule
  /-- The answer to the latest `PING` we read, if it is not written yet. -/
  owedPong : Option Pong := none
  deriving DecidableEq, Repr

namespace Pings

/-- The exchange of a new connection. -/
def new (pingBytes : ℕ) : Pings := ⟨⟨pingBytes, 0⟩, none⟩

/-- The peer sent a `PING`. -/
def receivedPing (self : Pings) (tPing : UInt32) : Pings := { self with owedPong := some ⟨tPing⟩ }

/-- What the next outgoing frame carries of the exchange. Taking a `PING` records
that it is sent. -/
def takeFramePart (self : Pings) (elapsed : Bool) : (Option Pong × Bool) × Pings :=
  let ping := self.schedule.pollDue elapsed
  let schedule := if ping then self.schedule.sent else self.schedule
  ((self.owedPong, ping), { schedule, owedPong := none })

/-- `DATA` is being sent. -/
def dataSent (self : Pings) (len : ℕ) : Pings :=
  { self with schedule := self.schedule.dataSent len }

end Pings

end Rammux
