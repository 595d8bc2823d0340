import Rammux.Connection.Active

/-!
# The connection and its downgrade

`src/connection.rs`, `src/connection/state.rs` and `src/connection/downgrade.rs`: the connection as
the application polls it, and the future that recovers the transport. The codec moves from the one
to the other as it is, with a frame partly written and a frame partly read.

The inputs of a poll are what its environment decides, as in `Active.lean`. A connection that stops
leaves the streams behind, aborted, for the handles that the application still has; one that failed
leaves its transport as it was dropped.
-/

namespace Rammux

/-- How many inbound frames are processed in a row before outbound frames get a turn. -/
def inboundBatch : ℕ := 16

/-- What happens in one call that reads a frame. -/
structure ReadTurn where
  /-- What the transport answers. -/
  answers : List ReadAnswer
  /-- Whether the timeout between inbound frames has elapsed. -/
  elapsed : Bool

/-- What happens in one call that writes. -/
structure WriteTurn where
  /-- How the transport takes the pending frame. -/
  attempts : List WriteAttempt
  /-- What it says to a flush or a shutdown. -/
  answer : Poll (Except IoError Unit)

/-! ## The future that recovers the transport -/

/-- The state of our `TERM` frame. -/
inductive TermSendState where
  | init
  | enqueued
  | flushed
  | shutDown
  deriving DecidableEq, Repr

/-- The future that handles the downgrade. -/
structure Downgraded where
  /-- Recovered from the active connection. -/
  codec : Option RammuxCodec
  /-- Whether we've received the `TERM` frame. -/
  termReceived : Bool
  /-- Describes the state of our `TERM` frame. -/
  termSent : TermSendState
  /-- Whether we should automatically shut down the transport. -/
  withShutdown : Bool

namespace Downgraded

def new (codec : RammuxCodec) (termReceived : Bool) : Downgraded where
  codec := some codec
  termReceived
  termSent := .init
  withShutdown := false

/-- The writer is recovered: `TERM` is flushed, and the transport is shut down if it should be. -/
def writerRecovered (self : Downgraded) : Bool :=
  match self.termSent with
  | .init | .enqueued => false
  | .flushed => !self.withShutdown
  | .shutDown => true

/-- One turn of the loop of `poll_recover_writer` while the writer is not recovered. It returns
`none` to go on with the loop. -/
def writerTurn (self : Downgraded) (codec : RammuxCodec) (turn : WriteTurn) :
    Except Panic (Option (Poll (Except ErrorKind Unit)) × Downgraded) := do
  match self.termSent with
  | .init =>
    -- `TERM` is handed to the codec when there is room for it.
    let (res, codec) ← codec.pollReady turn.attempts
    match res with
    | .ready (.ok ()) =>
      let codec ← codec.startSend .terminate
      return (none, { self with codec := some codec, termSent := .enqueued })
    | res => return (some res, { self with codec := some codec })
  | _ =>
    -- It is written, and the transport is flushed or closed.
    let polled :=
      if self.withShutdown then codec.pollClose turn.attempts turn.answer
      else codec.pollFlush turn.attempts turn.answer
    let (res, codec) ← polled
    match res with
    | .ready (.ok ()) =>
      let termSent := if self.withShutdown then .shutDown else .flushed
      return (none, { self with codec := some codec, termSent })
    | res => return (some res, { self with codec := some codec })

/-- Sends `TERM`. The environment says how many turns of the loop are looked at. -/
def pollRecoverWriter (self : Downgraded) :
    List WriteTurn → Except Panic (Poll (Except ErrorKind Unit) × Downgraded)
  | [] =>
    match self.codec with
    | none => .error .polledAfterCompletion
    | some _ => .ok (if self.writerRecovered then .ready (.ok ()) else .pending, self)
  | turn :: turns =>
    match self.codec with
    | none => .error .polledAfterCompletion
    | some codec =>
      if self.writerRecovered then .ok (.ready (.ok ()), self)
      else do
        let (res, self) ← self.writerTurn codec turn
        match res with
        | some res => return (res, self)
        | none => self.pollRecoverWriter turns

/-- Reads frames until `TERM`, and processes none of them. -/
def pollRecoverReader (self : Downgraded) :
    List ReadTurn → Except Panic (Poll (Except ErrorKind Unit) × Downgraded)
  | [] =>
    if self.termReceived then .ok (.ready (.ok ()), self)
    else
      match self.codec with
      | none => .error .polledAfterCompletion
      | some _ => .ok (.pending, self)
  | reading :: readings =>
    if self.termReceived then .ok (.ready (.ok ()), self)
    else
      match self.codec with
      | none => .error .polledAfterCompletion
      | some codec => do
        let (res, codec) ← codec.pollNext reading.answers reading.elapsed
        let self := { self with codec := some codec }
        match res with
        | .pending => return (.pending, self)
        | .ready none => return (.ready (.error (.io .unexpectedEof)), self)
        | .ready (some (.error e)) => return (.ready (.error e), self)
        | .ready (some (.ok .terminate)) =>
          return (.ready (.ok ()), { self with termReceived := true })
        -- Frames before the peer's `TERM` are dropped.
        | .ready (some (.ok (.frame _))) => self.pollRecoverReader readings

/-- Polls the reader and then the writer, and gives the transport back once both are recovered. -/
def poll (self : Downgraded) (readings : List ReadTurn) (turns : List WriteTurn) :
    Except Panic (Poll (Except ErrorKind Transport) × Downgraded) := do
  -- An error of the reader returns before the writer is polled.
  let (read, self) ← self.pollRecoverReader readings
  match read with
  | .ready (.error e) => return (.ready (.error e), self)
  | read =>
    let (written, self) ← self.pollRecoverWriter turns
    match read, written with
    | _, .ready (.error e) => return (.ready (.error e), self)
    | .ready _, .ready _ =>
      -- The transport is taken out, so that polling once more panics.
      match self.codec with
      | none => .error .polledAfterCompletion
      | some codec => return (.ready (.ok codec.io), { self with codec := none })
    | _, _ => return (.pending, self)

end Downgraded

/-! ## The connection -/

/-- The state of a connection. A connection that stopped leaves the streams, and one that failed
leaves its transport as well. -/
inductive ConnState where
  | active (active : Active)
  | poisoned (io : Transport) (streams : Streams)
  | downgraded (streams : Streams)

/-- Progress made by a connection. -/
inductive RammuxProgress where
  /-- Downgrade procedure was initiated by the other side. -/
  | downgraded (future : Downgraded)
  /-- A new inbound stream was started by the other side. -/
  | inbound (stream : StreamRef)
  /-- Some progress was made, but nothing meaningful to report. -/
  | empty

/-- How the batch of inbound frames ended. -/
inductive Batch where
  | failed (error : ErrorKind)
  | term
  | processed (progress : Poll RammuxProgress)

/-- Processes inbound frames, one for each input, until one of them is something to report. -/
def Active.receiveBatch (self : Active) (progress : Poll RammuxProgress) :
    List ReadTurn → Except Panic (Batch × Active)
  | [] => .ok (.processed progress, self)
  | reading :: readings => do
    let (res, _, self) ← self.pollReceive reading.answers reading.elapsed
    match res with
    | .pending => return (.processed progress, self)
    | .ready (.error e) => return (.failed e, self)
    -- The batch goes on, but the poll will not return pending.
    | .ready (.ok (.frame none)) => self.receiveBatch (.ready .empty) readings
    | .ready (.ok (.frame (some stream))) =>
      -- A new stream ends the batch, since it is to be handed to the caller.
      return (.processed (.ready (.inbound stream)), self)
    | .ready (.ok .term) => return (.term, self)

namespace ConnState

/-- Starts the downgrade. The streams are aborted. -/
def downgrade (self : ConnState) (termReceived : Bool) : Except ErrorKind Downgraded × ConnState :=
  match self with
  | .active conn => (.ok (.new conn.codec termReceived), .downgraded conn.streams.abort)
  | .poisoned .. => (.error .poisoned, self)
  | .downgraded _ => (.error .alreadyDowngraded, self)

/-- The connection failed. -/
def fail : ConnState → ConnState
  | .active conn => .poisoned conn.codec.io conn.streams.abort
  | self => self

/-- Reads a bounded batch of inbound frames, and then writes. -/
def pollProgressInner (self : ConnState) (readings : List ReadTurn) (turns : List SendTurn) :
    Except Panic (Poll (Except ErrorKind RammuxProgress) × ConnState) :=
  match self with
  | .poisoned .. => .ok (.ready (.error .poisoned), self)
  | .downgraded _ => .ok (.ready (.error .alreadyDowngraded), self)
  | .active conn => do
    let (batch, conn) ← conn.receiveBatch .pending (readings.take inboundBatch)
    match batch with
    | .failed e => return (.ready (.error e), .active conn)
    | .term =>
      -- The peer downgrades: so does this side, whose reader has its `TERM` already.
      let started := (ConnState.active conn).downgrade true
      return (.ready (started.1.map .downgraded), started.2)
    | .processed progress =>
      let (sent, _, conn) ← conn.pollSend turns
      match sent with
      | .ready (.error e) => return (.ready (.error e), .active conn)
      -- Sending is no progress of its own: the answer is about what was received.
      | _ => return (progress.map .ok, .active conn)

/-- Makes progress in this connection. A failure of the connection is final; a misuse leaves the
connection as it is. -/
def pollProgress (self : ConnState) (readings : List ReadTurn) (turns : List SendTurn) :
    Except Panic (Poll (Except ErrorKind RammuxProgress) × ConnState) := do
  let (result, self) ← self.pollProgressInner readings turns
  match result with
  | .ready (.error e) => return (result, if e.isMisuse then self else self.fail)
  | _ => return (result, self)

/-- The streams, which the application uses through its handles whatever became of
the connection. -/
def streams : ConnState → Streams
  | .active conn => conn.streams
  | .poisoned _ streams | .downgraded streams => streams

/-- The connection after its streams were used. -/
def putStreams (self : ConnState) (streams : Streams) : ConnState :=
  match self with
  | .active conn => .active { conn with streams }
  | .poisoned io _ => .poisoned io streams
  | .downgraded _ => .downgraded streams

/-- Attempts to start a new outbound stream, in a slot that the slab offers. -/
def tryStartOutbound (self : ConnState) (key : ℕ) :
    Except ErrorKind (Option StreamRef) × ConnState :=
  match self with
  | .active conn =>
    let opened := conn.streams.openOutbound key
    (.ok opened.1, .active { conn with streams := opened.2 })
  | .poisoned .. => (.error .poisoned, self)
  | .downgraded _ => (.error .alreadyDowngraded, self)

end ConnState

/-! ## What the application holds -/

/-- What became of the future that recovers the transport. -/
inductive Recovery where
  /-- There is none yet. -/
  | none
  | polling (future : Downgraded)
  /-- It resolved to the transport. -/
  | recovered (io : Transport)
  /-- It resolved to an error, and the transport is dropped with it. -/
  | failed (future : Downgraded)

/-- A connection and its downgrade, as the application has them. -/
structure Side where
  conn : ConnState
  recovery : Recovery := .none

namespace Side

/-- What the application does. -/
inductive Action where
  /-- It polls the connection. -/
  | progress (readings : List ReadTurn) (turns : List SendTurn)
  /-- It starts a stream, in a slot that the slab offers. -/
  | open (key : ℕ)
  /-- It uses a stream. -/
  | app (r : StreamRef) (op : AppOp)
  | downgrade
  | withShutdown
  /-- It polls the future. -/
  | recover (readings : List ReadTurn) (turns : List WriteTurn)

/-- What it gets. -/
inductive Answer where
  | progressed (result : Poll (Except ErrorKind RammuxProgress))
  | opened (result : Except ErrorKind (Option StreamRef))
  | app (output : Streams.Output)
  | downgraded (result : Except ErrorKind Unit)
  | recovered (result : Poll (Except ErrorKind Unit))
  | none

/-- A new connection. -/
def new (io : Transport) (role : RammuxRole) (config : RammuxConfig) (clock : Clock) : Side :=
  ⟨.active (.new io role config clock), .none⟩

/-- What the application does, and what it gets. -/
def step (self : Side) : Action → Except Panic (Answer × Side)
  | .progress readings turns => do
    let (result, conn) ← self.conn.pollProgress readings turns
    match result with
    | .ready (.ok (.downgraded future)) =>
      return (.progressed result, { conn, recovery := .polling future })
    | _ => return (.progressed result, { self with conn })
  | .open key =>
    if self.conn.streams.outbound.Vacant key then
      let opened := self.conn.tryStartOutbound key
      .ok (.opened opened.1, { self with conn := opened.2 })
    else .ok (.none, self)
  | .app r op => do
    let (output, streams) ← self.conn.streams.step (.app r op)
    return (.app output, { self with conn := self.conn.putStreams streams })
  | .downgrade =>
    let started := self.conn.downgrade false
    match started.1 with
    | .ok future => .ok (.downgraded (.ok ()), { conn := started.2, recovery := .polling future })
    | .error e => .ok (.downgraded (.error e), { self with conn := started.2 })
  | .withShutdown =>
    match self.recovery with
    | .polling future =>
      .ok (.none, { self with recovery := .polling { future with withShutdown := true } })
    | _ => .ok (.none, self)
  | .recover readings turns =>
    match self.recovery with
    | .polling future => do
      let (result, future) ← future.poll readings turns
      match result with
      | .pending => return (.recovered .pending, { self with recovery := .polling future })
      | .ready (.ok io) =>
        return (.recovered (.ready (.ok ())), { self with recovery := .recovered io })
      | .ready (.error e) =>
        return (.recovered (.ready (.error e)), { self with recovery := .failed future })
    | _ => .ok (.none, self)

/-- The transport of the connection, wherever it is. -/
def io (self : Side) : Option Transport :=
  match self.recovery, self.conn with
  | .polling future, _ | .failed future, _ => future.codec.map RammuxCodec.io
  | .recovered io, _ => some io
  | .none, .active conn => some conn.codec.io
  | .none, .poisoned io _ => some io
  | .none, .downgraded _ => none

/-- The side after something happened to its transport. -/
def mapIo (self : Side) (f : Transport → Transport) : Side :=
  let onCodec (codec : RammuxCodec) : RammuxCodec := { codec with io := f codec.io }
  let onFuture (future : Downgraded) : Downgraded :=
    { future with codec := future.codec.map onCodec }
  match self.recovery, self.conn with
  | .polling future, _ => { self with recovery := .polling (onFuture future) }
  | .failed future, _ => { self with recovery := .failed (onFuture future) }
  | .recovered io, _ => { self with recovery := .recovered (f io) }
  | .none, .active conn => { self with conn := .active { conn with codec := onCodec conn.codec } }
  | .none, .poisoned io streams => { self with conn := .poisoned (f io) streams }
  | .none, .downgraded _ => self

end Side

/-! ## What a poll does -/

/-- What a poll of an active connection does: the batch fails, or reads `TERM`, or is processed, and
then the connection sends, and may fail. -/
inductive ConnState.Polled (a : Active) (readings : List ReadTurn) (turns : List SendTurn) :
    Poll (Except ErrorKind RammuxProgress) → ConnState → Prop
  | failed {a' : Active} {e : ErrorKind}
      (hbatch : a.receiveBatch .pending (readings.take inboundBatch) = .ok (.failed e, a')) :
      Polled a readings turns (.ready (.error e))
        (if e.isMisuse then .active a' else (ConnState.active a').fail)
  | term {a' : Active}
      (hbatch : a.receiveBatch .pending (readings.take inboundBatch) = .ok (.term, a')) :
      Polled a readings turns (.ready (.ok (.downgraded (.new a'.codec true))))
        (.downgraded a'.streams.abort)
  | stuck {a₁ a' : Active} {progress : Poll RammuxProgress} {e : ErrorKind} {frames : List OutFrame}
      (hbatch : a.receiveBatch .pending (readings.take inboundBatch) =
        .ok (.processed progress, a₁))
      (hsend : a₁.pollSend turns = .ok (.ready (.error e), frames, a')) :
      Polled a readings turns (.ready (.error e))
        (if e.isMisuse then .active a' else (ConnState.active a').fail)
  | sent {a₁ a' : Active} {progress : Poll RammuxProgress} {sent : Poll (Except ErrorKind Unit)}
      {frames : List OutFrame}
      (hbatch : a.receiveBatch .pending (readings.take inboundBatch) =
        .ok (.processed progress, a₁))
      (hsend : a₁.pollSend turns = .ok (sent, frames, a')) :
      Polled a readings turns (progress.map .ok) (.active a')

/-- What a poll of a running connection comes to. -/
theorem ConnState.pollProgress_cases {a : Active} {conn : ConnState} {readings : List ReadTurn}
    {turns : List SendTurn} {res : Poll (Except ErrorKind RammuxProgress)}
    (h : (ConnState.active a).pollProgress readings turns = .ok (res, conn)) :
    ConnState.Polled a readings turns res conn := by
  obtain ⟨⟨result, conn₁⟩, hinner, h⟩ := Lib.bind_eq_ok.mp h
  obtain ⟨⟨batch, a₁⟩, hbatch, hinner⟩ := Lib.bind_eq_ok.mp hinner
  cases batch with
  | failed e =>
    cases hinner
    cases h
    exact .failed hbatch
  | term =>
    cases hinner
    cases h
    exact .term hbatch
  | processed progress =>
    obtain ⟨⟨sent, frames, a₂⟩, hsend, hinner⟩ := Lib.bind_eq_ok.mp hinner
    have hrest : progress.map Except.ok = result → conn₁ = .active a₂ →
        conn = .active a₂ ∧ res = result := by
      rintro rfl rfl
      cases progress with
      | pending =>
        cases h
        exact ⟨rfl, rfl⟩
      | ready progress =>
        cases h
        exact ⟨rfl, rfl⟩
    match sent with
    | .ready (.error e) =>
      cases hinner
      cases h
      exact .stuck hbatch hsend
    | .ready (.ok ()) =>
      cases hinner
      obtain ⟨rfl, rfl⟩ := hrest rfl rfl
      exact .sent hbatch hsend
    | .pending =>
      cases hinner
      obtain ⟨rfl, rfl⟩ := hrest rfl rfl
      exact .sent hbatch hsend

end Rammux
