import Rammux.Connection.Pings
import Rammux.Connection.Traces
import Rammux.Wire.Codec

/-!
# A running connection

`src/connection/active.rs`: frames in, frames out. The codec, the streams and the `PING`/`PONG`
exchange meet here: `pollReceive` processes one inbound frame, and `pollSend` composes frames until
there is nothing to send or the transport takes no more.

The inputs of a call are what its environment decides: the answers of the transport, which timers
have elapsed, and which tasks the selector polls. `pollReceive` also tells which frame it processed,
and `pollSend` which frames it handed to the codec.
-/

namespace Rammux

/-- `StreamUpdate` as the stream part of a frame. -/
def StreamUpdate.outStream (u : StreamUpdate) : OutStream := ⟨u.id, u.flags, u.credit, u.data⟩

/-- `Streams::poll_update`: the selector polls the tasks that were woken, until one of them has an
update. -/
def Streams.pollTasks (s : Streams) :
    List (StreamRef × ℚ≥0) → Except Panic (Poll StreamUpdate × Streams)
  | [] => .ok (.pending, s)
  | (r, allowance) :: polls => do
    let (update, s) ← s.pollUpdate r allowance
    match update with
    | .ready update => return (.ready update, s)
    | .pending => s.pollTasks polls

/-- The next frame: what the exchange and the streams have for it. -/
def OutFrame.compose (part : Option Pong × Bool) (update : Poll StreamUpdate) : OutFrame where
  ping := part.2
  pong := part.1
  stream :=
    match update with
    | .ready update => some update.outStream
    | .pending => none
  term := false

/-- The time between two timestamps of one clock, in seconds. -/
def Clock.elapsed (now earlier : UInt32) : ℚ := ((now - earlier).toNat : ℚ) / 10^6

/-- A running connection. -/
structure Active where
  codec : RammuxCodec
  streams : Streams
  pings : Pings

/-- What an inbound frame did. -/
inductive Received where
  /-- The frame was processed, and it started the given stream, if any. -/
  | frame (newStream : Option StreamRef)
  /-- The peer sent `TERM`. -/
  | term

/-- What happens in one turn of the loop that sends. -/
structure SendTurn where
  /-- How the transport takes the pending frame. -/
  attempts : List WriteAttempt
  /-- Whether the interval between `PING`s has elapsed. -/
  elapsed : Bool
  /-- Which tasks the selector polls, and with which allowance. -/
  polls : List (StreamRef × ℚ≥0)
  /-- What the transport says to a flush, if there is nothing to send. -/
  flush : Poll (Except IoError Unit)

namespace Active

/-- A new connection. -/
def new (io : Transport) (role : RammuxRole) (config : RammuxConfig) (clock : Clock) : Active where
  codec := { io, frameLimit := config.frameLimit, clock }
  streams := Streams.new role config
  pings := .new config.pingBytes

/-- A `PONG` gives the round trip time on our clock. -/
def observed (self : Active) (frame : InboundFrame) : Streams :=
  match frame.header.pong with
  | none => self.streams
  | some pong =>
    let now := self.codec.clock.micros frame.headerAt
    let srtt := self.streams.flow.srtt.observe (Clock.elapsed now pong.tEcho)
    { self.streams with flow := { self.streams.flow with srtt } }

/-- Processes the parts of a frame: the connection part (`PONG`, `PING`), then the stream part. -/
def process (self : Active) (frame : InboundFrame) :
    Except Panic (Except ErrorKind Received × Active) := do
  let streams := self.observed frame
  let pings := frame.header.ping.elim self.pings self.pings.receivedPing
  match frame.header.stream with
  | none => return (.ok (.frame none), { self with streams, pings })
  | some part =>
    let (result, streams) ← streams.receive part frame.data
    match result with
    | .error violation => return (.error (.stream violation), { self with streams, pings })
    | .ok newStream => return (.ok (.frame newStream), { self with streams, pings })

/-- Reads and processes the next inbound frame. -/
def pollReceive (self : Active) (answers : List ReadAnswer) (elapsed : Bool) :
    Except Panic (Poll (Except ErrorKind Received) × Option InboundFrame × Active) := do
  let (res, codec) ← self.codec.pollNext answers elapsed
  let self := { self with codec }
  match res with
  | .pending => return (.pending, none, self)
  | .ready none => return (.ready (.error (.io .unexpectedEof)), none, self)
  | .ready (some (.error e)) => return (.ready (.error e), none, self)
  | .ready (some (.ok .terminate)) => return (.ready (.ok .term), none, self)
  | .ready (some (.ok (.frame frame))) =>
    let (result, self) ← self.process frame
    return (.ready result, some frame, self)

/-- One turn of the loop that sends: composes the next frame and hands it to the codec, or ends the
loop. -/
def sendTurn (self : Active) (turn : SendTurn) :
    Except Panic (Except (Poll (Except ErrorKind Unit)) OutFrame × Active) := do
  let (ready, codec) ← self.codec.pollReady turn.attempts
  let self := { self with codec }
  match ready with
  | .pending => return (.error .pending, self)
  | .ready (.error e) => return (.error (.ready (.error e)), self)
  | .ready (.ok ()) =>
    -- A frame is composed only when the codec has room for it.
    let taken := self.pings.takeFramePart turn.elapsed
    let (update, streams) ← self.streams.pollTasks turn.polls
    let frame := OutFrame.compose taken.1 update
    -- With nothing to send the loop ends in a flush.
    if frame.isEmpty then
      let (flushed, codec) ← self.codec.pollFlush [] turn.flush
      let self := { codec, streams, pings := taken.2 }
      match flushed with
      | .ready (.error e) => return (.error (.ready (.error e)), self)
      | _ => return (.error .pending, self)
    else
      let pings := taken.2.dataSent frame.dataLen
      let codec ← self.codec.startSend frame
      return (.ok frame, { codec, streams, pings })

/-- Writes frames until there is nothing to send, or the transport takes no more. The environment
says how many turns of the loop are looked at. -/
def pollSend (self : Active) :
    List SendTurn → Except Panic (Poll (Except ErrorKind Unit) × List OutFrame × Active)
  | [] => .ok (.pending, [], self)
  | turn :: turns => do
    let (result, self) ← self.sendTurn turn
    match result with
    | .error res => return (res, [], self)
    | .ok frame =>
      let (res, frames, self) ← self.pollSend turns
      return (res, frame :: frames, self)

/-- What can happen to a running connection. -/
inductive Action where
  /-- Bytes of the peer arrive at the transport. -/
  | arrive (bytes : Bytes)
  /-- The transport comes to its end. -/
  | eof
  | receive (answers : List ReadAnswer) (elapsed : Bool)
  | send (turns : List SendTurn)
  /-- The application starts a stream, in a slot that the slab offers. -/
  | open (key : ℕ)
  /-- The application uses a stream. -/
  | app (r : StreamRef) (op : AppOp)

/-- What comes of it. -/
inductive Answer where
  | received (result : Poll (Except ErrorKind Received)) (frame : Option InboundFrame)
  | sent (result : Poll (Except ErrorKind Unit)) (frames : List OutFrame)
  | streams (output : Streams.Output)
  | none

/-- The application acts on the streams. -/
def act (self : Active) (a : Streams.Action) : Except Panic (Answer × Active) := do
  let (output, streams) ← self.streams.step a
  return (.streams output, { self with streams })

/-- The transport after more bytes have arrived. -/
def arrive (self : Active) (inbox : Inbox) : Active :=
  { self with codec := { self.codec with io := { self.codec.io with inbox } } }

/-- One step of a running connection. -/
def step (self : Active) : Action → Except Panic (Answer × Active)
  | .arrive bytes =>
    let inbox := self.codec.io.inbox
    if inbox.eof then .ok (.none, self)
    else .ok (.none, self.arrive { inbox with bytes := inbox.bytes ++ bytes })
  | .eof => .ok (.none, self.arrive { self.codec.io.inbox with eof := true })
  | .receive answers elapsed => do
    let (result, frame, self) ← self.pollReceive answers elapsed
    return (.received result frame, self)
  | .send turns => do
    let (result, frames, self) ← self.pollSend turns
    return (.sent result frames, self)
  | .open key => self.act (.open key)
  | .app r op => self.act (.app r op)

/-- The running connection as a machine. -/
def machine (role : RammuxRole) (config : RammuxConfig) (clock : Clock) :
    Lib.Machine Panic Active Action Answer :=
  ⟨new ⟨⟨[], false⟩, []⟩ role config clock, step⟩

end Active

/-! ## What the calls do -/

/-- The states that the streams of a connection can reach. -/
def Streams.Reachable (role : RammuxRole) (config : RammuxConfig) (s : Streams) : Prop :=
  ∃ tr, (Streams.machine role config).Run tr s

section Reachable

variable {role : RammuxRole} {config : RammuxConfig} {s s' : Streams}

/-- What is reached by a step is reachable. -/
theorem Streams.Reachable.step {a : Streams.Action} {o : Streams.Output}
    (h : s.Reachable role config) (hstep : s.step a = .ok (o, s')) : s'.Reachable role config := by
  obtain ⟨tr, hrun⟩ := h
  exact ⟨_, hrun.step hstep⟩

/-- An update that a stream may emit: it carries something, and its data is within the limit. -/
structure StreamUpdate.Emittable (config : RammuxConfig) (u : StreamUpdate) : Prop where
  carries : u.flags.syn = true ∨ u.flags.finRead = true ∨ u.flags.finWrite = true ∨
    1 ≤ u.credit.toNat ∨ u.data ≠ []
  limit : u.data.length ≤ config.frameLimit

/-- Whatever a poll yields, a stream may emit. -/
theorem Streams.Reachable.poll {r : StreamRef} {allowance : ℚ≥0} {u : StreamUpdate}
    (h : s.Reachable role config) (hpoll : s.pollUpdate r allowance = .ok (.ready u, s')) :
    u.Emittable config := by
  obtain ⟨tr, hrun⟩ := h
  have hstep : s.step (.poll r allowance) = .ok (.polled (.ready u), s') :=
    Lib.bind_eq_ok.mpr ⟨_, hpoll, rfl⟩
  have hrun' : (Streams.machine role config).Run
      (tr ++ [(.poll r allowance, .polled (.ready u))]) s' := hrun.step hstep
  have htraced := Streams.traced_of_run hrun'
  have hmem : u ∈ Streams.updatesOf (tr ++ [(.poll r allowance, .polled (.ready u))]) r := by
    rw [Streams.updatesOf_snoc, Streams.emitted, if_pos rfl]
    exact List.mem_append_right _ (List.mem_singleton.mpr rfl)
  have hr : r < s'.next := by
    by_contra hr
    rw [(htraced.fresh r (not_lt.mp hr)).1] at hmem
    exact List.not_mem_nil hmem
  have hlegal := (htraced.emitted r hr).legal
  rw [(Streams.same_of_run hrun').2] at hlegal
  exact ⟨hlegal.something u hmem, hlegal.limit u hmem⟩

/-- The selector polls one task after the other. -/
theorem Streams.Reachable.pollTasks {polls : List (StreamRef × ℚ≥0)} {update : Poll StreamUpdate}
    (h : s.Reachable role config) (hpoll : s.pollTasks polls = .ok (update, s')) :
    s'.Reachable role config ∧ ∀ u, update = .ready u → u.Emittable config := by
  induction polls generalizing s with
  | nil =>
    cases hpoll
    exact ⟨h, nofun⟩
  | cons poll polls ih =>
    obtain ⟨⟨res, s₁⟩, hone, hrest⟩ := Lib.bind_eq_ok.mp hpoll
    have hstep : s.step (.poll poll.1 poll.2) = .ok (.polled res, s₁) :=
      Lib.bind_eq_ok.mpr ⟨_, hone, rfl⟩
    cases res with
    | pending => exact ih (h.step hstep) hrest
    | ready u =>
      cases hrest
      refine ⟨h.step hstep, fun v hv => ?_⟩
      cases hv
      exact h.poll hone

end Reachable

namespace Active

variable {self self' : Active}

/-- What processing a frame does: a step or two of the streams, and a step of the exchange. It fails
only with a violation of the peer. -/
structure Processed (role : RammuxRole) (config : RammuxConfig) (a : Active)
    (frame : InboundFrame) (res : Except ErrorKind Received) (a' : Active) : Prop where
  codec : a'.codec = a.codec
  pings : a'.pings = frame.header.ping.elim a.pings a.pings.receivedPing
  streams : a.streams.Reachable role config → a'.streams.Reachable role config
  res : (∃ newStream, res = .ok (.frame newStream)) ∨ ∃ violation, res = .error (.stream violation)

/-- What the processing of a frame comes to. -/
theorem process_eq_ok (role : RammuxRole) (config : RammuxConfig) {frame : InboundFrame}
    {res : Except ErrorKind Received} (h : self.process frame = .ok (res, self')) :
    Processed role config self frame res self' := by
  have hobserved : self.streams.Reachable role config →
      (self.observed frame).Reachable role config := by
    intro hr
    unfold observed
    split
    · exact hr
    · next pong _ =>
      exact hr.step
        (a := .observe (Clock.elapsed (self.codec.clock.micros frame.headerAt) pong.tEcho)) rfl
  unfold process at h
  simp only at h
  split at h
  · cases h
    exact ⟨rfl, rfl, hobserved, .inl ⟨none, rfl⟩⟩
  · next part _ =>
    obtain ⟨⟨result, streams⟩, hreceive, h⟩ := Lib.bind_eq_ok.mp h
    have hstep : (self.observed frame).step (.receive part frame.data) =
        .ok (.received result, streams) := Lib.bind_eq_ok.mpr ⟨_, hreceive, rfl⟩
    cases result with
    | error violation =>
      cases h
      exact ⟨rfl, rfl, fun hr => (hobserved hr).step hstep, .inr ⟨violation, rfl⟩⟩
    | ok newStream =>
      cases h
      exact ⟨rfl, rfl, fun hr => (hobserved hr).step hstep, .inl ⟨newStream, rfl⟩⟩

/-- A call that receives decodes a frame and processes it, or leaves everything but the codec. -/
theorem pollReceive_cases {answers : List ReadAnswer} {elapsed : Bool}
    {res : Poll (Except ErrorKind Received)} {frame : Option InboundFrame}
    (h : self.pollReceive answers elapsed = .ok (res, frame, self')) :
    ∃ outcome codec, self.codec.pollNext answers elapsed = .ok (outcome, codec) ∧
      ((frame = none ∧ self' = { self with codec } ∧
          (outcome = .pending ∧ res = .pending ∨
            (∃ e, res = .ready (.error e) ∧
              (e = .io .unexpectedEof ∨ outcome = .ready (some (.error e)))) ∨
            outcome = .ready (some (.ok .terminate)) ∧ res = .ready (.ok .term))) ∨
        ∃ f result, frame = some f ∧ outcome = .ready (some (.ok (.frame f))) ∧
          res = .ready result ∧
            ({ self with codec } : Active).process f = .ok (result, self')) := by
  obtain ⟨⟨outcome, codec⟩, hnext, h⟩ := Lib.bind_eq_ok.mp h
  refine ⟨outcome, codec, hnext, ?_⟩
  match outcome with
  | .pending =>
    cases h
    exact .inl ⟨rfl, rfl, .inl ⟨rfl, rfl⟩⟩
  | .ready none =>
    cases h
    exact .inl ⟨rfl, rfl, .inr (.inl ⟨_, rfl, .inl rfl⟩)⟩
  | .ready (some (.error e)) =>
    cases h
    exact .inl ⟨rfl, rfl, .inr (.inl ⟨_, rfl, .inr rfl⟩)⟩
  | .ready (some (.ok .terminate)) =>
    cases h
    exact .inl ⟨rfl, rfl, .inr (.inr ⟨rfl, rfl⟩)⟩
  | .ready (some (.ok (.frame f))) =>
    obtain ⟨⟨result, self₁⟩, hprocess, hret⟩ := Lib.bind_eq_ok.mp h
    cases hret
    exact .inr ⟨f, result, rfl, rfl, rfl, hprocess⟩

/-- A turn of the loop that sends ends the loop at the codec, or for want of something to send, or
hands a frame to the codec. -/
inductive Turned (self : Active) (turn : SendTurn) :
    Except (Poll (Except ErrorKind Unit)) OutFrame → Active → Prop
  | blocked {ready : Poll (Except ErrorKind Unit)} {codec : RammuxCodec}
      (hready : self.codec.pollReady turn.attempts = .ok (ready, codec))
      (hblocked : ready ≠ .ready (.ok ())) : Turned self turn (.error ready) { self with codec }
  | idle {codec codec' : RammuxCodec} {update : Poll StreamUpdate} {streams : Streams}
      {flushed res : Poll (Except ErrorKind Unit)}
      (hready : self.codec.pollReady turn.attempts = .ok (.ready (.ok ()), codec))
      (hpoll : self.streams.pollTasks turn.polls = .ok (update, streams))
      (hempty : (OutFrame.compose (self.pings.takeFramePart turn.elapsed).1 update).isEmpty = true)
      (hflush : codec.pollFlush [] turn.flush = .ok (flushed, codec'))
      (hres : ∀ e, res = .ready (.error e) → flushed = .ready (.error e)) :
      Turned self turn (.error res) ⟨codec', streams, (self.pings.takeFramePart turn.elapsed).2⟩
  | handed {codec codec' : RammuxCodec} {update : Poll StreamUpdate} {streams : Streams}
      {frame : OutFrame}
      (hready : self.codec.pollReady turn.attempts = .ok (.ready (.ok ()), codec))
      (hpoll : self.streams.pollTasks turn.polls = .ok (update, streams))
      (hframe : frame = .compose (self.pings.takeFramePart turn.elapsed).1 update)
      (hne : frame.isEmpty = false) (hsend : codec.startSend frame = .ok codec') :
      Turned self turn (.ok frame)
        ⟨codec', streams, (self.pings.takeFramePart turn.elapsed).2.dataSent frame.dataLen⟩

/-- What a turn of sending comes to. -/
theorem sendTurn_cases {turn : SendTurn} {res : Except (Poll (Except ErrorKind Unit)) OutFrame}
    (h : self.sendTurn turn = .ok (res, self')) : Turned self turn res self' := by
  obtain ⟨⟨ready, codec⟩, hready, h⟩ := Lib.bind_eq_ok.mp h
  match ready with
  | .pending =>
    cases h
    exact .blocked hready nofun
  | .ready (.error e) =>
    cases h
    exact .blocked hready nofun
  | .ready (.ok ()) =>
    obtain ⟨⟨update, streams⟩, hpoll, h⟩ := Lib.bind_eq_ok.mp h
    simp only at h
    split_ifs at h with hempty
    · obtain ⟨⟨flushed, codec'⟩, hflush, h⟩ := Lib.bind_eq_ok.mp h
      match flushed with
      | .pending =>
        cases h
        exact .idle hready hpoll hempty hflush nofun
      | .ready (.ok ()) =>
        cases h
        exact .idle hready hpoll hempty hflush nofun
      | .ready (.error e) =>
        cases h
        exact .idle hready hpoll hempty hflush fun _ => id
    · obtain ⟨codec', hsend, h⟩ := Lib.bind_eq_ok.mp h
      cases h
      exact .handed hready hpoll rfl (Bool.eq_false_iff.mpr hempty) hsend

end Active

end Rammux
