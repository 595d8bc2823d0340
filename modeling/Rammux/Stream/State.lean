import Rammux.Stream.Inbound
import Rammux.Stream.Outbound

/-!
# A stream: its two directions, its task, and its handle

`StreamState` of `src/stream.rs`, `StreamHandle::received` of `src/stream/handle.rs` and
`StreamUpdates::poll_progress` of `src/stream/updates.rs`. Whoever works on a stream holds its
state, and what it shares with the other streams: `StreamCtx`.

A received frame acts in up to four stages, `WINDOW`, `DATA`, `FIN_WRITE` and `FIN_READ`, and stops
at the first violation. `StreamCtx.Moves` and `StreamCtx.Quiet` say what every stage does to the
pools, the turns and the wakers; they compose, so they hold of the whole frame. `Received` and
`Polled` say what an accepted frame and a poll do to the two directions.
-/

namespace Rammux

/-- The two directions of a stream. -/
@[ext]
structure StreamState where
  inbound : InboundTraffic
  outbound : OutboundTraffic
  deriving DecidableEq

/-- The state of a new stream: `stream::new`. -/
def StreamState.new (config : RammuxConfig) : StreamState where
  inbound := InboundTraffic.new config.localRecvWindow
  outbound := OutboundTraffic.new config.frameLimit config.frameLimit_pos config.remoteRecvWindow

/-- The `FIN_*` state of the whole stream. -/
def StreamState.finState (s : StreamState) : FinState := s.inbound.finState.and s.outbound.finState

/-- The stream has nothing to send by itself, and it is in the turn queue (`queued`) only with data
it has no room for. -/
structure StreamState.Rests (s : StreamState) (queued : Prop) : Prop where
  inbound : s.inbound.Idle
  outbound : s.outbound.Rests queued

/-- The `FIN_*`s of a stream only ever become more. -/
structure StreamState.FinLe (s s' : StreamState) : Prop where
  inFinSent : s.inbound.finSent = true → s'.inbound.finSent = true
  ended : s.inbound.ended = true → s'.inbound.ended = true
  outFinSent : s.outbound.finSent = true → s'.outbound.finSent = true
  finReceived : s.outbound.finReceived = true → s'.outbound.finReceived = true

/-- Where nothing happens the `FIN_*`s stay. -/
theorem StreamState.FinLe.refl (s : StreamState) : s.FinLe s := ⟨id, id, id, id⟩

/-- The `FIN_*`s only become more, step after step. -/
theorem StreamState.FinLe.trans {s s' s'' : StreamState} (h : s.FinLe s') (h' : s'.FinLe s'') :
    s.FinLe s'' :=
  ⟨h'.inFinSent ∘ h.inFinSent, h'.ended ∘ h.ended, h'.outFinSent ∘ h.outFinSent,
    h'.finReceived ∘ h.finReceived⟩

/-- A stream is dead once the four `FIN_*`s were exchanged. -/
theorem StreamState.isDead_iff {s : StreamState} : s.finState.isDead = true ↔
    (s.inbound.finSent = true ∧ s.outbound.finSent = true) ∧ s.inbound.ended = true ∧
      s.outbound.finReceived = true := by
  have hended : s.inbound.finSent = true → s.inbound.finState.received = s.inbound.ended := by
    unfold InboundTraffic.finSent InboundTraffic.finState InboundTraffic.ended
    cases s.inbound.state <;> simp
  simp only [StreamState.finState, FinState.and, FinState.isDead, Bool.and_eq_true]
  constructor
  · rintro ⟨⟨hi, ho⟩, hr, hf⟩
    exact ⟨⟨hi, ho⟩, by rw [← hended hi, hr], hf⟩
  · rintro ⟨⟨hi, ho⟩, hr, hf⟩
    exact ⟨⟨hi, ho⟩, by rw [hended hi, hr], hf⟩

/-- Both `FIN_*`s of the stream were sent. -/
theorem StreamState.sent_iff {s : StreamState} : s.finState.sent = true ↔
    s.inbound.finSent = true ∧ s.outbound.finSent = true := by
  simp [StreamState.finState, FinState.and, InboundTraffic.finSent, OutboundTraffic.finSent]

/-- What no operation of the application changes: the windows, and the `FIN_*`s. -/
structure StreamState.Used (s s' : StreamState) : Prop where
  window : s'.inbound.window = s.inbound.window
  inFinSent : s'.inbound.finSent = s.inbound.finSent
  ended : s'.inbound.ended = s.inbound.ended
  ledger : s'.outbound.ledger = s.outbound.ledger
  outFinSent : s'.outbound.finSent = s.outbound.finSent
  finReceived : s'.outbound.finReceived = s.outbound.finReceived

/-- The task that yields what a stream has to send. -/
structure StreamUpdates where
  id : StreamId
  /-- Whether the next update carries `SYN`. -/
  syn : Bool
  deriving DecidableEq, Repr

/-- The stream part of a frame to send. -/
structure StreamUpdate where
  id : StreamId
  /-- Bytes returned to the peer's window, 0 for none. -/
  credit : UInt32
  data : Bytes
  flags : ControlFlags
  deriving DecidableEq

/-- `ControlFlow`, with the update and the `FIN_*` state of the stream after it. -/
inductive Progress where
  /-- More may come. -/
  | continue (update : StreamUpdate) (finState : FinState)
  /-- Both `FIN_*`s are sent, nothing more will come. -/
  | break (update : StreamUpdate) (finState : FinState)
  deriving DecidableEq

/-- What the application can do with a stream (`src/stream/duplex.rs`). Dropping the two halves of
a stream closes them. -/
inductive AppOp where
  | pollRead (waker : Waker)
  | closeReading
  | pollWriteReady (waker : Waker)
  | write (data : Bytes)
  | pollFlushed (waker : Waker)
  | closeWriting
  deriving DecidableEq, Repr

/-- What the application gets. -/
inductive AppResult where
  | read (chunk : Poll (Option Bytes))
  | writeReady (ready : Poll (Except WriteError Unit))
  | written (result : Except WriteError Unit)
  | flushed (flushed : Poll Unit)
  | closed

/-- The bytes that the application read. -/
def AppResult.readLen : AppResult → ℕ
  | .read (.ready (some data)) => data.length
  | _ => 0

/-- A stream, and what it shares with the other streams of the connection. -/
structure StreamCtx where
  state : StreamState
  flow : ConnFlow
  wakes : Wakes

namespace StreamCtx

/-! ## The application -/

/-- The application uses the stream. -/
def app (c : StreamCtx) (op : AppOp) (me : StreamRef) : Except Panic (AppResult × StreamCtx) :=
  match op with
  | .pollRead waker => do
    let (chunk, inbound, wakes) ← c.state.inbound.pollRead waker me c.wakes
    return (.read chunk, { c with state := { c.state with inbound }, wakes })
  | .closeReading =>
    let closed := c.state.inbound.closeReading me c.wakes
    .ok (.closed, { c with state := { c.state with inbound := closed.1 }, wakes := closed.2 })
  | .pollWriteReady waker =>
    let ready := c.state.outbound.pollWriteReady waker
    .ok (.writeReady ready.1, { c with state := { c.state with outbound := ready.2 } })
  | .write data =>
    let written := c.state.outbound.write data me c.wakes
    .ok (.written written.1,
      { c with state := { c.state with outbound := written.2.1 }, wakes := written.2.2 })
  | .pollFlushed waker =>
    let flushed := c.state.outbound.pollFlushed waker
    .ok (.flushed flushed.1, { c with state := { c.state with outbound := flushed.2 } })
  | .closeWriting =>
    let closed := c.state.outbound.closeWriting me c.wakes
    .ok (.closed, { c with state := { c.state with outbound := closed.1 }, wakes := closed.2 })

/-! ## Received frames -/

/-- The `WINDOW` part of a received frame. -/
def receivedCredit (c : StreamCtx) (credit : Option NonZeroU32) (me : StreamRef) :
    Except Panic (Except StreamError Unit × StreamCtx) :=
  match credit with
  | none => .ok (.ok (), c)
  | some credit => do
    let (verdict, outbound, flow, wakes) ←
      c.state.outbound.receivedWindowUpdate credit c.flow me c.wakes
    return (verdict, ⟨{ c.state with outbound }, flow, wakes⟩)

/-- The `DATA` part of a received frame. -/
def receivedData (c : StreamCtx) (data : Bytes) :
    Except Panic (Except StreamError Unit × StreamCtx) := do
  let (verdict, inbound, rxPool, wakes) ←
    c.state.inbound.receivedData data c.flow.rxPool c.wakes
  return (verdict, ⟨{ c.state with inbound }, { c.flow with rxPool }, wakes⟩)

/-- The `FIN_WRITE` part of a received frame. -/
def receivedFinWrite (c : StreamCtx) (finWrite : Bool) (me : StreamRef) :
    Except Panic (Except StreamError Unit × StreamCtx) :=
  if finWrite then
    let (verdict, inbound, wakes) := c.state.inbound.receivedFinWrite me c.wakes
    .ok (verdict, ⟨{ c.state with inbound }, c.flow, wakes⟩)
  else .ok (.ok (), c)

/-- The `FIN_READ` part of a received frame. -/
def receivedFinRead (c : StreamCtx) (finRead : Bool) (me : StreamRef) :
    Except Panic (Except StreamError Unit × StreamCtx) :=
  if finRead then do
    let (verdict, outbound, flow, wakes) ← c.state.outbound.receivedFinRead c.flow me c.wakes
    return (verdict, ⟨{ c.state with outbound }, flow, wakes⟩)
  else .ok (.ok (), c)

/-- Updates the stream with the stream part of a received frame. -/
def received (c : StreamCtx) (credit : Option NonZeroU32) (data : Bytes) (flags : ControlFlags)
    (me : StreamRef) : Except Panic (Except StreamError FinState × StreamCtx) :=
  Lib.andThen (c.receivedCredit credit me) fun c =>
  Lib.andThen (c.receivedData data) fun c =>
  Lib.andThen (c.receivedFinWrite flags.finWrite me) fun c =>
  Lib.andThen (c.receivedFinRead flags.finRead me) fun c =>
  .ok (.ok c.state.finState, c)

/-- Closes the stream, because the connection is gone. -/
def abort (c : StreamCtx) (me : StreamRef) : StreamCtx :=
  let inbound := c.state.inbound.receivedFinWrite me c.wakes
  let outbound := c.state.outbound.abort me inbound.2.2
  ⟨⟨inbound.2.1, outbound.1⟩, c.flow, outbound.2⟩

/-! ## Polls -/

/-- Polls the task of a stream. -/
def pollProgress (c : StreamCtx) (task : StreamUpdates) (me : StreamRef) (allowance : ℚ≥0) :
    Except Panic (Poll Progress × StreamUpdates × StreamCtx) := do
  -- Credit and `FIN_READ` never wait for data, or for a turn.
  let (inUpdate, inbound, rxPool) ← c.state.inbound.pollUpdate c.flow.rxPool
  let (outUpdate, outbound, flow, wakes) ←
    c.state.outbound.pollUpdate { c.flow with rxPool } me allowance c.wakes
  let state : StreamState := ⟨inbound, outbound⟩
  match inUpdate, outUpdate with
  | .pending, .pending =>
    -- The task registers its waker, and the selector parks it.
    return (.pending, task, ⟨state, flow, wakes.park me⟩)
  | _, _ =>
    let credit := inUpdate.getD (0, false)
    let data := outUpdate.getD ([], false)
    let update : StreamUpdate :=
      { id := task.id
        credit := credit.1
        data := data.1
        flags := { syn := task.syn, finRead := credit.2, finWrite := data.2 } }
    let progress :=
      if state.finState.sent then Progress.break update state.finState
      else Progress.continue update state.finState
    return (.ready progress, { task with syn := false }, ⟨state, flow, wakes⟩)

/-! ## What every stage keeps -/

/-- The windows of the stream moved, and the pools along with them. -/
structure Moves (c c' : StreamCtx) : Prop where
  rx : c.state.inbound.window.Moves c.flow.rxPool c'.state.inbound.window c'.flow.rxPool
  tx : c.state.outbound.ledger.window.Moves c.flow.txPool c'.state.outbound.ledger.window
    c'.flow.txPool

/-- Where nothing happens the windows stay. -/
theorem Moves.refl (c : StreamCtx) : c.Moves c := ⟨.refl _ _, .refl _ _⟩

/-- The windows move along with the pools, step after step. -/
theorem Moves.trans {c c' c'' : StreamCtx} (h : c.Moves c') (h' : c'.Moves c'') : c.Moves c'' :=
  ⟨h.rx.trans h'.rx, h.tx.trans h'.tx⟩

/-- The turns stayed, and no wake-up was lost: the front of the queue is scheduled if it was, and
the stream is at rest if it was, unless it was woken. -/
structure Quiet (me : StreamRef) (c c' : StreamCtx) : Prop where
  turns : c'.flow.turns = c.flow.turns
  srtt : c'.flow.srtt = c.flow.srtt
  le : c.wakes.Le c'.wakes
  front : c.flow.FrontScheduled c.wakes → (∀ r ∈ c.flow.turns.queue, (c.wakes.updates r).Live) →
    c'.flow.FrontScheduled c'.wakes
  rests : ∀ queued, c.state.Rests queued → c'.state.Rests queued ∨ (c.wakes.wake me).Le c'.wakes

/-- Where nothing happens no wake-up is lost. -/
theorem Quiet.refl (me : StreamRef) (c : StreamCtx) : c.Quiet me c :=
  ⟨rfl, rfl, .refl _, fun h _ => h, fun _ h => .inl h⟩

/-- No wake-up is lost, step after step. -/
theorem Quiet.trans {me : StreamRef} {c c' c'' : StreamCtx} (h : c.Quiet me c')
    (h' : c'.Quiet me c'') : c.Quiet me c'' := by
  refine ⟨h'.turns.trans h.turns, h'.srtt.trans h.srtt, h.le.trans h'.le, ?_, ?_⟩
  · intro hfront hlive
    exact h'.front (h.front hfront hlive) fun r hr => h.le.live (hlive r (h.turns ▸ hr))
  · intro queued hrests
    rcases h.rests queued hrests with hr | hw
    · exact (h'.rests queued hr).imp_right fun hw => (h.le.wake me).trans hw
    · exact .inr (hw.trans h'.le)

/-- A stage that leaves the flow alone is quiet if it loses no wake-up of the stream. -/
theorem Quiet.of_flow {me : StreamRef} {c : StreamCtx} {state : StreamState} {wakes : Wakes}
    (hle : c.wakes.Le wakes)
    (hrests : ∀ queued, c.state.Rests queued →
      state.Rests queued ∨ (c.wakes.wake me).Le wakes) :
    c.Quiet me ⟨state, c.flow, wakes⟩ :=
  ⟨rfl, rfl, hle, fun h _ => h.mono hle, hrests⟩

section Stages

variable {c c' : StreamCtx} {me : StreamRef} {verdict : Except StreamError Unit}

/-- Credit, if a frame has any, goes to the sending direction. -/
theorem receivedCredit_split {credit : Option NonZeroU32}
    (h : c.receivedCredit credit me = .ok (verdict, c')) :
    (credit = none ∧ verdict = .ok () ∧ c' = c) ∨
      ∃ k outbound flow wakes, credit = some k ∧
        c.state.outbound.receivedWindowUpdate k c.flow me c.wakes =
          .ok (verdict, outbound, flow, wakes) ∧
        c' = ⟨{ c.state with outbound }, flow, wakes⟩ := by
  unfold receivedCredit at h
  cases credit with
  | none =>
    cases h
    exact .inl ⟨rfl, rfl, rfl⟩
  | some k =>
    simp only [Lib.bind_eq_ok] at h
    obtain ⟨⟨v, o, f, wk⟩, hup, h⟩ := h
    cases h
    exact .inr ⟨k, o, f, wk, rfl, hup, rfl⟩

/-- Data goes to the receiving direction. -/
theorem receivedData_split {data : Bytes} (h : c.receivedData data = .ok (verdict, c')) :
    ∃ inbound rxPool wakes,
      c.state.inbound.receivedData data c.flow.rxPool c.wakes =
        .ok (verdict, inbound, rxPool, wakes) ∧
      c' = ⟨{ c.state with inbound }, { c.flow with rxPool }, wakes⟩ := by
  simp only [receivedData, Lib.bind_eq_ok] at h
  obtain ⟨⟨v, i, p, wk⟩, hd, h⟩ := h
  cases h
  exact ⟨i, p, wk, hd, rfl⟩

/-- `FIN_WRITE`, if a frame has it, goes to the receiving direction. -/
theorem receivedFinWrite_split {finWrite : Bool}
    (h : c.receivedFinWrite finWrite me = .ok (verdict, c')) :
    (finWrite = false ∧ verdict = .ok () ∧ c' = c) ∨
      ∃ inbound wakes, finWrite = true ∧
        c.state.inbound.receivedFinWrite me c.wakes = (verdict, inbound, wakes) ∧
        c' = ⟨{ c.state with inbound }, c.flow, wakes⟩ := by
  unfold receivedFinWrite at h
  cases finWrite with
  | false =>
    cases h
    exact .inl ⟨rfl, rfl, rfl⟩
  | true =>
    cases h
    exact .inr ⟨_, _, rfl, rfl, rfl⟩

/-- `FIN_READ`, if a frame has it, goes to the sending direction. -/
theorem receivedFinRead_split {finRead : Bool}
    (h : c.receivedFinRead finRead me = .ok (verdict, c')) :
    (finRead = false ∧ verdict = .ok () ∧ c' = c) ∨
      ∃ outbound flow wakes, finRead = true ∧
        c.state.outbound.receivedFinRead c.flow me c.wakes =
          .ok (verdict, outbound, flow, wakes) ∧
        c' = ⟨{ c.state with outbound }, flow, wakes⟩ := by
  unfold receivedFinRead at h
  cases finRead with
  | false =>
    cases h
    exact .inl ⟨rfl, rfl, rfl⟩
  | true =>
    simp only [if_true, Lib.bind_eq_ok] at h
    obtain ⟨⟨v, o, f, wk⟩, hfin, h⟩ := h
    cases h
    exact .inr ⟨o, f, wk, rfl, hfin, rfl⟩

/-- Credit moves the windows along with the pools, and loses no wake-up. -/
theorem receivedCredit_keeps {credit : Option NonZeroU32}
    (h : c.receivedCredit credit me = .ok (verdict, c')) : c.Moves c' ∧ c.Quiet me c' := by
  rcases receivedCredit_split h with ⟨-, -, rfl⟩ | ⟨k, o, f, wk, -, hup, rfl⟩
  · exact ⟨.refl _, .refl _ _⟩
  have hrests : ∀ queued, c.state.Rests queued →
      StreamState.Rests { c.state with outbound := o } queued ∨ (c.wakes.wake me).Le wk :=
    fun queued hr => (hr.outbound.receivedWindowUpdate hup).imp_left fun h => ⟨hr.inbound, h⟩
  rcases OutboundTraffic.receivedWindowUpdate_cases hup with
    ⟨-, rfl, rfl, rfl⟩ | ⟨-, -, -, -, ⟨txPool, rfl, hm⟩, hle, -, hfront⟩
  · exact ⟨.refl _, .refl _ _⟩
  · exact ⟨⟨.refl _ _, hm⟩, rfl, rfl, hle, hfront, hrests⟩

/-- So does data. -/
theorem receivedData_keeps {data : Bytes} (h : c.receivedData data = .ok (verdict, c')) :
    c.Moves c' ∧ c.Quiet me c' := by
  obtain ⟨i, rxPool, wk, hd, rfl⟩ := receivedData_split h
  -- What the direction has to send does not depend on the data it holds.
  have hquiet : ∀ {i' : InboundTraffic}, (c.state.inbound.Idle → i'.Idle) →
      c.wakes.updates = wk.updates →
      c.Quiet me ⟨{ c.state with inbound := i' }, { c.flow with rxPool }, wk⟩ := by
    intro i' hidle hup
    have hle : c.wakes.Le wk := (Wakes.Le.refl _).of_updates hup.symm
    exact ⟨rfl, rfl, hle, fun h _ => h.mono hle, fun _ hr => .inl ⟨hidle hr.inbound, hr.outbound⟩⟩
  rcases InboundTraffic.receivedData_cases hd with ⟨-, -, rfl, rfl, rfl⟩ |
    ⟨-, -, ⟨rd, reader, hs, rfl, rfl⟩, hm, -⟩ | ⟨-, -, hr, -, -, rfl, rfl, hm, -⟩ |
    ⟨-, -, -, rfl, rfl, rfl⟩ | ⟨-, -, -, -, rfl, rfl, hm, -⟩
  · exact ⟨.refl _, .refl _ _⟩
  · refine ⟨⟨hm, .refl _ _⟩, hquiet ?_ (by simp)⟩
    intro hi
    simpa [InboundTraffic.Idle, InboundTraffic.reading, hs] using hi
  · exact ⟨⟨hm, .refl _ _⟩, hquiet id rfl⟩
  · exact ⟨.refl _, .refl _ _⟩
  · exact ⟨⟨hm, .refl _ _⟩, hquiet id rfl⟩

/-- So does `FIN_WRITE`. -/
theorem receivedFinWrite_keeps {finWrite : Bool}
    (h : c.receivedFinWrite finWrite me = .ok (verdict, c')) : c.Moves c' ∧ c.Quiet me c' := by
  rcases receivedFinWrite_split h with ⟨-, -, rfl⟩ | ⟨i, wk, -, hfin, rfl⟩
  · exact ⟨.refl _, .refl _ _⟩
  rcases c.state.inbound.receivedFinWrite_cases me c.wakes with ⟨-, hf⟩ |
    ⟨-, data, rest, reader, hs, hf⟩ | ⟨-, reader, hs, hf⟩ | ⟨-, hr, hf⟩
  · rw [hf] at hfin
    cases hfin
    exact ⟨.refl _, .refl _ _⟩
  · rw [hf] at hfin
    cases hfin
    refine ⟨⟨.refl _ _, .refl _ _⟩, .of_flow (.refl _) fun queued hq => .inl ⟨?_, hq.outbound⟩⟩
    simpa [InboundTraffic.Idle, InboundTraffic.reading, hs] using hq.inbound
  · rw [hf] at hfin
    cases hfin
    have hle := WakerSlot.le_wake reader (c.wakes.wake me)
    exact ⟨⟨.refl _ _, .refl _ _⟩, .of_flow ((c.wakes.le_wake me).trans hle) fun _ _ => .inr hle⟩
  · rw [hf] at hfin
    cases hfin
    refine ⟨⟨.refl _ _, .refl _ _⟩, .of_flow (.refl _) fun queued hq => .inl ⟨?_, hq.outbound⟩⟩
    have hi := hq.inbound
    unfold InboundTraffic.Idle at hi ⊢
    rw [hr] at hi
    simpa [InboundTraffic.reading, InboundTraffic.finSent, InboundTraffic.finState] using hi

/-- So does `FIN_READ`. -/
theorem receivedFinRead_keeps {finRead : Bool}
    (h : c.receivedFinRead finRead me = .ok (verdict, c')) : c.Moves c' ∧ c.Quiet me c' := by
  rcases receivedFinRead_split h with ⟨-, -, rfl⟩ | ⟨o, f, wk, -, hfin, rfl⟩
  · exact ⟨.refl _, .refl _ _⟩
  have hrests : ∀ queued, c.state.Rests queued →
      StreamState.Rests { c.state with outbound := o } queued ∨ (c.wakes.wake me).Le wk :=
    fun queued hr => (hr.outbound.receivedFinRead hfin).imp_left fun h => ⟨hr.inbound, h⟩
  rcases OutboundTraffic.receivedFinRead_cases hfin with
    ⟨-, -, rfl, rfl, rfl⟩ | ⟨-, -, -, ⟨txPool, rfl, hm⟩, hle, -, hfront⟩
  · exact ⟨.refl _, .refl _ _⟩
  · exact ⟨⟨.refl _ _, hm⟩, rfl, rfl, hle, hfront, hrests⟩

end Stages

/-! ## A whole frame -/

section Received

variable {c c' : StreamCtx} {credit : Option NonZeroU32} {data : Bytes} {flags : ControlFlags}
  {me : StreamRef} {verdict : Except StreamError FinState}

/-- What every stage does, whatever the verdict, a received frame does. -/
theorem received_rel {R : StreamCtx → StreamCtx → Prop} (hrefl : ∀ c, R c c)
    (htrans : ∀ {a b c}, R a b → R b c → R a c)
    (hcredit : ∀ {c v c'}, c.receivedCredit credit me = .ok (v, c') → R c c')
    (hdata : ∀ {c v c'}, c.receivedData data = .ok (v, c') → R c c')
    (hfinWrite : ∀ {c v c'}, c.receivedFinWrite flags.finWrite me = .ok (v, c') → R c c')
    (hfinRead : ∀ {c v c'}, c.receivedFinRead flags.finRead me = .ok (v, c') → R c c')
    (h : c.received credit data flags me = .ok (verdict, c')) : R c c' := by
  refine Lib.andThen_rel (R := R) htrans h (fun _ _ hx => hcredit hx) fun _ _ _ h => ?_
  refine Lib.andThen_rel (R := R) htrans h (fun _ _ hx => hdata hx) fun _ _ _ h => ?_
  refine Lib.andThen_rel (R := R) htrans h (fun _ _ hx => hfinWrite hx) fun _ _ _ h => ?_
  refine Lib.andThen_rel (R := R) htrans h (fun _ _ hx => hfinRead hx) fun _ _ _ h => ?_
  cases h
  exact hrefl _

/-- Whatever the verdict, a received frame moves the windows with the pools, and is quiet. -/
theorem received_keeps (h : c.received credit data flags me = .ok (verdict, c')) :
    c.Moves c' ∧ c.Quiet me c' :=
  received_rel (R := fun c c' => c.Moves c' ∧ c.Quiet me c') (fun c => ⟨.refl c, .refl me c⟩)
    (fun h h' => ⟨h.1.trans h'.1, h.2.trans h'.2⟩) receivedCredit_keeps receivedData_keeps
    receivedFinWrite_keeps receivedFinRead_keeps h

/-- Whatever the verdict, a received frame keeps the invariant of the sending direction. -/
theorem received_outbound_wf {limit b : ℕ}
    (h : c.received credit data flags me = .ok (verdict, c'))
    (hw : c.state.outbound.WF limit b) : c'.state.outbound.WF limit b := by
  refine received_rel
    (R := fun c c' => c.state.outbound.WF limit b → c'.state.outbound.WF limit b)
    (fun _ => id) (fun h h' hw => h' (h hw)) ?_ ?_ ?_ ?_ h hw
  · intro c v c' hx hw
    rcases receivedCredit_split hx with ⟨-, -, rfl⟩ | ⟨k, o, f, wk, -, hup, rfl⟩
    · exact hw
    · exact hw.receivedWindowUpdate hup
  · intro c v c' hx hw
    obtain ⟨i, p, wk, -, rfl⟩ := receivedData_split hx
    exact hw
  · intro c v c' hx hw
    rcases receivedFinWrite_split hx with ⟨-, -, rfl⟩ | ⟨i, wk, -, -, rfl⟩ <;> exact hw
  · intro c v c' hx hw
    rcases receivedFinRead_split hx with ⟨-, -, rfl⟩ | ⟨o, f, wk, -, hfin, rfl⟩
    · exact hw
    · exact hw.receivedFinRead hfin

/-- Whatever the verdict, a received frame sends nothing. -/
theorem received_finSent (h : c.received credit data flags me = .ok (verdict, c')) :
    c'.state.inbound.finSent = c.state.inbound.finSent ∧
      c'.state.outbound.finSent = c.state.outbound.finSent := by
  refine received_rel
    (R := fun c c' => c'.state.inbound.finSent = c.state.inbound.finSent ∧
      c'.state.outbound.finSent = c.state.outbound.finSent)
    (fun _ => ⟨rfl, rfl⟩) (fun h h' => ⟨h'.1.trans h.1, h'.2.trans h.2⟩) ?_ ?_ ?_ ?_ h
  · intro c v c' hx
    rcases receivedCredit_split hx with ⟨-, -, rfl⟩ | ⟨k, o, f, wk, -, hup, rfl⟩
    · exact ⟨rfl, rfl⟩
    · rcases OutboundTraffic.receivedWindowUpdate_cases hup with ⟨-, rfl, -⟩ | ⟨-, -, -, rfl, -⟩
      · exact ⟨rfl, rfl⟩
      · exact ⟨rfl, rfl⟩
  · intro c v c' hx
    obtain ⟨i, p, wk, hd, rfl⟩ := receivedData_split hx
    rcases InboundTraffic.receivedData_cases hd with ⟨-, -, rfl, -⟩ |
      ⟨-, -, ⟨rd, reader, hs, rfl, -⟩, -⟩ | ⟨-, -, -, -, -, rfl, -⟩ | ⟨-, -, -, rfl, -⟩ |
      ⟨-, -, -, -, rfl, -⟩
    · exact ⟨rfl, rfl⟩
    · exact ⟨by simp [InboundTraffic.finSent, InboundTraffic.finState, hs], rfl⟩
    · exact ⟨rfl, rfl⟩
    · exact ⟨rfl, rfl⟩
    · exact ⟨rfl, rfl⟩
  · intro c v c' hx
    rcases receivedFinWrite_split hx with ⟨-, -, rfl⟩ | ⟨i, wk, -, hfin, rfl⟩
    · exact ⟨rfl, rfl⟩
    · rcases c.state.inbound.receivedFinWrite_cases me c.wakes with ⟨-, hf⟩ |
        ⟨-, _, _, _, hs, hf⟩ | ⟨-, _, hs, hf⟩ | ⟨-, -, hf⟩ <;>
      · rw [hf] at hfin
        cases hfin
        simp [InboundTraffic.finSent, InboundTraffic.finState, *]
  · intro c v c' hx
    rcases receivedFinRead_split hx with ⟨-, -, rfl⟩ | ⟨o, f, wk, -, hfin, rfl⟩
    · exact ⟨rfl, rfl⟩
    · rcases OutboundTraffic.receivedFinRead_cases hfin with ⟨-, -, rfl, -⟩ | ⟨-, -, rfl, -⟩
      · exact ⟨rfl, rfl⟩
      · exact ⟨rfl, by simp [OutboundTraffic.finSent, OutboundTraffic.finState]⟩

/-- Whatever the verdict, a received frame borrows nothing from the peer's pool. -/
theorem received_txWithin (h : c.received credit data flags me = .ok (verdict, c')) :
    c'.flow.txPool.used ≤ c.flow.txPool.used := by
  refine received_rel (R := fun c c' => c'.flow.txPool.used ≤ c.flow.txPool.used)
    (fun _ => le_rfl) (fun h h' => h'.trans h) ?_ ?_ ?_ ?_ h
  · intro c v c' hx
    rcases receivedCredit_split hx with ⟨-, -, rfl⟩ | ⟨k, o, f, wk, -, hup, rfl⟩
    · exact le_rfl
    · rcases OutboundTraffic.receivedWindowUpdate_cases hup with
        ⟨-, -, rfl, -⟩ | ⟨-, -, -, rfl, ⟨txPool, rfl, hm⟩, -⟩
      · exact le_rfl
      · have hu := hm.used
        simp only [Window.borrowed, Window.borrowedAt, OutboundTraffic.unacked] at hu
        dsimp only
        omega
  · intro c v c' hx
    obtain ⟨i, p, wk, -, rfl⟩ := receivedData_split hx
    exact le_rfl
  · intro c v c' hx
    rcases receivedFinWrite_split hx with ⟨-, -, rfl⟩ | ⟨i, wk, -, -, rfl⟩ <;> exact le_rfl
  · intro c v c' hx
    rcases receivedFinRead_split hx with ⟨-, -, rfl⟩ | ⟨o, f, wk, -, hfin, rfl⟩
    · exact le_rfl
    · rcases OutboundTraffic.receivedFinRead_cases hfin with
        ⟨-, -, -, rfl, -⟩ | ⟨-, -, rfl, ⟨txPool, rfl, hm⟩, -⟩
      · exact le_rfl
      · have hu := hm.used
        simp only [Window.borrowed, Window.borrowedAt] at hu
        dsimp only
        omega

/-- Whatever the verdict, a received frame does not change what was read. -/
theorem received_credit (h : c.received credit data flags me = .ok (verdict, c')) :
    c'.state.inbound.credit = c.state.inbound.credit := by
  refine received_rel (R := fun c c' => c'.state.inbound.credit = c.state.inbound.credit)
    (fun _ => rfl) (fun h h' => h'.trans h) ?_ ?_ ?_ ?_ h
  · intro c v c' hx
    rcases receivedCredit_split hx with ⟨-, -, rfl⟩ | ⟨k, o, f, wk, -, -, rfl⟩ <;> rfl
  · intro c v c' hx
    obtain ⟨i, p, wk, hd, rfl⟩ := receivedData_split hx
    rcases InboundTraffic.receivedData_cases hd with ⟨-, -, rfl, -⟩ |
      ⟨-, -, ⟨rd, reader, hs, rfl, -⟩, -⟩ | ⟨-, -, -, -, -, rfl, -⟩ | ⟨-, -, -, rfl, -⟩ |
      ⟨-, -, -, -, rfl, -⟩ <;> rfl
  · intro c v c' hx
    rcases receivedFinWrite_split hx with ⟨-, -, rfl⟩ | ⟨i, wk, -, hfin, rfl⟩
    · rfl
    · rcases c.state.inbound.receivedFinWrite_cases me c.wakes with ⟨-, hf⟩ |
        ⟨-, _, _, _, hs, hf⟩ | ⟨-, _, hs, hf⟩ | ⟨-, -, hf⟩ <;>
      · rw [hf] at hfin
        cases hfin
        rfl
  · intro c v c' hx
    rcases receivedFinRead_split hx with ⟨-, -, rfl⟩ | ⟨o, f, wk, -, -, rfl⟩ <;> rfl

/-- Whatever the verdict, no `FIN_*` is taken back. -/
theorem received_finLe (h : c.received credit data flags me = .ok (verdict, c')) :
    c.state.FinLe c'.state := by
  refine received_rel (R := fun c c' => c.state.FinLe c'.state) (fun _ => .refl _) .trans
    ?_ ?_ ?_ ?_ h
  · intro c v c' hx
    rcases receivedCredit_split hx with ⟨-, -, rfl⟩ | ⟨k, o, f, wk, -, hup, rfl⟩
    · exact .refl _
    · rcases OutboundTraffic.receivedWindowUpdate_cases hup with ⟨-, rfl, -⟩ | ⟨-, -, -, rfl, -⟩
      · exact .refl _
      · exact ⟨id, id, id, id⟩
  · intro c v c' hx
    obtain ⟨i, p, wk, hd, rfl⟩ := receivedData_split hx
    rcases InboundTraffic.receivedData_cases hd with ⟨-, -, rfl, -⟩ |
      ⟨-, -, ⟨rd, reader, hs, rfl, -⟩, -⟩ | ⟨-, -, -, -, -, rfl, -⟩ | ⟨-, -, -, rfl, -⟩ |
      ⟨-, -, -, -, rfl, -⟩
    · exact .refl _
    · refine ⟨fun hf => ?_, fun he => ?_, id, id⟩
      · simp [InboundTraffic.finSent, InboundTraffic.finState, hs] at hf
      · simp [InboundTraffic.ended, hs] at he
    · exact ⟨id, id, id, id⟩
    · exact .refl _
    · exact ⟨id, id, id, id⟩
  · intro c v c' hx
    rcases receivedFinWrite_split hx with ⟨-, -, rfl⟩ | ⟨i, wk, -, hfin, rfl⟩
    · exact .refl _
    · rcases c.state.inbound.receivedFinWrite_cases me c.wakes with ⟨-, hf⟩ |
        ⟨-, _, _, _, hs, hf⟩ | ⟨-, _, hs, hf⟩ | ⟨-, -, hf⟩ <;>
      · rw [hf] at hfin
        cases hfin
        constructor <;>
          simp [InboundTraffic.finSent, InboundTraffic.finState, InboundTraffic.ended, *]
  · intro c v c' hx
    rcases receivedFinRead_split hx with ⟨-, -, rfl⟩ | ⟨o, f, wk, -, hfin, rfl⟩
    · exact .refl _
    · rcases OutboundTraffic.receivedFinRead_cases hfin with ⟨-, -, rfl, -⟩ | ⟨-, -, rfl, -⟩
      · exact .refl _
      · exact ⟨id, id, by simp [OutboundTraffic.finSent, OutboundTraffic.finState],
          by simp [OutboundTraffic.finReceived, OutboundTraffic.finState]⟩

/-- A received frame keeps the invariant of the receiving direction and the bound of the pool, or
it is a violation and nothing more is held than before. -/
theorem received_inbound {b : ℕ} (h : c.received credit data flags me = .ok (verdict, c'))
    (hw : c.state.inbound.WF b) (hpool : c.flow.rxPool.used ≤ c.flow.rxPool.size) :
    (c'.state.inbound.WF b ∧ c'.flow.rxPool.used ≤ c'.flow.rxPool.size) ∨
      ((∃ e, verdict = .error e) ∧ c'.state.inbound.buffered = c.state.inbound.buffered) := by
  -- The stages of the sending direction do not touch the receiving one.
  have hcredit : ∀ {c₁ c₂ : StreamCtx} {v}, c₁.receivedCredit credit me = .ok (v, c₂) →
      c₂.state.inbound = c₁.state.inbound ∧ c₂.flow.rxPool = c₁.flow.rxPool := by
    intro c₁ c₂ v hx
    rcases receivedCredit_split hx with ⟨-, -, rfl⟩ | ⟨k, o, f, wk, -, hup, rfl⟩
    · exact ⟨rfl, rfl⟩
    · rcases OutboundTraffic.receivedWindowUpdate_cases hup with
        ⟨-, -, rfl, -⟩ | ⟨-, -, -, -, ⟨txPool, rfl, -⟩, -⟩ <;> exact ⟨rfl, rfl⟩
  have hfinRead : ∀ {c₁ c₂ : StreamCtx} {v}, c₁.receivedFinRead flags.finRead me = .ok (v, c₂) →
      c₂.state.inbound = c₁.state.inbound ∧ c₂.flow.rxPool = c₁.flow.rxPool := by
    intro c₁ c₂ v hx
    rcases receivedFinRead_split hx with ⟨-, -, rfl⟩ | ⟨o, f, wk, -, hfin, rfl⟩
    · exact ⟨rfl, rfl⟩
    · rcases OutboundTraffic.receivedFinRead_cases hfin with
        ⟨-, -, -, rfl, -⟩ | ⟨-, -, -, ⟨txPool, rfl, -⟩, -⟩ <;> exact ⟨rfl, rfl⟩
  have hfinWrite : ∀ {c₁ c₂ : StreamCtx} {v}, c₁.receivedFinWrite flags.finWrite me = .ok (v, c₂) →
      c₁.state.inbound.WF b → c₂.state.inbound.WF b ∧ c₂.flow.rxPool = c₁.flow.rxPool := by
    intro c₁ c₂ v hx hw
    rcases receivedFinWrite_split hx with ⟨-, -, rfl⟩ | ⟨i, wk, -, hfin, rfl⟩
    · exact ⟨hw, rfl⟩
    · have := hw.receivedFinWrite me c₁.wakes
      rw [hfin] at this
      exact ⟨this, rfl⟩
  rcases Lib.andThen_cases h with ⟨e, hx, -⟩ | ⟨_, c₁, hx, h⟩
  · obtain ⟨hi, hp⟩ := hcredit hx
    rw [hi, hp]
    exact .inl ⟨hw, hpool⟩
  obtain ⟨hi₁, hp₁⟩ := hcredit hx
  rw [← hi₁] at hw ⊢
  rw [← hp₁] at hpool
  -- Only the data can overdraw the pool, and then nothing follows.
  have hdata : ∀ {c₂ : StreamCtx} {v}, c₁.receivedData data = .ok (v, c₂) →
      (c₂.state.inbound.WF b ∧ c₂.flow.rxPool.used ≤ c₂.flow.rxPool.size) ∨
        ((∃ e, v = .error e) ∧ c₂.state.inbound.buffered = c₁.state.inbound.buffered) := by
    intro c₂ v hx
    obtain ⟨i, p, wk, hd, rfl⟩ := receivedData_split hx
    rcases InboundTraffic.receivedData_cases hd with ⟨-, -, rfl, rfl, -⟩ |
      ⟨rfl, -, -, -, hp⟩ | ⟨rfl, -, -, -, -, -, -, -, hp⟩ | ⟨-, -, -, rfl, rfl, -⟩ |
      ⟨rfl, -, -, -, rfl, -⟩
    · exact .inl ⟨hw, hpool⟩
    · exact .inl ⟨hw.receivedData hd, hp⟩
    · exact .inl ⟨hw.receivedData hd, hp⟩
    · exact .inl ⟨hw, hpool⟩
    · exact .inr ⟨⟨_, rfl⟩, rfl⟩
  rcases Lib.andThen_cases h with ⟨e, hx, rfl⟩ | ⟨_, c₂, hx, h⟩
  · exact (hdata hx).imp_right fun h => ⟨⟨e, rfl⟩, h.2⟩
  have hw₂ : c₂.state.inbound.WF b ∧ c₂.flow.rxPool.used ≤ c₂.flow.rxPool.size := by
    rcases hdata hx with h | ⟨⟨e, he⟩, -⟩
    · exact h
    · cases he
  left
  rcases Lib.andThen_cases h with ⟨e, hx, -⟩ | ⟨_, c₃, hx, h⟩
  · obtain ⟨hw', hp'⟩ := hfinWrite hx hw₂.1
    exact ⟨hw', hp' ▸ hw₂.2⟩
  obtain ⟨hw₃, hp₃⟩ := hfinWrite hx hw₂.1
  rcases Lib.andThen_cases h with ⟨e, hx, -⟩ | ⟨_, c₄, hx, h⟩
  · obtain ⟨hi, hp⟩ := hfinRead hx
    rw [hi, hp, hp₃]
    exact ⟨hw₃, hw₂.2⟩
  · obtain ⟨hi, hp⟩ := hfinRead hx
    cases h
    rw [hi, hp, hp₃]
    exact ⟨hw₃, hw₂.2⟩

/-- What an accepted frame does to the two directions. -/
theorem received_eq_ok {fin : FinState}
    (h : c.received credit data flags me = .ok (.ok fin, c')) :
    c.state.inbound.Received data flags.finWrite c'.state.inbound ∧
      c.state.outbound.Received (creditLen credit) flags.finRead c'.state.outbound ∧
      fin = c'.state.finState := by
  obtain ⟨_, c₁, h₁, h⟩ := Lib.andThen_eq_ok.mp h
  obtain ⟨_, c₂, h₂, h⟩ := Lib.andThen_eq_ok.mp h
  obtain ⟨_, c₃, h₃, h⟩ := Lib.andThen_eq_ok.mp h
  obtain ⟨_, c₄, h₄, h⟩ := Lib.andThen_eq_ok.mp h
  cases h
  have hcredit : c₁.state.inbound = c.state.inbound ∧
      c.state.outbound.Received (creditLen credit) false c₁.state.outbound := by
    rcases receivedCredit_split h₁ with ⟨rfl, -, rfl⟩ | ⟨k, o, f, wk, rfl, hup, rfl⟩
    · exact ⟨rfl, .refl _⟩
    · exact ⟨rfl, OutboundTraffic.receivedWindowUpdate_received hup⟩
  have hdata : c₁.state.inbound.Received data false c₂.state.inbound ∧
      c₂.state.outbound = c₁.state.outbound := by
    obtain ⟨i, p, wk, hd, rfl⟩ := receivedData_split h₂
    exact ⟨InboundTraffic.receivedData_received hd, rfl⟩
  rw [hcredit.1] at hdata
  have hfinWrite : c.state.inbound.Received data flags.finWrite c₃.state.inbound ∧
      c₃.state.outbound = c₂.state.outbound := by
    rcases receivedFinWrite_split h₃ with ⟨hf, -, rfl⟩ | ⟨i, wk, hf, hfin, rfl⟩
    · rw [hf]; exact ⟨hdata.1, rfl⟩
    · rw [hf]; exact ⟨hdata.1.finWrite hfin, rfl⟩
  have hout : c.state.outbound.Received (creditLen credit) false c₃.state.outbound := by
    rw [hfinWrite.2, hdata.2]
    exact hcredit.2
  rcases receivedFinRead_split h₄ with ⟨hf, -, rfl⟩ | ⟨o, f, wk, hf, hfin, rfl⟩
  · rw [hf]; exact ⟨hfinWrite.1, hout, rfl⟩
  · rw [hf]; exact ⟨hfinWrite.1, hout.finRead hfin, rfl⟩

/-- A frame is accepted if every part of it is one that the peer may send, and the receive pool has
room for its data. -/
theorem received_ok (hcredit : credit ≠ none → c.state.outbound.finReceived = false)
    (hcredit_le : creditLen credit ≤ c.state.outbound.unacked)
    (hdata : data ≠ [] → c.state.inbound.ended = false)
    (hfinWrite : flags.finWrite = true → c.state.inbound.ended = false)
    (hfinRead : flags.finRead = true → c.state.outbound.finReceived = false)
    (hroom : c.state.inbound.finSent = false → c.flow.rxPool.used +
        Window.borrowedAt (c.state.inbound.window.unacked + data.length)
          c.state.inbound.window.base ≤
      c.flow.rxPool.size + c.state.inbound.window.borrowed)
    (hrx : c.state.inbound.window.borrowed ≤ c.flow.rxPool.used)
    (hrx_lt : c.flow.rxPool.used + c.state.inbound.window.unacked + data.length < 2^64)
    (htx : c.state.outbound.ledger.window.borrowed ≤ c.flow.txPool.used)
    (htx_lt : c.flow.txPool.used + c.state.outbound.unacked < 2^64) :
    ∃ fin c', c.received credit data flags me = .ok (.ok fin, c') := by
  -- After the credit, the receiving direction is what it was.
  obtain ⟨c₁, h₁, hi₁, hp₁, hrec₁, htx₁, htx_lt₁⟩ : ∃ c₁,
      c.receivedCredit credit me = .ok (.ok (), c₁) ∧ c₁.state.inbound = c.state.inbound ∧
      c₁.flow.rxPool = c.flow.rxPool ∧
      c₁.state.outbound.finReceived = c.state.outbound.finReceived ∧
      c₁.state.outbound.ledger.window.borrowed ≤ c₁.flow.txPool.used ∧
      c₁.flow.txPool.used < 2^64 := by
    cases credit with
    | none => exact ⟨c, rfl, rfl, rfl, rfl, htx, by omega⟩
    | some k =>
      obtain ⟨o, f, wk, hup⟩ := OutboundTraffic.receivedWindowUpdate_ok me c.wakes
        (hcredit (by simp)) hcredit_le htx htx_lt
      refine ⟨⟨{ c.state with outbound := o }, f, wk⟩, by simp only [receivedCredit, hup]; rfl, rfl,
        ?_⟩
      rcases OutboundTraffic.receivedWindowUpdate_cases hup with ⟨⟨hv, -⟩ | ⟨hv, -⟩, -⟩ |
        ⟨-, -, -, rfl, ⟨txPool, rfl, hm⟩, -⟩
      · cases hv
      · cases hv
      · have hu := hm.used
        simp only [Window.borrowed, Window.borrowedAt, OutboundTraffic.unacked] at hu htx
        refine ⟨rfl, rfl, ?_, ?_⟩
        · simp only [Window.borrowed, Window.borrowedAt, OutboundTraffic.unacked]
          omega
        · dsimp only
          omega
  obtain ⟨i, p, wk, hd⟩ := InboundTraffic.receivedData_ok (t := c₁.state.inbound)
    c₁.flow.rxPool c₁.wakes (by rwa [hi₁]) (by rwa [hi₁, hp₁]) (by rwa [hi₁, hp₁])
    (by rwa [hi₁, hp₁])
  have hreceived := InboundTraffic.receivedData_received hd
  have h₂ : c₁.receivedData data =
      .ok (.ok (), ⟨{ c₁.state with inbound := i }, { c₁.flow with rxPool := p }, wk⟩) := by
    simp only [receivedData, hd]
    rfl
  -- After the data, the sending direction is what it was.
  obtain ⟨c₃, h₃, ho₃, hf₃⟩ : ∃ c₃, StreamCtx.receivedFinWrite
        ⟨{ c₁.state with inbound := i }, { c₁.flow with rxPool := p }, wk⟩ flags.finWrite me =
          .ok (.ok (), c₃) ∧ c₃.state.outbound = c₁.state.outbound ∧
      c₃.flow.txPool = c₁.flow.txPool := by
    unfold receivedFinWrite
    cases hfw : flags.finWrite with
    | false => exact ⟨_, rfl, rfl, rfl⟩
    | true =>
      have hended : i.ended = false := by
        have := hreceived.ended
        rw [hi₁] at this
        simpa [hfinWrite hfw] using this
      have hok := InboundTraffic.receivedFinWrite_ok me wk hended
      refine ⟨⟨⟨(i.receivedFinWrite me wk).2.1, c₁.state.outbound⟩, { c₁.flow with rxPool := p },
        (i.receivedFinWrite me wk).2.2⟩, ?_, rfl, rfl⟩
      rw [← hok]
      rfl
  obtain ⟨c₄, h₄⟩ : ∃ c₄, c₃.receivedFinRead flags.finRead me = .ok (.ok (), c₄) := by
    unfold receivedFinRead
    cases hfr : flags.finRead with
    | false => exact ⟨_, rfl⟩
    | true =>
      obtain ⟨o, f, wk', hfin⟩ := OutboundTraffic.receivedFinRead_ok (t := c₃.state.outbound)
        c₃.flow me c₃.wakes (by rw [ho₃, hrec₁, hfinRead hfr]) (by rwa [ho₃, hf₃])
        (by rwa [hf₃])
      exact ⟨⟨{ c₃.state with outbound := o }, f, wk'⟩, by simp only [if_true, hfin]; rfl⟩
  refine ⟨c₄.state.finState, c₄, Lib.andThen_eq_ok.mpr ⟨_, c₁, h₁, Lib.andThen_eq_ok.mpr
    ⟨_, _, h₂, Lib.andThen_eq_ok.mpr ⟨_, c₃, h₃, Lib.andThen_eq_ok.mpr ⟨_, c₄, h₄, rfl⟩⟩⟩⟩⟩

/-- A frame is accepted or refused where the pools count what the windows borrow, and the new counts
fit. -/
theorem received_returns (hrx : c.state.inbound.window.borrowed ≤ c.flow.rxPool.used)
    (hrx_lt : c.flow.rxPool.used + c.state.inbound.window.unacked + data.length < 2^64)
    (htx : c.state.outbound.ledger.window.borrowed ≤ c.flow.txPool.used)
    (htx_lt : c.flow.txPool.used + c.state.outbound.unacked < 2^64) :
    ∃ r, c.received credit data flags me = .ok r := by
  unfold received
  refine Lib.andThen_returns ?_ fun _ c₁ h₁ => ?_
  · unfold receivedCredit
    cases credit with
    | none => exact ⟨_, rfl⟩
    | some k =>
      obtain ⟨r, hr⟩ := OutboundTraffic.receivedWindowUpdate_returns k c.flow me c.wakes htx htx_lt
      exact ⟨_, by simp only [hr]; rfl⟩
  -- The credit leaves the receiving direction alone, and can only free the sending one.
  have hin₁ : c₁.state.inbound = c.state.inbound ∧ c₁.flow.rxPool = c.flow.rxPool ∧
      c₁.flow.txPool.used < 2^64 := by
    rcases receivedCredit_split h₁ with ⟨-, -, rfl⟩ | ⟨k, o, f, wk, -, hup, rfl⟩
    · exact ⟨rfl, rfl, by omega⟩
    · rcases OutboundTraffic.receivedWindowUpdate_cases hup with ⟨-, -, rfl, -⟩ |
        ⟨-, -, -, rfl, ⟨txPool, rfl, hm⟩, -⟩
      · exact ⟨rfl, rfl, by dsimp only; omega⟩
      · have hused := hm.used
        simp only [Window.borrowed, Window.borrowedAt, OutboundTraffic.unacked] at hused htx
        exact ⟨rfl, rfl, by dsimp only; omega⟩
  have htx₁ : c₁.state.outbound.ledger.window.borrowed ≤ c₁.flow.txPool.used := by
    have hused := (receivedCredit_keeps h₁).1.tx.used
    omega
  refine Lib.andThen_returns ?_ fun _ c₂ h₂ => ?_
  · obtain ⟨r, hr⟩ := InboundTraffic.receivedData_returns (t := c₁.state.inbound) data
      c₁.flow.rxPool c₁.wakes (by rw [hin₁.1, hin₁.2.1]; exact hrx)
      (by rw [hin₁.1, hin₁.2.1]; exact hrx_lt)
    exact ⟨_, by simp only [receivedData, hr]; rfl⟩
  have hout₂ : c₂.state.outbound = c₁.state.outbound ∧ c₂.flow.txPool = c₁.flow.txPool := by
    obtain ⟨i, p, wk, -, rfl⟩ := receivedData_split h₂
    exact ⟨rfl, rfl⟩
  refine Lib.andThen_returns ?_ fun _ c₃ h₃ => ?_
  · unfold receivedFinWrite
    split_ifs
    · exact ⟨_, rfl⟩
    · exact ⟨_, rfl⟩
  have hout₃ : c₃.state.outbound = c₁.state.outbound ∧ c₃.flow.txPool = c₁.flow.txPool := by
    rcases receivedFinWrite_split h₃ with ⟨-, -, rfl⟩ | ⟨i, wk, -, -, rfl⟩
    · exact hout₂
    · exact hout₂
  refine Lib.andThen_returns ?_ fun _ _ _ => ⟨_, rfl⟩
  unfold receivedFinRead
  split_ifs
  · obtain ⟨r, hr⟩ := OutboundTraffic.receivedFinRead_returns (t := c₃.state.outbound)
      c₃.flow me c₃.wakes (by rw [hout₃.1, hout₃.2]; exact htx₁)
      (by rw [hout₃.2]; exact hin₁.2.2)
    exact ⟨_, by simp only [hr]; rfl⟩
  · exact ⟨_, rfl⟩

end Received

/-! ## An operation of the application -/

section App

variable {c c' : StreamCtx} {op : AppOp} {me : StreamRef} {res : AppResult}

/-- An operation of the application acts on one of the directions. -/
theorem app_split (h : c.app op me = .ok (res, c')) :
    c'.flow = c.flow ∧
      ((c'.state.outbound = c.state.outbound ∧
          InboundTraffic.Used me c.state.inbound c.wakes c'.state.inbound c'.wakes) ∨
        (c'.state.inbound = c.state.inbound ∧
          OutboundTraffic.Used me c.state.outbound c.wakes c'.state.outbound c'.wakes)) := by
  cases op with
  | pollRead waker =>
    simp only [app, Lib.bind_eq_ok] at h
    obtain ⟨⟨chunk, i, wk⟩, hread, h⟩ := h
    cases h
    exact ⟨rfl, .inl ⟨rfl, InboundTraffic.pollRead_used hread⟩⟩
  | closeReading =>
    cases h
    exact ⟨rfl, .inl ⟨rfl, InboundTraffic.closeReading_used _ _ _⟩⟩
  | pollWriteReady waker =>
    cases h
    exact ⟨rfl, .inr ⟨rfl, (OutboundTraffic.pollWriteReady_rewaked _ _).used _ _⟩⟩
  | write data =>
    cases h
    exact ⟨rfl, .inr ⟨rfl, OutboundTraffic.write_used _ _ _ _⟩⟩
  | pollFlushed waker =>
    cases h
    exact ⟨rfl, .inr ⟨rfl, (OutboundTraffic.pollFlushed_rewaked _ _).used _ _⟩⟩
  | closeWriting =>
    cases h
    exact ⟨rfl, .inr ⟨rfl, OutboundTraffic.closeWriting_used _ _ _⟩⟩

/-- What the application does keeps the turns, and loses no wake-up. -/
theorem app_quiet (h : c.app op me = .ok (res, c')) : c.Quiet me c' := by
  obtain ⟨s, f, wk⟩ := c'
  obtain ⟨hf, ⟨ho, hu⟩ | ⟨hi, hu⟩⟩ := app_split h
  · cases hf
    refine .of_flow hu.le fun queued hr => ?_
    exact (hu.idle hr.inbound).imp_left fun hi => ⟨hi, ho ▸ hr.outbound⟩
  · cases hf
    refine .of_flow hu.le fun queued hr => ?_
    exact (hu.rests queued hr.outbound).imp_left fun ho => ⟨hi ▸ hr.inbound, ho⟩

/-- What the application does keeps the windows and the `FIN_*`s. -/
theorem app_used (h : c.app op me = .ok (res, c')) : c.state.Used c'.state := by
  obtain ⟨-, ⟨ho, hu⟩ | ⟨hi, hu⟩⟩ := app_split h
  · exact ⟨hu.window, hu.finSent, hu.ended, by rw [ho], by rw [ho], by rw [ho]⟩
  · exact ⟨by rw [hi], by rw [hi], by rw [hi], hu.ledger, hu.finSent, hu.finReceived⟩

/-- The application is owed credit for what it reads, and for nothing else. -/
theorem app_credit (h : c.app op me = .ok (res, c')) :
    c'.state.inbound.credit = c.state.inbound.credit + res.readLen := by
  cases op with
  | pollRead waker =>
    simp only [app, Lib.bind_eq_ok] at h
    obtain ⟨⟨chunk, i, wk⟩, hread, h⟩ := h
    cases h
    rcases InboundTraffic.pollRead_cases hread with ⟨rfl, -, -, -, rfl, -⟩ | ⟨rfl, -, rfl, -⟩ |
      ⟨data, rfl, ht, -⟩
    · rfl
    · rfl
    · exact ht.credit
  | closeReading =>
    cases h
    rcases c.state.inbound.closeReading_cases me c.wakes with ⟨-, h⟩ | ⟨-, h⟩
    · dsimp only
      rw [h]
      rfl
    · dsimp only
      rw [h]
      rfl
  | pollWriteReady | write | pollFlushed | closeWriting =>
    cases h
    rfl

/-- What the application does takes no `FIN_*` back. -/
theorem app_finLe (h : c.app op me = .ok (res, c')) : c.state.FinLe c'.state := by
  have hu := app_used h
  exact ⟨hu.inFinSent.trans, hu.ended.trans, hu.outFinSent.trans, hu.finReceived.trans⟩

/-- What the application does leaves both directions well formed. -/
theorem app_wf (h : c.app op me = .ok (res, c')) :
    (∀ b, c.state.inbound.WF b → c'.state.inbound.WF b) ∧
      (∀ limit b, c.state.outbound.WF limit b → c'.state.outbound.WF limit b) := by
  cases op with
  | pollRead waker =>
    simp only [app, Lib.bind_eq_ok] at h
    obtain ⟨⟨chunk, i, wk⟩, hread, h⟩ := h
    cases h
    exact ⟨fun _ hw => hw.pollRead hread, fun _ _ => id⟩
  | closeReading =>
    cases h
    exact ⟨fun _ hw => hw.closeReading _ _, fun _ _ => id⟩
  | pollWriteReady waker =>
    cases h
    exact ⟨fun _ => id, fun _ _ hw => hw.rewaked (OutboundTraffic.pollWriteReady_rewaked _ _)⟩
  | write data =>
    cases h
    exact ⟨fun _ => id, fun _ _ hw => hw.write _ _ _⟩
  | pollFlushed waker =>
    cases h
    exact ⟨fun _ => id, fun _ _ hw => hw.rewaked (OutboundTraffic.pollFlushed_rewaked _ _)⟩
  | closeWriting =>
    cases h
    exact ⟨fun _ => id, fun _ _ hw => hw.closeWriting _ _⟩

end App

/-! ## A whole poll -/

section Polled

variable {c c' : StreamCtx} {task task' : StreamUpdates} {me : StreamRef} {allowance : ℚ≥0}
  {res : Poll Progress}

/-- A poll is a poll of the receiving direction and one of the sending direction. -/
theorem pollProgress_split
    (h : c.pollProgress task me allowance = .ok (res, task', c')) :
    ∃ inRes outRes rxPool wk,
      c.state.inbound.pollUpdate c.flow.rxPool = .ok (inRes, c'.state.inbound, rxPool) ∧
      c.state.outbound.pollUpdate { c.flow with rxPool } me allowance c.wakes =
        .ok (outRes, c'.state.outbound, c'.flow, wk) ∧
      ((inRes = .pending ∧ outRes = .pending ∧ res = .pending ∧ task' = task ∧
          c'.wakes = wk.park me) ∨
        (¬ (inRes = .pending ∧ outRes = .pending) ∧ c'.wakes = wk ∧
          task' = { task with syn := false } ∧
          ∃ update, update.id = task.id ∧ update.credit = (inRes.getD (0, false)).1 ∧
            update.data = (outRes.getD ([], false)).1 ∧
            update.flags = ⟨(inRes.getD (0, false)).2, (outRes.getD ([], false)).2, task.syn⟩ ∧
            res = .ready (if c'.state.finState.sent then .break update c'.state.finState
              else .continue update c'.state.finState))) := by
  simp only [pollProgress, Lib.bind_eq_ok] at h
  obtain ⟨⟨inRes, i, rxPool⟩, hin, ⟨outRes, o, f, wk⟩, hout, h⟩ := h
  refine ⟨inRes, outRes, rxPool, wk, ?_⟩
  cases inRes <;> cases outRes
  · cases h
    exact ⟨hin, hout, .inl ⟨rfl, rfl, rfl, rfl, rfl⟩⟩
  all_goals
    cases h
    exact ⟨hin, hout, .inr ⟨by simp, rfl, rfl, _, rfl, rfl, rfl, rfl, rfl⟩⟩

/-- A task is polled where the pools count what the windows borrow, and the counts of a frame more
fit. -/
theorem pollProgress_returns (task : StreamUpdates) (me : StreamRef) (allowance : ℚ≥0)
    (hrx : c.state.inbound.window.borrowed ≤ c.flow.rxPool.used)
    (hrx_lt : c.flow.rxPool.used + c.state.inbound.window.unacked < 2^64)
    (hcredit : c.state.inbound.credit ≤ c.state.inbound.window.unacked)
    (htx : c.state.outbound.ledger.window.borrowed ≤ c.flow.txPool.used)
    (htx_lt : c.flow.txPool.used + c.state.outbound.unacked +
      c.state.outbound.ledger.frameLimit < 2^64) :
    ∃ r, c.pollProgress task me allowance = .ok r := by
  obtain ⟨⟨inUpdate, inbound, rxPool⟩, hin⟩ :=
    InboundTraffic.pollUpdate_returns hrx hrx_lt hcredit
  obtain ⟨⟨outUpdate, outbound, flow, wakes⟩, hout⟩ :=
    OutboundTraffic.pollUpdate_returns { c.flow with rxPool } me allowance c.wakes htx
      htx_lt
  cases inUpdate <;> cases outUpdate <;>
    exact ⟨_, Lib.bind_eq_ok.mpr ⟨_, hin, Lib.bind_eq_ok.mpr ⟨_, hout, rfl⟩⟩⟩

/-- What every poll keeps, whatever it returns. -/
structure Polled (me : StreamRef) (allowance : ℚ≥0) (c c' : StreamCtx) : Prop where
  moves : c.Moves c'
  srtt : c'.flow.srtt = c.flow.srtt
  rxWithin : c'.flow.rxPool.used ≤ c.flow.rxPool.used
  txWithin : c.flow.txPool.used ≤ c.flow.txPool.size → c'.flow.txPool.used ≤ c'.flow.txPool.size
  borrowed_le : c'.state.outbound.ledger.window.borrowed ≤
    max c.state.outbound.ledger.window.borrowed ⌊allowance⌋₊
  queue : ∀ r, r ≠ me → (r ∈ c'.flow.turns.queue ↔ r ∈ c.flow.turns.queue)
  nodup : c.flow.turns.queue.Nodup → c'.flow.turns.queue.Nodup
  /-- The other streams are only ever woken. -/
  others : ∀ r, r ≠ me → c'.wakes.updates r = c.wakes.updates r ∨
    c'.wakes.updates r = (c.wakes.updates r).wake
  /-- If the pool has room, the front of the queue is scheduled, unless it is the stream polled. -/
  front : c.flow.FrontScheduled c.wakes → (∀ r ∈ c.flow.turns.queue, (c.wakes.updates r).Live) →
    c.flow.turns.queue.Nodup → ∀ r, c'.flow.turns.queue.head? = some r →
    c'.flow.txPool.hasRoom = true → r ≠ me → (c'.wakes.updates r).scheduled = true

/-- A poll keeps what every poll keeps. -/
theorem pollProgress_polled (h : c.pollProgress task me allowance = .ok (res, task', c')) :
    c.Polled me allowance c' := by
  obtain ⟨inRes, outRes, rxPool, wk, hin, hout, hres⟩ := pollProgress_split h
  obtain ⟨n, wk₁, hplan, hwk, -⟩ := OutboundTraffic.pollUpdate_cases hout
  obtain ⟨hsrtt, hrx⟩ := hplan.keeps
  -- Parking concerns the stream that is polled.
  have hwakes : ∀ r, r ≠ me → c'.wakes.updates r = wk₁.updates r := by
    intro r hr
    rcases hres with ⟨-, -, -, -, hw⟩ | ⟨-, hw, -⟩
    · rw [hw, ← hwk]
      simp [Wakes.park, hr]
    · rw [hw, hwk]
  refine ⟨⟨?_, hplan.moves⟩, hsrtt, ?_, hplan.within, hplan.borrowed_le,
    fun r hr => hplan.mem_queue hr,
    hplan.nodup, fun r hr => ?_, fun hfront hlive hq r hr hroom hne => ?_⟩
  · rw [hrx]
    exact InboundTraffic.pollUpdate_moves hin
  · rw [hrx]
    exact InboundTraffic.pollUpdate_within hin
  · rw [hwakes r hr]
    exact hplan.le r
  · rw [hwakes r hne]
    exact (hplan.front hfront hlive hq hr hroom).1 hne

/-- A poll takes no `FIN_*` back. -/
theorem pollProgress_finLe (h : c.pollProgress task me allowance = .ok (res, task', c')) :
    c.state.FinLe c'.state := by
  obtain ⟨inRes, outRes, rxPool, wk, hin, hout, -⟩ := pollProgress_split h
  have hi := InboundTraffic.pollUpdate_emits hin
  have ho := OutboundTraffic.pollUpdate_emits hout
  exact ⟨fun hf => by rw [hi.finSent, hf]; rfl, hi.ended.trans,
    fun hf => by rw [ho.finSent, hf]; rfl, ho.finReceived.trans⟩

/-- A poll leaves both directions well formed. -/
theorem pollProgress_wf (h : c.pollProgress task me allowance = .ok (res, task', c')) :
    (∀ b, c.state.inbound.WF b → c'.state.inbound.WF b) ∧
      (∀ limit b, c.state.outbound.WF limit b → c'.state.outbound.WF limit b) := by
  obtain ⟨inRes, outRes, rxPool, wk, hin, hout, -⟩ := pollProgress_split h
  exact ⟨fun _ hw => hw.pollUpdate hin, fun _ _ hw => hw.pollUpdate hout⟩

/-- A pending poll changes neither the stream nor the task. -/
theorem pollProgress_pending_eq
    (h : c.pollProgress task me allowance = .ok (.pending, task', c')) :
    c'.state = c.state ∧ task' = task := by
  obtain ⟨inRes, outRes, rxPool, wk, hin, hout, ⟨rfl, rfl, -, rfl, -⟩ |
    ⟨-, -, -, u, -, -, -, -, hr⟩⟩ := pollProgress_split h
  · obtain ⟨n, wk₁, -, -, ⟨-, -, ho, -⟩ | ⟨chunk, fin, hr, -⟩⟩ :=
      OutboundTraffic.pollUpdate_cases hout
    · rcases InboundTraffic.pollUpdate_cases hin with ⟨-, -, hi, -⟩ | ⟨_, hr, -⟩ | ⟨hr, -⟩
      · exact ⟨StreamState.ext hi ho, rfl⟩
      · cases hr
      · cases hr
    · cases hr
  · cases hr

/-- What a pending poll leaves: a stream at rest, and the task parked with its waker registered. -/
theorem pollProgress_pending (h : c.pollProgress task me allowance = .ok (.pending, task', c'))
    (hq : c.flow.turns.queue.Nodup) :
    c'.state.Rests (me ∈ c'.flow.turns.queue) ∧
      c'.wakes.updates me = { registered := true, scheduled := false } ∧
      (c.flow.FrontScheduled c.wakes → (∀ r ∈ c.flow.turns.queue, (c.wakes.updates r).Live) →
        c'.flow.turns.queue.head? = some me → c'.flow.txPool.hasRoom = false) := by
  rw [(pollProgress_pending_eq h).1]
  obtain ⟨inRes, outRes, rxPool, wk, hin, hout, ⟨rfl, rfl, -, rfl, hw⟩ |
    ⟨-, -, -, u, -, -, -, -, hr⟩⟩ := pollProgress_split h
  · obtain ⟨n, wk₁, hplan, hwk, ⟨-, rfl, ho, hidle⟩ | ⟨chunk, fin, hr, -⟩⟩ :=
      OutboundTraffic.pollUpdate_cases hout
    · rcases InboundTraffic.pollUpdate_cases hin with ⟨-, hi, hi', rfl⟩ | ⟨_, hr, -⟩ | ⟨hr, -⟩
      · refine ⟨⟨hi, ⟨hidle, fun hme => ?_⟩⟩, by rw [hw]; simp [Wakes.park],
          fun hfront hlive hhead => ?_⟩
        · obtain ⟨hpos, hbase⟩ := hplan.me_queue hq hme
          exact ⟨List.ne_nil_of_length_pos hpos, hbase⟩
        · by_contra hroom
          exact (hplan.front hfront hlive hq hhead (by simpa using hroom)).2 rfl rfl
      · cases hr
      · cases hr
    · cases hr
  · cases hr

/-- What a poll that yields leaves: the two directions after what the update carries, and a task
that has sent its `SYN`. -/
theorem pollProgress_ready {progress : Progress}
    (h : c.pollProgress task me allowance = .ok (.ready progress, task', c')) :
    task' = { task with syn := false } ∧
      ∃ update, progress = (if c'.state.finState.sent then .break update c'.state.finState
          else .continue update c'.state.finState) ∧
        update.id = task.id ∧ update.flags.syn = task.syn ∧
        (0 < c.state.inbound.creditThreshold → update.credit ≠ 0 ∨ update.data ≠ [] ∨
          update.flags.finRead = true ∨ update.flags.finWrite = true) ∧
        c.state.inbound.Emits update.credit.toNat update.flags.finRead c'.state.inbound ∧
        c.state.outbound.Emits update.data update.flags.finWrite c'.state.outbound := by
  obtain ⟨inRes, outRes, rxPool, wk, hin, hout, ⟨-, -, hr, -⟩ |
    ⟨hne, -, ht, ⟨id, credit, data, flags⟩, rfl, rfl, rfl, rfl, hr⟩⟩ := pollProgress_split h
  · cases hr
  cases hr
  refine ⟨ht, _, rfl, rfl, rfl, fun hpos => ?_, InboundTraffic.pollUpdate_emits hin,
    OutboundTraffic.pollUpdate_emits hout⟩
  -- At least one of the directions had something to send.
  rcases InboundTraffic.pollUpdate_cases hin with ⟨rfl, -⟩ | ⟨c, rfl, -, hth, hc, -⟩ | ⟨rfl, -⟩
  · obtain ⟨n, wk₁, -, -, ⟨rfl, -⟩ | ⟨chunk, fin, rfl, hs⟩⟩ := OutboundTraffic.pollUpdate_cases hout
    · exact absurd ⟨rfl, rfl⟩ hne
    · exact hs.something.elim (fun h => .inr (.inl h)) fun h => .inr (.inr (.inr h))
  · left
    rintro hzero
    simp only [Poll.getD] at hzero
    rw [hzero] at hc
    simp at hc
    omega
  · exact .inr (.inr (.inl rfl))

end Polled

end StreamCtx

end Rammux
