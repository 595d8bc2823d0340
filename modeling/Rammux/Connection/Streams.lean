import Rammux.Stream.State

/-!
# The streams of a connection

`Streams` of `src/connection/streams.rs`: the tables of the streams, their tasks, and the flow they
share. The streams themselves live on a heap, as the code's `Arc`s do: a stream is a `StreamRef`,
and it stays after the tables forget it, because the application may still hold it.

`Streams.step` is everything that happens to one endpoint: the application opens streams and uses
them, the peer sends frames, the selector polls a task, and a round trip is sampled. A step can poll
the task of any stream, and the slot of a new stream is any that the slab may offer; so a run of
`Streams.machine` is any order of events that the code allows, and more.
-/

namespace Rammux

/-- The streams of a connection, with the heap they are on. -/
structure Streams where
  role : RammuxRole
  config : RammuxConfig
  /-- How many streams were ever started: the next `StreamRef`. -/
  next : StreamRef
  /-- The ID that the application sees (`RammuxDuplex::id`). -/
  ids : StreamRef → StreamId
  /-- The states behind the locks. -/
  state : StreamRef → StreamState
  /-- The atomic wakers of the streams, and the wakers of the application woken so far. -/
  wakes : Wakes
  /-- Streams that we started, by the slot of their ID. -/
  outbound : Lib.Slab StreamRef
  /-- Streams that the peer started. -/
  inbound : AList fun _ : StreamId => StreamRef
  /-- The tasks in the selector. -/
  updates : StreamRef → Option StreamUpdates
  /-- The strategy of the selector. -/
  flow : ConnFlow

namespace Streams

/-- The streams of a new connection. -/
def new (role : RammuxRole) (config : RammuxConfig) : Streams where
  role := role
  config := config
  next := 0
  ids := fun _ => ⟨0⟩
  state := fun _ => StreamState.new config
  wakes := { updates := fun _ => {}, woken := [] }
  outbound := Lib.Slab.empty
  inbound := ∅
  updates := fun _ => none
  flow := ConnFlow.new config.localRecvPool config.remoteRecvPool

/-- A stream, and what it shares with the others. -/
def ctx (s : Streams) (r : StreamRef) : StreamCtx := ⟨s.state r, s.flow, s.wakes⟩

/-- Puts back what was done with a stream. -/
def put (s : Streams) (r : StreamRef) (c : StreamCtx) : Streams :=
  { s with state := Function.update s.state r c.state, flow := c.flow, wakes := c.wakes }

/-- Creates a stream, and pushes its task: `stream::new`. -/
def create (s : Streams) (id : StreamId) (isOutbound : Bool) : Streams :=
  { s with
    next := s.next + 1
    ids := Function.update s.ids s.next id
    state := Function.update s.state s.next (StreamState.new s.config)
    wakes := { s.wakes with updates := Function.update s.wakes.updates s.next {} }
    updates := Function.update s.updates s.next (some ⟨id, isOutbound⟩) }

/-- Starts a new stream in a vacant slot, unless the configured limit or the IDs are exhausted. -/
def openOutbound (s : Streams) (key : ℕ) : Option StreamRef × Streams :=
  if s.config.maxOutboundStreams ≤ s.outbound.len then (none, s)
  else
    match StreamId.fromSlabIdx key s.role with
    | none => (none, s)
    | some id =>
      (some s.next, { s.create id true with outbound := s.outbound.insert key s.next })

/-- Forgets a stream. -/
def remove (s : Streams) (id : StreamId) : Except Panic Streams :=
  if id.initiatedBy = s.role then do
    let outbound ← s.outbound.remove .invalidKey id.slabIdx
    return { s with outbound }
  else .ok { s with inbound := s.inbound.erase id }

/-- Forgets a stream once it is closed on both sides. -/
def removeIfDead (s : Streams) (id : StreamId) (finState : FinState) : Except Panic Streams :=
  if finState.isDead then s.remove id else .ok s

/-- Hands the stream part of an inbound frame to a stream. -/
def deliver (s : Streams) (r : StreamRef) (header : StreamHeader) (data : Bytes)
    (newStream : Option StreamRef) :
    Except Panic (Except StreamViolation (Option StreamRef) × Streams) := do
  let (verdict, c) ← (s.ctx r).received header.credit data header.flags r
  let s := s.put r c
  match verdict with
  | .error error => return (.error ⟨header.id, error⟩, s)
  | .ok finState =>
    let s ← s.removeIfDead header.id finState
    return (.ok newStream, s)

/-- Hands the stream part of an inbound frame to its stream. Returns the new stream, if the frame
started one. -/
def receive (s : Streams) (header : StreamHeader) (data : Bytes) :
    Except Panic (Except StreamViolation (Option StreamRef) × Streams) :=
  let id := header.id
  let violation (error : StreamError) := .ok (.error ⟨id, error⟩, s)
  if id.initiatedBy = s.role then
    -- A stream of this side, which the peer cannot start.
    if header.flags.syn then violation .wrongPool
    else
      match s.outbound.get id.slabIdx with
      | none => violation .unknownStream
      | some r => s.deliver r header data none
  else
    -- A stream of the peer, which `SYN` starts.
    match s.inbound.lookup id with
    | some r =>
      if header.flags.syn then violation .occupiedId else s.deliver r header data none
    | none =>
      if header.flags.syn then
        if s.config.maxInboundStreams ≤ s.inbound.entries.length then violation .tooManyStreams
        else
          let r := s.next
          let s := { s.create id false with inbound := s.inbound.insert id r }
          s.deliver r header data (some r)
      else violation .unknownStream

/-- The selector polls the task of a stream. What the task yields is the stream part of a frame. -/
def pollUpdate (s : Streams) (r : StreamRef) (allowance : ℚ≥0) :
    Except Panic (Poll StreamUpdate × Streams) :=
  match s.updates r with
  | none => .ok (.pending, s)
  | some task => do
    let (poll, task, c) ← (s.ctx r).pollProgress task r allowance
    let s := s.put r c
    match poll with
    | .pending => return (.pending, s)
    | .ready (.continue update finState) =>
      let updates := Function.update s.updates r (some task)
      let s := { s with updates, wakes := s.wakes.schedule r }
      let s ← s.removeIfDead update.id finState
      return (.ready update, s)
    | .ready (.break update finState) =>
      -- A closed stream waits for nothing, and nobody waits for it.
      let passed := s.flow.passTurn r s.wakes
      let updates := Function.update s.updates r none
      let s := { s with updates, flow := passed.1, wakes := passed.2 }
      let s ← s.removeIfDead update.id finState
      return (.ready update, s)

/-- The streams in the tables. -/
def handles (s : Streams) : List StreamRef :=
  s.outbound.entries.filterMap id ++ s.inbound.entries.map fun entry => entry.2

/-- Aborts all streams, when the connection is gone: `Drop for Streams`. -/
def abort (s : Streams) : Streams :=
  s.handles.foldl (fun s r => s.put r ((s.ctx r).abort r)) s

/-! ## The endpoint as a machine -/

/-- What happens to an endpoint. -/
inductive Action where
  /-- The application starts a stream, in a slot that the slab offers. -/
  | open (key : ℕ)
  /-- A frame with a stream part arrives. -/
  | receive (header : StreamHeader) (data : Bytes)
  /-- The selector polls a task. -/
  | poll (r : StreamRef) (allowance : ℚ≥0)
  /-- The application uses a stream. -/
  | app (r : StreamRef) (op : AppOp)
  /-- A round trip was measured. -/
  | observe (rtt : ℚ)

/-- What an endpoint answers. -/
inductive Output where
  | opened (stream : Option StreamRef)
  | received (result : Except StreamViolation (Option StreamRef))
  | polled (update : Poll StreamUpdate)
  | app (result : AppResult)
  /-- The action is not one that can happen, or has no answer. -/
  | none

/-- One step of an endpoint. -/
def step (s : Streams) : Action → Except Panic (Output × Streams)
  | .open key =>
    -- The slab chooses a vacant key; any other is no call of the code.
    if s.outbound.Vacant key then
      let opened := s.openOutbound key
      .ok (.opened opened.1, opened.2)
    else .ok (.none, s)
  | .receive header data => do
    let (result, s) ← s.receive header data
    return (.received result, s)
  | .poll r allowance => do
    let (update, s) ← s.pollUpdate r allowance
    return (.polled update, s)
  | .app r op =>
    if r < s.next then do
      let (result, c) ← (s.ctx r).app op r
      return (.app result, s.put r c)
    else .ok (.none, s)
  | .observe rtt => .ok (.none, { s with flow := { s.flow with srtt := s.flow.srtt.observe rtt } })

/-- An endpoint of a connection, from its start. -/
def machine (role : RammuxRole) (config : RammuxConfig) : Lib.Machine Panic Streams Action Output :=
  ⟨new role config, step⟩

/-- The event is not a violation: it leaves the connection alive. -/
def NoViolation (e : Action × Output) : Prop := ∀ v, e.2 ≠ .received (.error v)

/-! ## The tables -/

/-- The stream that has an ID now. -/
def lookup (s : Streams) (id : StreamId) : Option StreamRef :=
  if id.initiatedBy = s.role then s.outbound.get id.slabIdx else s.inbound.lookup id

/-- All `FIN_*`s of the stream were sent and received. -/
def Dead (s : Streams) (r : StreamRef) : Prop := (s.state r).finState.isDead = true

end Streams

end Rammux
