import Rammux.Connection.Aborted

/-!
# The handles of the application

`RammuxSink` and `RammuxStream` of `src/stream/duplex.rs`: the two halves of a stream, as the
application holds them. A half forgets its stream once there is nothing more to do with it, and then
answers by itself. Dropping a half closes it.

`Handles` is an endpoint with the handles of its streams. What is done with a handle is what the
application does with the stream (`step_path`).
-/

namespace Rammux

/-- The writing half of a stream. -/
structure RammuxSink where
  /-- `none` once writing is closed. -/
  shared : Option StreamRef

/-- The reading half of a stream. -/
structure RammuxStream where
  /-- `none` once reading is closed. -/
  shared : Option StreamRef

/-- Updates the sending direction of a stream. -/
def Streams.setOutbound (s : Streams) (r : StreamRef) (outbound : OutboundTraffic)
    (wakes : Wakes) : Streams :=
  s.put r ⟨{ s.state r with outbound }, s.flow, wakes⟩

/-- Updates the receiving direction of a stream. -/
def Streams.setInbound (s : Streams) (r : StreamRef) (inbound : InboundTraffic)
    (wakes : Wakes) : Streams :=
  s.put r ⟨{ s.state r with inbound }, s.flow, wakes⟩

/-- The last state that is put back for a stream counts. -/
theorem Streams.put_put (s : Streams) (r : StreamRef) (c c' : StreamCtx) :
    (s.put r c).put r c' = s.put r c' := by
  simp only [Streams.put, Function.update_idem]

namespace RammuxSink

/-- Whether the sink can take an item. -/
def pollReady (sink : RammuxSink) (waker : Waker) (s : Streams) :
    Poll (Except WriteError Unit) × RammuxSink × Streams :=
  match sink.shared with
  | none => (.ready (.error .brokenPipe), sink, s)
  | some r =>
    let (result, outbound) := (s.state r).outbound.pollWriteReady waker
    let s := s.setOutbound r outbound s.wakes
    match result with
    | .ready (.error e) => (.ready (.error e), ⟨none⟩, s)
    | result => (result, sink, s)

/-- Takes an item. Only a closed direction is forgotten: a write that came before the sink was ready
is rejected, and the stream stays. -/
def startSend (sink : RammuxSink) (item : Bytes) (s : Streams) :
    Except WriteError Unit × RammuxSink × Streams :=
  match sink.shared with
  | none => (.error .brokenPipe, sink, s)
  | some r =>
    let (result, outbound, wakes) := (s.state r).outbound.write item r s.wakes
    let s := s.setOutbound r outbound wakes
    match result with
    | .error .brokenPipe => (.error .brokenPipe, ⟨none⟩, s)
    | result => (result, sink, s)

/-- Waits for the items to be handed to the connection. -/
def pollFlush (sink : RammuxSink) (waker : Waker) (s : Streams) :
    Poll (Except WriteError Unit) × RammuxSink × Streams :=
  match sink.shared with
  | none => (.ready (.ok ()), sink, s)
  | some r =>
    let (result, outbound) := (s.state r).outbound.pollFlushed waker
    let s := s.setOutbound r outbound s.wakes
    match result with
    | .pending => (.pending, sink, s)
    | .ready () => (.ready (.ok ()), sink, s)

/-- Closes the sink, and waits for the items to be handed to the connection. -/
def pollClose (sink : RammuxSink) (waker : Waker) (s : Streams) :
    Poll (Except WriteError Unit) × RammuxSink × Streams :=
  match sink.shared with
  | none => (.ready (.ok ()), sink, s)
  | some r =>
    let (outbound, wakes) := (s.state r).outbound.closeWriting r s.wakes
    let (result, outbound) := outbound.pollFlushed waker
    let s := s.setOutbound r outbound wakes
    match result with
    | .pending => (.pending, sink, s)
    | .ready () => (.ready (.ok ()), ⟨none⟩, s)

/-- Dropping the sink closes writing. -/
def drop (sink : RammuxSink) (s : Streams) : Streams :=
  match sink.shared with
  | none => s
  | some r =>
    let (outbound, wakes) := (s.state r).outbound.closeWriting r s.wakes
    s.setOutbound r outbound wakes

end RammuxSink

namespace RammuxStream

/-- The next chunk of data. -/
def pollNext (stream : RammuxStream) (waker : Waker) (s : Streams) :
    Except Panic (Poll (Option Bytes) × RammuxStream × Streams) :=
  match stream.shared with
  | none => .ok (.ready none, stream, s)
  | some r => do
    let (result, inbound, wakes) ← (s.state r).inbound.pollRead waker r s.wakes
    let s := s.setInbound r inbound wakes
    match result with
    | .ready none => return (.ready none, ⟨none⟩, s)
    | result => return (result, stream, s)

/-- Dropping the stream closes reading. -/
def drop (stream : RammuxStream) (s : Streams) : Streams :=
  match stream.shared with
  | none => s
  | some r =>
    let (inbound, wakes) := (s.state r).inbound.closeReading r s.wakes
    s.setInbound r inbound wakes

end RammuxStream

/-! ## The machine -/

/-- What the application does with a sink. -/
inductive SinkOp where
  | pollReady (waker : Waker)
  | startSend (item : Bytes)
  | pollFlush (waker : Waker)
  | pollClose (waker : Waker)
  | drop

/-- What the application does with a stream. -/
inductive StreamOp where
  | pollNext (waker : Waker)
  | drop

/-- An endpoint with the handles of its streams. A half is `none` once it was dropped. -/
structure Handles where
  endpoint : Endpoint
  sinks : StreamRef → Option RammuxSink
  streams : StreamRef → Option RammuxStream

namespace Handles

/-- What happens to an endpoint and its handles. -/
inductive Action where
  /-- The connection does something, or is gone. -/
  | conn (a : Endpoint.Action)
  | sink (r : StreamRef) (op : SinkOp)
  | stream (r : StreamRef) (op : StreamOp)

/-- What is answered. -/
inductive Answer where
  | conn (o : Streams.Output)
  | ready (result : Poll (Except WriteError Unit))
  | sent (result : Except WriteError Unit)
  | flushed (result : Poll (Except WriteError Unit))
  | closed (result : Poll (Except WriteError Unit))
  | next (data : Poll (Option Bytes))
  | none

/-- The application uses a sink. -/
def useSink (sink : RammuxSink) (op : SinkOp) (s : Streams) :
    Answer × Option RammuxSink × Streams :=
  match op with
  | .pollReady waker =>
    let used := sink.pollReady waker s
    (.ready used.1, some used.2.1, used.2.2)
  | .startSend item =>
    let used := sink.startSend item s
    (.sent used.1, some used.2.1, used.2.2)
  | .pollFlush waker =>
    let used := sink.pollFlush waker s
    (.flushed used.1, some used.2.1, used.2.2)
  | .pollClose waker =>
    let used := sink.pollClose waker s
    (.closed used.1, some used.2.1, used.2.2)
  | .drop => (.none, none, sink.drop s)

/-- The application uses a stream. -/
def useStream (stream : RammuxStream) (op : StreamOp) (s : Streams) :
    Except Panic (Answer × Option RammuxStream × Streams) :=
  match op with
  | .pollNext waker => do
    let (result, stream, s) ← stream.pollNext waker s
    return (.next result, some stream, s)
  | .drop => .ok (.none, none, stream.drop s)

/-- One step. The application has only the handles: it cannot use a stream in another way. -/
def step (h : Handles) : Action → Except Panic (Answer × Handles)
  -- The application has its halves, and uses a stream through them only.
  | .conn (.act (.app ..)) => .ok (.none, h)
  | .conn a => do
    let (o, endpoint) ← h.endpoint.step a
    return (.conn o, { h with endpoint })
  | .sink r op =>
    match (if r < h.endpoint.streams.next then h.sinks r else none) with
    | none => .ok (.none, h)
    | some sink =>
      let used := useSink sink op h.endpoint.streams
      .ok (used.1, { h with
        endpoint := { h.endpoint with streams := used.2.2 }
        sinks := Function.update h.sinks r used.2.1 })
  | .stream r op =>
    match (if r < h.endpoint.streams.next then h.streams r else none) with
    | none => .ok (.none, h)
    | some stream => do
      let (answer, stream, streams) ← useStream stream op h.endpoint.streams
      return (answer, { h with
        endpoint := { h.endpoint with streams }
        streams := Function.update h.streams r stream })

/-- An endpoint with its handles, from the start of its connection. Every stream comes with its two
halves: `RammuxDuplex::new`. -/
def machine (role : RammuxRole) (config : RammuxConfig) :
    Lib.Machine Panic Handles Action Answer where
  init := ⟨(Endpoint.machine role config).init, fun r => some ⟨some r⟩, fun r => some ⟨some r⟩⟩
  step := step

/-! ## What is done with a handle is done with the stream -/

/-- The handles are those of their streams. -/
structure Owned (h : Handles) : Prop where
  sink : ∀ r sink, h.sinks r = some sink → sink.shared = none ∨ sink.shared = some r
  stream : ∀ r stream, h.streams r = some stream → stream.shared = none ∨ stream.shared = some r

variable {role : RammuxRole} {config : RammuxConfig}

variable (role config) in
/-- One use of a stream. -/
theorem path_app {e : Endpoint} {r : StreamRef} (op : AppOp) {res : AppResult} {c : StreamCtx}
    (hr : r < e.streams.next) (h : (e.streams.ctx r).app op r = .ok (res, c)) :
    (Endpoint.machine role config).Path e
      [⟨e, .act (.app r op), .app res, { e with streams := e.streams.put r c }⟩]
      { e with streams := e.streams.put r c } :=
  .cons (Endpoint.step_app hr h) (.nil _)

/-- What a sink does to the streams. -/
theorem useSink_streams (sink : RammuxSink) (op : SinkOp) (s : Streams) :
    (useSink sink op s).2.2 = s ∨ ∃ r t wk, sink.shared = some r ∧
      (useSink sink op s).2.2 = s.setOutbound r t wk := by
  cases hshared : sink.shared with
  | none =>
    left
    cases op <;> simp only [useSink, RammuxSink.pollReady, RammuxSink.startSend,
      RammuxSink.pollFlush, RammuxSink.pollClose, RammuxSink.drop, hshared]
  | some r =>
    right
    cases op with
    | pollReady waker =>
      simp only [useSink, RammuxSink.pollReady, hshared]
      split <;> exact ⟨r, _, _, rfl, rfl⟩
    | startSend item =>
      simp only [useSink, RammuxSink.startSend, hshared]
      split <;> exact ⟨r, _, _, rfl, rfl⟩
    | pollFlush waker =>
      simp only [useSink, RammuxSink.pollFlush, hshared]
      split <;> exact ⟨r, _, _, rfl, rfl⟩
    | pollClose waker =>
      simp only [useSink, RammuxSink.pollClose, hshared]
      split <;> exact ⟨r, _, _, rfl, rfl⟩
    | drop =>
      simp only [useSink, RammuxSink.drop, hshared]
      exact ⟨r, _, _, rfl, rfl⟩

/-- What a stream half does to the streams. -/
theorem useStream_streams {stream : RammuxStream} {op : StreamOp} {answer : Answer}
    {half : Option RammuxStream} {s s' : Streams}
    (h : useStream stream op s = .ok (answer, half, s')) :
    s' = s ∨ ∃ r t wk, s' = s.setInbound r t wk := by
  cases hshared : stream.shared with
  | none =>
    cases op with
    | pollNext waker =>
      simp only [useStream, RammuxStream.pollNext, hshared] at h
      cases h
      exact .inl rfl
    | drop =>
      simp only [useStream, RammuxStream.drop, hshared] at h
      cases h
      exact .inl rfl
  | some r =>
    cases op with
    | pollNext waker =>
      simp only [useStream, RammuxStream.pollNext, hshared] at h
      obtain ⟨⟨res, half, s₁⟩, hpoll, h⟩ := Lib.bind_eq_ok.mp h
      obtain ⟨⟨chunk, inbound, wakes⟩, -, hpoll⟩ := Lib.bind_eq_ok.mp hpoll
      cases h
      dsimp only at hpoll
      split at hpoll <;> cases hpoll <;> exact .inr ⟨r, _, _, rfl⟩
    | drop =>
      simp only [useStream, RammuxStream.drop, hshared] at h
      cases h
      exact .inr ⟨r, _, _, rfl⟩

/-- A sink that has forgotten its stream does nothing. -/
theorem useSink_none {sink : RammuxSink} (h : sink.shared = none) (op : SinkOp) (s : Streams) :
    (useSink sink op s).2.2 = s ∧ ∀ sink', (useSink sink op s).2.1 = some sink' →
      sink'.shared = none := by
  cases op with
  | drop => exact ⟨by simp only [useSink, RammuxSink.drop, h], nofun⟩
  | _ =>
    simp only [useSink, RammuxSink.pollReady, RammuxSink.startSend, RammuxSink.pollFlush,
      RammuxSink.pollClose, h, Option.some.injEq, true_and]
    rintro sink' rfl
    exact h

/-- A sink that has its stream uses it, once or twice, and keeps it or forgets it. -/
theorem useSink_some {sink : RammuxSink} {e : Endpoint} {r : StreamRef} (h : sink.shared = some r)
    (op : SinkOp) (hr : r < e.streams.next) :
    (∃ steps, (Endpoint.machine role config).Path e steps
      { e with streams := (useSink sink op e.streams).2.2 }) ∧
    ∀ sink', (useSink sink op e.streams).2.1 = some sink' →
      sink'.shared = none ∨ sink'.shared = some r := by
  cases op with
  | pollReady waker =>
    have hpath := path_app role config (.pollWriteReady waker) hr rfl
    simp only [useSink, RammuxSink.pollReady, h]
    split
    · exact ⟨⟨_, hpath⟩, by rintro _ ⟨⟩; exact .inl rfl⟩
    · exact ⟨⟨_, hpath⟩, by rintro _ ⟨⟩; exact .inr h⟩
  | startSend item =>
    have hpath := path_app role config (.write item) hr rfl
    simp only [useSink, RammuxSink.startSend, h]
    split
    · exact ⟨⟨_, hpath⟩, by rintro _ ⟨⟩; exact .inl rfl⟩
    · exact ⟨⟨_, hpath⟩, by rintro _ ⟨⟩; exact .inr h⟩
  | pollFlush waker =>
    have hpath := path_app role config (.pollFlushed waker) hr rfl
    simp only [useSink, RammuxSink.pollFlush, h]
    split
    · exact ⟨⟨_, hpath⟩, by rintro _ ⟨⟩; exact .inr h⟩
    · exact ⟨⟨_, hpath⟩, by rintro _ ⟨⟩; exact .inr h⟩
  | pollClose waker =>
    -- Closing is two uses: the writer is closed, and then flushed.
    have hclose := path_app role config .closeWriting hr rfl
    have hflush := hclose.trans (path_app role config (.pollFlushed waker) hr rfl)
    simp only [Streams.put_put, Streams.put_ctx] at hflush
    simp only [useSink, RammuxSink.pollClose, h]
    split
    · exact ⟨⟨_, hflush⟩, by rintro _ ⟨⟩; exact .inr h⟩
    · exact ⟨⟨_, hflush⟩, by rintro _ ⟨⟩; exact .inl rfl⟩
  | drop =>
    have hpath := path_app role config .closeWriting hr rfl
    simp only [useSink, RammuxSink.drop, h]
    exact ⟨⟨_, hpath⟩, nofun⟩

variable (role config) in
/-- What is done with a stream half is done with the stream. -/
theorem useStream_path {stream : RammuxStream} {e : Endpoint} {r : StreamRef}
    {op : StreamOp} {answer : Answer} {half : Option RammuxStream} {s' : Streams}
    (hshared : stream.shared = none ∨ stream.shared = some r) (hr : r < e.streams.next)
    (h : useStream stream op e.streams = .ok (answer, half, s')) :
    (∃ steps, (Endpoint.machine role config).Path e steps { e with streams := s' }) ∧
      ∀ stream', half = some stream' → stream'.shared = none ∨ stream'.shared = some r := by
  rcases hshared with hshared | hshared
  · -- Without its stream the half does nothing.
    cases op with
    | pollNext waker =>
      simp only [useStream, RammuxStream.pollNext, hshared] at h
      cases h
      refine ⟨⟨_, .nil _⟩, ?_⟩
      rintro _ ⟨⟩
      exact .inl hshared
    | drop =>
      simp only [useStream, RammuxStream.drop, hshared] at h
      cases h
      exact ⟨⟨_, .nil _⟩, nofun⟩
  · cases op with
    | pollNext waker =>
      simp only [useStream, RammuxStream.pollNext, hshared] at h
      obtain ⟨⟨res, half, s₁⟩, hpoll, h⟩ := Lib.bind_eq_ok.mp h
      obtain ⟨⟨chunk, inbound, wakes⟩, hread, hpoll⟩ := Lib.bind_eq_ok.mp hpoll
      have happ : (e.streams.ctx r).app (.pollRead waker) r = .ok (.read chunk, _) :=
        Lib.bind_eq_ok.mpr ⟨_, hread, rfl⟩
      have hpath := path_app role config (.pollRead waker) hr happ
      cases h
      dsimp only at hpoll
      -- At the end of the stream the half forgets it.
      split at hpoll
      · cases hpoll
        exact ⟨⟨_, hpath⟩, by rintro _ ⟨⟩; exact .inl rfl⟩
      · cases hpoll
        exact ⟨⟨_, hpath⟩, by rintro _ ⟨⟩; exact .inr hshared⟩
    | drop =>
      have hpath := path_app role config .closeReading hr rfl
      simp only [useStream, RammuxStream.drop, hshared] at h
      cases h
      exact ⟨⟨_, hpath⟩, nofun⟩

/-- What a step does: the connection makes a step, a half is used, or nothing happens. -/
theorem step_cases {h h' : Handles} {a : Action} {o : Answer} (hstep : h.step a = .ok (o, h')) :
    (∃ b o' e', a = .conn b ∧ (∀ r op, b ≠ .act (.app r op)) ∧ o = .conn o' ∧
        h.endpoint.step b = .ok (o', e') ∧ h' = { h with endpoint := e' }) ∨
      (∃ r op sink, a = .sink r op ∧ r < h.endpoint.streams.next ∧ h.sinks r = some sink ∧
        o = (useSink sink op h.endpoint.streams).1 ∧
        h' = { h with
          endpoint := { h.endpoint with streams := (useSink sink op h.endpoint.streams).2.2 }
          sinks := Function.update h.sinks r (useSink sink op h.endpoint.streams).2.1 }) ∨
      (∃ r op stream half s', a = .stream r op ∧ r < h.endpoint.streams.next ∧
        h.streams r = some stream ∧ useStream stream op h.endpoint.streams = .ok (o, half, s') ∧
        h' = { h with
          endpoint := { h.endpoint with streams := s' }
          streams := Function.update h.streams r half }) ∨
      (o = .none ∧ h' = h) := by
  unfold step at hstep
  -- An operation on a stream goes through its half, so the bare one is no step.
  split at hstep
  · cases hstep
    exact .inr (.inr (.inr ⟨rfl, rfl⟩))
  · next b hb =>
    obtain ⟨⟨o', e'⟩, he, hstep⟩ := Lib.bind_eq_ok.mp hstep
    cases hstep
    exact .inl ⟨b, o', e', rfl, hb, rfl, he, rfl⟩
  · -- The sink, if the application has one of the stream.
    next r op =>
    split at hstep
    · cases hstep
      exact .inr (.inr (.inr ⟨rfl, rfl⟩))
    · next sink hsink =>
      cases hstep
      split at hsink
      · next hr => exact .inr (.inl ⟨r, op, sink, rfl, hr, hsink, rfl, rfl⟩)
      · cases hsink
  · -- The stream half, likewise.
    next r op =>
    split at hstep
    · cases hstep
      exact .inr (.inr (.inr ⟨rfl, rfl⟩))
    · next stream hstream =>
      obtain ⟨⟨answer, half, s'⟩, huse, hstep⟩ := Lib.bind_eq_ok.mp hstep
      cases hstep
      split at hstream
      · next hr => exact .inr (.inr (.inl ⟨r, op, stream, half, s', rfl, hr, hstream, huse, rfl⟩))
      · cases hstream

/-- A step of the handles is a path of the endpoint, and the handles stay those of their streams. -/
theorem step_path {h h' : Handles} {a : Action} {o : Answer} (howned : h.Owned)
    (hstep : h.step a = .ok (o, h')) : h'.Owned ∧
      ∃ steps, (Endpoint.machine role config).Path h.endpoint steps h'.endpoint := by
  rcases step_cases hstep with ⟨b, o', e', -, -, -, he, rfl⟩ | ⟨r, op, sink, -, hr, hsink, -, rfl⟩ |
    ⟨r, op, stream, half, s', -, hr, hstream, huse, rfl⟩ | ⟨-, rfl⟩
  · exact ⟨⟨howned.sink, howned.stream⟩, _, .cons he (.nil _)⟩
  · have hshared : (∃ steps, (Endpoint.machine role config).Path h.endpoint steps
        { h.endpoint with streams := (useSink sink op h.endpoint.streams).2.2 }) ∧
        ∀ sink', (useSink sink op h.endpoint.streams).2.1 = some sink' →
          sink'.shared = none ∨ sink'.shared = some r := by
      rcases howned.sink r sink hsink with hnone | hsome
      · obtain ⟨hs, hkeeps⟩ := useSink_none hnone op h.endpoint.streams
        rw [hs]
        exact ⟨⟨_, .nil _⟩, fun sink' hsink' => .inl (hkeeps sink' hsink')⟩
      · exact useSink_some hsome op hr
    refine ⟨⟨fun r' sink' hsink' => ?_, howned.stream⟩, hshared.1⟩
    by_cases heq : r' = r
    · subst heq
      exact hshared.2 sink' ((Function.update_self r' _ h.sinks).symm.trans hsink')
    · exact howned.sink r' sink' ((Function.update_of_ne heq _ _).symm.trans hsink')
  · obtain ⟨hpath, hshared⟩ := useStream_path role config (howned.stream r stream hstream) hr huse
    refine ⟨⟨howned.sink, fun r' stream' hstream' => ?_⟩, hpath⟩
    by_cases heq : r' = r
    · subst heq
      exact hshared stream' ((Function.update_self r' _ h.streams).symm.trans hstream')
    · exact howned.stream r' stream' ((Function.update_of_ne heq _ _).symm.trans hstream')
  · exact ⟨howned, _, .nil _⟩

/-- A path of the handles makes a path of the endpoint. -/
theorem endpoint_of_path {h : Handles} {steps : List (Lib.Machine.Taken Handles Action Answer)}
    (hpath : (machine role config).Path (machine role config).init steps h) :
    h.Owned ∧ ∃ steps, (Endpoint.machine role config).Path (Endpoint.machine role config).init steps
      h.endpoint := by
  refine Lib.Machine.Path.invariant (I := fun _ h => h.Owned ∧ ∃ steps,
    (Endpoint.machine role config).Path (Endpoint.machine role config).init steps h.endpoint)
    ?_ hpath [] ⟨⟨?_, ?_⟩, [], .nil _⟩
  · intro _ h a o h' ⟨howned, steps, hsteps⟩ hstep
    obtain ⟨howned', more, hmore⟩ := step_path howned hstep
    exact ⟨howned', _, hsteps.trans hmore⟩
  · rintro r _ ⟨⟩
    exact .inr rfl
  · rintro r _ ⟨⟩
    exact .inr rfl

end Handles

end Rammux
