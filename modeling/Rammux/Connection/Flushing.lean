import Rammux.Connection.Handles
import Rammux.Connection.Traces

/-!
# What a flush promises

`RammuxSink::poll_flush` and `poll_close` return as soon as nothing waits to be sent. The flush
should then tell that what the sink took was handed to the connection, in order. There are two steps
after which it does not (`Loses`):

* what waits is discarded, because the peer's `FIN_READ` was accepted, or because the connection is
  gone; the closed direction counts as flushed;
* something is offered to a sink that was closed while bytes wait; the sink forgets its stream, and
  answers by itself from then on.

In a run without such a step every flush tells the truth, and after such a step the next one does
not (`flush_tells`). `Sent` is the invariant that carries this over whole runs.
-/

namespace Rammux

namespace OutboundTraffic

/-- The direction is closed when the peer stopped reading, or the connection is gone. -/
theorem closeReadingSide_finReceived (t : OutboundTraffic) (me : StreamRef) (wk : Wakes) :
    (t.closeReadingSide me wk).2.1.finReceived = true := by
  rcases t.closeReadingSide_cases me wk with ⟨hrec, h⟩ | ⟨-, wk', h, -⟩
  · rw [h]
    exact hrec
  · rw [h]
    rfl

/-- Nothing waits in a direction that the peer closed. -/
theorem unsent_of_finReceived {t : OutboundTraffic} (h : t.finReceived = true) : t.unsent = [] := by
  by_contra hne
  exact Bool.noConfusion ((open_of_unsent hne).2.symm.trans h)

/-- A direction that the peer closed counts as flushed. -/
theorem flushed_of_finReceived {t : OutboundTraffic} (h : t.finReceived = true) (waker : Waker) :
    (t.pollFlushed waker).1 = .ready () := by
  unfold finReceived finState at h
  unfold pollFlushed
  split at h
  · cases h
  · cases h
  · rfl

/-- A flush is ready when nothing waits. -/
theorem unsent_of_flushed {t : OutboundTraffic} {waker : Waker}
    (h : (t.pollFlushed waker).1 = .ready ()) : t.unsent = [] := by
  unfold pollFlushed at h
  unfold unsent
  split at h
  · next data w hs =>
    split at h
    · next hd => exact hd
    · cases h
  · cases h
  · rfl

/-- Only a direction that is closed refuses to become ready. -/
theorem not_writing_of_refused {t : OutboundTraffic} {waker : Waker} {e : WriteError}
    (h : (t.pollWriteReady waker).1 = .ready (.error e)) : t.writing = false := by
  unfold pollWriteReady at h
  unfold writing
  split at h
  · split at h <;> cases h
  · rfl
  · rfl

/-- What a write takes follows what waits, and a broken pipe is a direction that is closed. -/
theorem write_unsent (t : OutboundTraffic) (item : Bytes) (me : StreamRef) (wk : Wakes) :
    (t.write item me wk).2.1.writing = t.writing ∧
      match (t.write item me wk).1 with
      | .ok () => t.writing = true ∧ (t.write item me wk).2.1.unsent = t.unsent ++ item
      | .error .brokenPipe => t.writing = false ∧ (t.write item me wk).2.1.unsent = t.unsent
      | .error .notReady => (t.write item me wk).2.1.unsent = t.unsent := by
  unfold write
  split
  · next data w hs =>
    split_ifs with hd hi
    · exact ⟨rfl, rfl⟩
    · have hnil : data = [] := by simpa using hd
      simp [writing, unsent, hs, hnil]
    · have hnil : item = [] := by simpa using hi
      simp [writing, unsent, hs, hnil]
  · next hs => simp [writing, hs]
  · next hs => simp [writing, hs]

/-- Closing keeps what waits. -/
theorem closeWriting_unsent (t : OutboundTraffic) (me : StreamRef) (wk : Wakes) :
    (t.closeWriting me wk).1.unsent = t.unsent ∧ (t.closeWriting me wk).1.writing = false := by
  rcases t.closeWriting_cases me wk with ⟨hw, h⟩ | ⟨w, hs, h⟩ | ⟨d, w, -, hs, h⟩
  · rw [h]
    exact ⟨rfl, hw⟩
  · rw [h]
    simp [unsent, writing, hs]
  · rw [h]
    simp [unsent, writing, hs]

end OutboundTraffic

namespace StreamCtx

variable {c c' : StreamCtx} {me : StreamRef} {credit : Option NonZeroU32} {data : Bytes}
  {flags : ControlFlags}

/-- What waits, and whether the direction is writing. -/
def waiting (c : StreamCtx) : Bytes × Bool := (c.state.outbound.unsent, c.state.outbound.writing)

/-- Credit is nothing to what waits. -/
theorem receivedCredit_waiting {v : Except StreamError Unit}
    (h : c.receivedCredit credit me = .ok (v, c')) : c'.waiting = c.waiting := by
  rcases receivedCredit_split h with ⟨-, -, rfl⟩ | ⟨k, o, f, wk, -, hup, rfl⟩
  · rfl
  · rcases OutboundTraffic.receivedWindowUpdate_cases hup with ⟨-, rfl, -, -⟩ | ⟨-, -, -, rfl, -⟩
    · rfl
    · rfl

/-- Data is nothing to what waits. -/
theorem receivedData_waiting {v : Except StreamError Unit}
    (h : c.receivedData data = .ok (v, c')) : c'.waiting = c.waiting := by
  obtain ⟨i, rxPool, wk, -, rfl⟩ := receivedData_split h
  rfl

/-- `FIN_WRITE` is nothing to what waits. -/
theorem receivedFinWrite_waiting {v : Except StreamError Unit}
    (h : c.receivedFinWrite flags.finWrite me = .ok (v, c')) : c'.waiting = c.waiting := by
  rcases receivedFinWrite_split h with ⟨-, -, rfl⟩ | ⟨i, wk, -, -, rfl⟩
  · rfl
  · rfl

/-- A frame changes nothing that the writer sees, or it is accepted and closes the direction with
`FIN_READ`. It closes the direction whenever it has `FIN_READ` and is accepted. -/
theorem received_waiting {verdict : Except StreamError FinState}
    (h : c.received credit data flags me = .ok (verdict, c')) :
    (c'.waiting = c.waiting ∧ (flags.finRead = true → ∀ fin, verdict ≠ .ok fin)) ∨
      (flags.finRead = true ∧ (∃ fin, verdict = .ok fin) ∧
        c'.state.outbound.finReceived = true) := by
  -- `FIN_READ` is the last part of a frame, so a frame that is refused before does not close.
  rcases Lib.andThen_cases h with ⟨e, hx, rfl⟩ | ⟨_, c₁, hx, h⟩
  · exact .inl ⟨receivedCredit_waiting hx, by simp⟩
  have h₁ := receivedCredit_waiting hx
  rcases Lib.andThen_cases h with ⟨e, hx, rfl⟩ | ⟨_, c₂, hx, h⟩
  · exact .inl ⟨(receivedData_waiting hx).trans h₁, by simp⟩
  have h₂ := (receivedData_waiting hx).trans h₁
  rcases Lib.andThen_cases h with ⟨e, hx, rfl⟩ | ⟨_, c₃, hx, h⟩
  · exact .inl ⟨(receivedFinWrite_waiting hx).trans h₂, by simp⟩
  have h₃ := (receivedFinWrite_waiting hx).trans h₂
  rcases Lib.andThen_cases h with ⟨e, hx, rfl⟩ | ⟨_, c₄, hx, h⟩
  · rcases receivedFinRead_split hx with ⟨-, -, rfl⟩ | ⟨o, f, wk, -, hfin, rfl⟩
    · exact .inl ⟨h₃, by simp⟩
    · rcases OutboundTraffic.receivedFinRead_cases hfin with ⟨-, -, rfl, -⟩ | ⟨hok, -⟩
      · exact .inl ⟨h₃, by simp⟩
      · cases hok
  · cases h
    rcases receivedFinRead_split hx with ⟨hflag, -, rfl⟩ | ⟨o, f, wk, hflag, hfin, rfl⟩
    · exact .inl ⟨h₃, by simp [hflag]⟩
    · rcases OutboundTraffic.receivedFinRead_cases hfin with ⟨herr, -⟩ | ⟨-, -, rfl, -⟩
      · cases herr
      · exact .inr ⟨hflag, ⟨_, rfl⟩, rfl⟩

end StreamCtx

namespace Streams

variable {s s' : Streams} {r : StreamRef}

/-- The peer stops reading a stream: a frame with `FIN_READ` arrives for it, and is accepted. -/
def StopsReading (s : Streams) (r : StreamRef) (a : Action) : Prop :=
  ∃ header data fin c, a = .receive header data ∧ s.lookup header.id = some r ∧
    header.flags.syn = false ∧ header.flags.finRead = true ∧
    (s.ctx r).received header.credit data header.flags r = .ok (.ok fin, c)

/-- What a step of the streams, other than by the application, does to what waits to be sent: the
task yields some of it, or the peer stops reading. -/
theorem step_unsent {a : Action} {o : Output} (h : s.step a = .ok (o, s')) (hr : r < s.next)
    (happ : ∀ op, a ≠ .app r op) :
    ((s.state r).outbound.unsent = (emitted r (a, o)).elim [] StreamUpdate.data ++
          (s'.state r).outbound.unsent ∧
        (s'.state r).outbound.writing = (s.state r).outbound.writing ∧ ¬ s.StopsReading r a) ∨
      (emitted r (a, o) = none ∧ s.StopsReading r a ∧
        (s'.state r).outbound.finReceived = true) := by
  cases step_stream h hr with
  | other hstate htask hwoken _ hpoll hrec =>
    -- The stream was not polled, so nothing of it was yielded.
    rw [hstate, emitted_of_other hpoll]
    refine .inl ⟨rfl, rfl, ?_⟩
    rintro ⟨header, data, -, -, ha, hlookup, hsyn, -⟩
    exact hrec header data ha hsyn hlookup
  | app ha => exact absurd ha (happ _)
  | @received header data verdict c ha ho hlookup hsyn hrec hs =>
    have hstate : s'.state r = c.state := by
      rw [hs]
      exact put_state_self _ _ _
    rw [hstate, ha]
    -- A frame leaves what waits, unless it is an accepted one with `FIN_READ`.
    rcases StreamCtx.received_waiting hrec with ⟨hsame, hnot⟩ | ⟨hfin, ⟨fin, rfl⟩, hclosed⟩
    · obtain ⟨hu, hw⟩ := Prod.mk.inj hsame
      refine .inl ⟨hu.symm, hw, ?_⟩
      rintro ⟨_, _, fin, c', ⟨⟩, -, -, hflag, hok⟩
      cases hrec.symm.trans hok
      exact hnot hflag fin rfl
    · exact .inr ⟨rfl, ⟨header, data, fin, c, rfl, hlookup, hsyn, hfin, hrec⟩, hclosed⟩
  | polled ha htask hpoll hstate hwoken hres =>
    obtain ⟨inRes, outRes, rxPool, wk, -, hout, hready⟩ := StreamCtx.pollProgress_split hpoll
    -- The task yields a prefix of what waits.
    have hemits := OutboundTraffic.pollUpdate_emits hout
    rw [hstate, Function.update_self, ha]
    refine .inl ⟨hemits.unsent.trans ?_, hemits.writing, by rintro ⟨_, _, _, _, heq, -⟩; cases heq⟩
    -- Both polls pending is no update; otherwise the update has the data of the sending direction.
    rcases hready with ⟨-, rfl, rfl, -⟩ | ⟨-, -, -, u, -, -, hdata, -, rfl⟩
    · rcases hres with ⟨-, rfl, -⟩ | ⟨u, fin, heq, -⟩ | ⟨u, fin, heq, -⟩
      · rfl
      · cases heq
      · cases heq
    · have ho : o = .polled (.ready u) := by
        rcases hres with ⟨heq, -⟩ | ⟨u', fin, heq, ho, -⟩ | ⟨u', fin, heq, ho, -⟩
        · cases heq
        · split at heq <;> cases heq
          exact ho
        · split at heq <;> cases heq
          exact ho
      rw [ho, emitted, if_pos rfl, Option.elim_some, hdata]

/-- Nothing waits in a stream that is started. -/
theorem Started.unsent {a : Action} {o : Output} (h : s.Started a o s') :
    (s'.state s.next).outbound.unsent = [] := by
  cases h with
  | opened ha ho hid hrole hids hstate =>
    rw [hstate]
    rfl
  | @accepted header data verdict c ha ho hrole hvacant hsyn hrec hs =>
    have hstate : s'.state s.next = c.state := by
      rw [hs]
      exact put_state_self _ _ _
    have hnew : ((s.accept header.id).ctx s.next).state = StreamState.new s.config :=
      Function.update_self _ _ _
    rw [hstate]
    rcases StreamCtx.received_waiting hrec with ⟨hsame, -⟩ | ⟨-, -, hclosed⟩
    · rw [(Prod.mk.inj hsame).1, hnew]
      rfl
    · exact OutboundTraffic.unsent_of_finReceived hclosed

/-- The abort closes a direction, or leaves it as it is. -/
theorem abort_outbound (s : Streams) (r : StreamRef) :
    (s.abort.state r).outbound = (s.state r).outbound ∨
      (s.abort.state r).outbound.finReceived = true := by
  refine foldl_abort_rel (R := fun c c' => c'.state.outbound = c.state.outbound ∨
    c'.state.outbound.finReceived = true) (fun _ => .inl rfl) ?_ (fun c => ?_)
    (fun c c' hstate _ => .inl (by rw [hstate])) s.handles s
  · rintro a b c hab (heq | hclosed)
    · rwa [heq]
    · exact .inr hclosed
  · exact .inr (OutboundTraffic.closeReadingSide_finReceived _ _ _)

/-- The abort closes every direction in which something waits. -/
theorem abort_finReceived (ht : s.Tables) (hr : r < s.next)
    (hwaits : (s.state r).outbound.unsent ≠ []) :
    (s.abort.state r).outbound.finReceived = true := by
  have hlive : ¬ s.Dead r := fun hd =>
    hwaits (OutboundTraffic.unsent_of_finSent (StreamState.isDead_iff.mp hd).1.2)
  refine foldl_abort_mem (P := fun state => state.outbound.finReceived = true)
    (fun _ => OutboundTraffic.closeReadingSide_finReceived _ _ _) s.handles s (.inr ?_)
  exact mem_handles_of_lookup (ht.listed r hr hlive)

end Streams

/-! ## The sink -/

/-- Whether an operation closes the sink. -/
def SinkOp.closes : SinkOp → Bool
  | .pollClose _ | .drop => true
  | _ => false

/-- Whether an operation offers something to the sink, or asks whether it may. -/
def SinkOp.offers : SinkOp → Bool
  | .pollReady _ | .startSend _ => true
  | _ => false

namespace Handles

/-- The bytes that a sink takes. -/
def taken : SinkOp → Answer → Bytes
  | .startSend item, .sent (.ok ()) => item
  | _, _ => []

/-- What an operation does to the sink and its direction. -/
structure Effect (op : SinkOp) (t : OutboundTraffic) (answer : Answer) (sink : Option RammuxSink)
    (t' : OutboundTraffic) : Prop where
  unsent : t'.unsent = t.unsent ++ taken op answer
  writing : t'.writing = (t.writing && !op.closes)
  took : taken op answer ≠ [] → t.writing = true
  /-- A sink forgets its stream when it is not writing any more, or was closed and flushed. -/
  forgets : ∀ x, sink = some x → x.shared = none →
    t'.writing = false ∧ (op.offers = false → t'.unsent = [])
  flushed : answer = .flushed (.ready (.ok ())) ∨ answer = .closed (.ready (.ok ())) →
    t'.unsent = []

variable {sink : RammuxSink} {r : StreamRef} {s : Streams}

/-- The direction that is put back is the direction of the stream. -/
theorem setOutbound_state (s : Streams) (r : StreamRef) (t : OutboundTraffic) (wk : Wakes) :
    ((s.setOutbound r t wk).state r).outbound = t := by
  rw [Streams.setOutbound, Streams.put_state_self]

/-- A sink that keeps its stream has not forgotten it. -/
theorem keeps_shared {P : Prop} (h : sink.shared = some r) :
    ∀ x, some sink = some x → x.shared = none → P := by
  rintro _ ⟨⟩ hnone
  cases h.symm.trans hnone

/-- The effect of an operation that takes nothing. -/
theorem Effect.of_taken_nil {op : SinkOp} {t t' : OutboundTraffic} {answer : Answer}
    {sink' : Option RammuxSink} (htaken : taken op answer = []) (hu : t'.unsent = t.unsent)
    (hw : t'.writing = (t.writing && !op.closes))
    (hforgets : ∀ x, sink' = some x → x.shared = none →
      t'.writing = false ∧ (op.offers = false → t'.unsent = []))
    (hflushed : answer = .flushed (.ready (.ok ())) ∨ answer = .closed (.ready (.ok ())) →
      t'.unsent = []) : Effect op t answer sink' t' where
  unsent := by rw [htaken, hu, List.append_nil]
  writing := hw
  took hne := absurd htaken hne
  forgets := hforgets
  flushed := hflushed

/-- The effect of `poll_ready`: only a direction that is closed makes the sink forget its stream. -/
theorem pollReady_effect (h : sink.shared = some r) (waker : Waker) :
    Effect (.pollReady waker) (s.state r).outbound (useSink sink (.pollReady waker) s).1
      (useSink sink (.pollReady waker) s).2.1
      ((useSink sink (.pollReady waker) s).2.2.state r).outbound := by
  obtain ⟨-, hu, hw, -⟩ := ((s.state r).outbound.pollWriteReady_rewaked waker).same
  have hwriting := hw.trans (Bool.and_true _).symm
  simp only [useSink, RammuxSink.pollReady, h]
  split
  · next e herr =>
    have hclosed := OutboundTraffic.not_writing_of_refused herr
    rw [setOutbound_state]
    exact .of_taken_nil rfl hu hwriting (fun _ _ _ => ⟨hw.trans hclosed, by simp [SinkOp.offers]⟩)
      (by simp)
  · rw [setOutbound_state]
    exact .of_taken_nil rfl hu hwriting (keeps_shared h) (by simp)

/-- The effect of `start_send`: it takes the item, or refuses it and leaves what waits. -/
theorem startSend_effect (h : sink.shared = some r) (item : Bytes) :
    Effect (.startSend item) (s.state r).outbound (useSink sink (.startSend item) s).1
      (useSink sink (.startSend item) s).2.1
      ((useSink sink (.startSend item) s).2.2.state r).outbound := by
  obtain ⟨hw, hres⟩ := (s.state r).outbound.write_unsent item r s.wakes
  have hwriting := hw.trans (Bool.and_true _).symm
  simp only [useSink, RammuxSink.startSend, h]
  split
  · next herr =>
    rw [herr] at hres
    rw [setOutbound_state]
    exact .of_taken_nil rfl hres.2 hwriting
      (fun _ _ _ => ⟨hw.trans hres.1, by simp [SinkOp.offers]⟩) (by simp)
  · next hkept =>
    rw [setOutbound_state]
    refine ⟨?_, hwriting, fun hne => ?_, keeps_shared h, by simp⟩
    · rcases hwrite : ((s.state r).outbound.write item r s.wakes).1 with (_ | _) | _
      · exact absurd hwrite hkept
      · rw [hwrite] at hres
        exact hres.trans (List.append_nil _).symm
      · rw [hwrite] at hres
        exact hres.2
    · rcases hwrite : ((s.state r).outbound.write item r s.wakes).1 with _ | _
      · rw [hwrite] at hne
        exact absurd rfl hne
      · rw [hwrite] at hres
        exact hres.1

/-- The effect of `poll_flush`: it succeeds when nothing waits. -/
theorem pollFlush_effect (h : sink.shared = some r) (waker : Waker) :
    Effect (.pollFlush waker) (s.state r).outbound (useSink sink (.pollFlush waker) s).1
      (useSink sink (.pollFlush waker) s).2.1
      ((useSink sink (.pollFlush waker) s).2.2.state r).outbound := by
  obtain ⟨-, hu, hw, -⟩ := ((s.state r).outbound.pollFlushed_rewaked waker).same
  have hwriting := hw.trans (Bool.and_true _).symm
  simp only [useSink, RammuxSink.pollFlush, h]
  split
  · rw [setOutbound_state]
    exact .of_taken_nil rfl hu hwriting (keeps_shared h) (by simp)
  · next hready =>
    rw [setOutbound_state]
    exact .of_taken_nil rfl hu hwriting (keeps_shared h)
      fun _ => hu.trans (OutboundTraffic.unsent_of_flushed hready)

/-- The effect of `poll_close`: the sink forgets its stream once nothing waits. -/
theorem pollClose_effect (h : sink.shared = some r) (waker : Waker) :
    Effect (.pollClose waker) (s.state r).outbound (useSink sink (.pollClose waker) s).1
      (useSink sink (.pollClose waker) s).2.1
      ((useSink sink (.pollClose waker) s).2.2.state r).outbound := by
  obtain ⟨hu₁, hw₁⟩ := (s.state r).outbound.closeWriting_unsent r s.wakes
  obtain ⟨-, hu, hw, -⟩ :=
    (((s.state r).outbound.closeWriting r s.wakes).1.pollFlushed_rewaked waker).same
  have hwriting := (hw.trans hw₁).trans (Bool.and_false (s.state r).outbound.writing).symm
  simp only [useSink, RammuxSink.pollClose, h]
  split
  · rw [setOutbound_state]
    exact .of_taken_nil rfl (hu.trans hu₁) hwriting (keeps_shared h) (by simp)
  · next hready =>
    have hempty := hu.trans (OutboundTraffic.unsent_of_flushed hready)
    rw [setOutbound_state]
    exact .of_taken_nil rfl (hu.trans hu₁) hwriting
      (fun _ _ _ => ⟨hw.trans hw₁, fun _ => hempty⟩) fun _ => hempty

/-- The effect of dropping the sink: the direction is closed, and what waits is kept. -/
theorem drop_effect (h : sink.shared = some r) :
    Effect .drop (s.state r).outbound (useSink sink .drop s).1 (useSink sink .drop s).2.1
      ((useSink sink .drop s).2.2.state r).outbound := by
  obtain ⟨hu, hw⟩ := (s.state r).outbound.closeWriting_unsent r s.wakes
  simp only [useSink, RammuxSink.drop, h]
  rw [setOutbound_state]
  exact .of_taken_nil rfl hu (hw.trans (Bool.and_false _).symm) (by simp) (by simp)

/-- What an operation does to the sink and its direction. -/
theorem useSink_effect (h : sink.shared = some r) (op : SinkOp) (s : Streams) :
    Effect op (s.state r).outbound (useSink sink op s).1 (useSink sink op s).2.1
      ((useSink sink op s).2.2.state r).outbound := by
  cases op with
  | pollReady waker => exact pollReady_effect h waker
  | startSend item => exact startSend_effect h item
  | pollFlush waker => exact pollFlush_effect h waker
  | pollClose waker => exact pollClose_effect h waker
  | drop => exact drop_effect h

/-- A sink is nothing to the other streams. -/
theorem useSink_other (h : sink.shared = none ∨ sink.shared = some r) (op : SinkOp) (s : Streams)
    {r' : StreamRef} (hne : r' ≠ r) : (useSink sink op s).2.2.state r' = s.state r' := by
  rcases useSink_streams sink op s with heq | ⟨r₀, t, wk, hr₀, heq⟩
  · rw [heq]
  · rcases h with h | h
    · cases h.symm.trans hr₀
    · obtain rfl := Option.some.inj (h.symm.trans hr₀)
      rw [heq]
      exact Streams.put_state_of_ne _ _ hne

/-! ## Steps -/

/-- A step, with the states around it. -/
abbrev Step := Lib.Machine.Taken Handles Action Answer

/-- The sending direction of a stream. -/
def outbound (h : Handles) (r : StreamRef) : OutboundTraffic :=
  (h.endpoint.streams.state r).outbound

/-- The bytes that the sink of a stream takes in a step. -/
def accepted (r : StreamRef) (t : Step) : Bytes :=
  match t.action with
  | .sink r' op => if r' = r then taken op t.answer else []
  | _ => []

/-- The bytes that the task of a stream yields in a step. -/
def yielded (r : StreamRef) (t : Step) : Bytes :=
  match t.action, t.answer with
  | .conn (.act a), .conn o => (Streams.emitted r (a, o)).elim [] StreamUpdate.data
  | _, _ => []

/-- The application still has the sink of a stream, and some of what the sink took waits. -/
def Waiting (r : StreamRef) (h : Handles) : Prop :=
  r < h.endpoint.streams.next ∧ h.sinks r ≠ none ∧ (h.outbound r).unsent ≠ []

/-- What waits in a stream is discarded: the peer stops reading, or the connection goes. -/
def Discards (r : StreamRef) (h : Handles) (a : Action) : Prop :=
  h.endpoint.gone = false ∧
    (a = .conn .abort ∨ ∃ b, a = .conn (.act b) ∧ h.endpoint.streams.StopsReading r b)

/-- The application offers something to the sink of a stream after the direction was closed. -/
def OffersLate (r : StreamRef) (h : Handles) (a : Action) : Prop :=
  ∃ op, a = .sink r op ∧ op.offers = true ∧ (h.outbound r).writing = false

/-- After this step the sink does not know what became of the bytes that waited. -/
def Loses (r : StreamRef) (t : Step) : Prop :=
  Waiting r t.source ∧ (Discards r t.source t.action ∨ OffersLate r t.source t.action)

/-- What a step does to the sink and the sending direction of a stream. -/
inductive Move (r : StreamRef) (t : Step) : Prop where
  /-- The task may yield some of what waits. A sink that the application has was there before, and
  is not the first to forget its stream. -/
  | yields (hacc : accepted r t = [])
      (hunsent : (t.source.outbound r).unsent = yielded r t ++ (t.target.outbound r).unsent)
      (hwriting : (t.target.outbound r).writing = (t.source.outbound r).writing)
      (hsink : ∀ x, t.target.sinks r = some x → ∃ y, t.source.sinks r = some y ∧
        (x.shared = none → y.shared = none))
  /-- What waits is discarded. -/
  | discards (hcut : Discards r t.source t.action) (hacc : accepted r t = [])
      (hyield : yielded r t = []) (hclosed : (t.target.outbound r).finReceived = true)
      (hsink : t.target.sinks r = t.source.sinks r)
  /-- The sink is used. -/
  | uses {op : SinkOp} (ha : t.action = .sink r op) (hheld : t.source.sinks r ≠ none)
      (hyield : yielded r t = [])
      (h : Effect op (t.source.outbound r) t.answer (t.target.sinks r) (t.target.outbound r))

/-- A step that changes nothing for the stream. -/
theorem Move.other {t : Step} (hacc : accepted r t = []) (hyield : yielded r t = [])
    (hsame : t.target.outbound r = t.source.outbound r)
    (hsink : t.target.sinks r = t.source.sinks r) : Move r t := by
  refine .yields hacc (by rw [hyield, hsame]; rfl) (by rw [hsame]) fun x hx => ?_
  rw [hsink] at hx
  exact ⟨x, hx, id⟩

/-- Using a stream half is nothing to the sinks. -/
theorem useStream_outbound {stream : RammuxStream} {op : StreamOp} {answer : Answer}
    {half : Option RammuxStream} {s s' : Streams}
    (h : useStream stream op s = .ok (answer, half, s'))
    (r : StreamRef) : (s'.state r).outbound = (s.state r).outbound := by
  rcases useStream_streams h with rfl | ⟨r', t, wk, rfl⟩
  · rfl
  · by_cases heq : r = r'
    · subst heq
      rw [Streams.setInbound, Streams.put_state_self]
    · rw [Streams.setInbound, Streams.put_state_of_ne _ _ heq]

/-- A sink that has forgotten its stream takes nothing. -/
theorem taken_none (h : sink.shared = none) (op : SinkOp) (s : Streams) :
    taken op (useSink sink op s).1 = [] := by
  cases op with
  | startSend item => simp only [useSink, RammuxSink.startSend, h, taken]
  | _ => rfl

/-- What a step does to the sink and the sending direction of a stream that there is. -/
theorem step_move {h h' : Handles} {a : Action} {o : Answer} (howned : h.Owned)
    (hstep : h.step a = .ok (o, h')) (hr : r < h.endpoint.streams.next) : Move r ⟨h, a, o, h'⟩ := by
  rcases step_cases hstep with ⟨b, o', e', rfl, hnot, rfl, he, rfl⟩ |
    ⟨r', op, sink, rfl, hr', hsink, rfl, rfl⟩ | ⟨r', op, stream, half, s', rfl, -, -, huse, rfl⟩ |
    ⟨rfl, rfl⟩
  · -- The connection, or the peer through it.
    rcases Endpoint.step_cases he with ⟨c, s', rfl, hcan, hc, rfl⟩ | ⟨rfl, rfl, halive, rfl⟩ |
      ⟨rfl, rfl, -⟩
    · rcases Streams.step_unsent hc hr fun op heq => hnot r op (by rw [heq]) with ⟨hu, hw, -⟩ |
        ⟨hnone, hstop, hclosed⟩
      · exact .yields rfl hu hw fun x hx => ⟨x, hx, id⟩
      · have halive : h.endpoint.gone = false := by
          obtain ⟨header, data, -, -, rfl, -⟩ := hstop
          simpa [Endpoint.canAct] using hcan
        exact .discards ⟨halive, .inr ⟨c, rfl, hstop⟩⟩ rfl (by simp only [yielded, hnone]; rfl)
          hclosed rfl
    · rcases h.endpoint.streams.abort_outbound r with heq | hclosed
      · exact .other rfl rfl heq rfl
      · exact .discards ⟨halive, .inl rfl⟩ rfl rfl hclosed rfl
    · refine .other rfl ?_ rfl rfl
      cases b with
      | act c => cases c <;> rfl
      | abort => rfl
  · -- The sink of a stream, of this one or of another.
    by_cases heq : r = r'
    · subst heq
      rcases howned.sink r sink hsink with hnone | hsome
      · obtain ⟨hsame, hforgot⟩ := useSink_none hnone op h.endpoint.streams
        refine .yields ?_ ?_ ?_ fun _ _ => ⟨sink, hsink, fun _ => hnone⟩
        · exact (if_pos rfl).trans (taken_none hnone op _)
        · simp only [outbound, yielded, hsame, List.nil_append]
        · simp only [outbound, hsame]
      · refine .uses rfl (by rw [hsink]; simp) rfl ?_
        have heffect := useSink_effect hsome op h.endpoint.streams
        simp only [outbound, Function.update_self]
        exact heffect
    · have hsame := useSink_other (howned.sink r' sink hsink) op h.endpoint.streams heq
      refine .other ?_ rfl ?_ ?_
      · exact if_neg fun h => heq h.symm
      · simp only [outbound, hsame]
      · exact Function.update_of_ne heq _ _
  · -- The reading half has no part in it.
    exact .other rfl rfl (useStream_outbound huse r) rfl
  · -- There was no such handle.
    refine .other ?_ ?_ rfl rfl
    · unfold accepted
      split
      · next r' op _ => cases op <;> simp [taken]
      · rfl
    · unfold yielded
      split
      · next heq => cases heq
      · rfl

/-! ## Whole runs -/

/-- Where the bytes are that the sink of a stream took, while none were lost. -/
structure Sent (r : StreamRef) (steps : List Step) (h : Handles) : Prop where
  /-- They were yielded, or wait. -/
  told : h.sinks r ≠ none →
    steps.flatMap (accepted r) = steps.flatMap (yielded r) ++ (h.outbound r).unsent
  /-- A sink that has forgotten its stream left nothing behind. -/
  forgotten : ∀ sink, h.sinks r = some sink → sink.shared = none →
    (h.outbound r).unsent = [] ∧ (h.outbound r).writing = false

/-- It stays so when the task yields. -/
theorem Sent.yields {steps : List Step} {t : Step} (h : Sent r steps t.source)
    (hacc : accepted r t = [])
    (hunsent : (t.source.outbound r).unsent = yielded r t ++ (t.target.outbound r).unsent)
    (hwriting : (t.target.outbound r).writing = (t.source.outbound r).writing)
    (hsink : ∀ x, t.target.sinks r = some x → ∃ y, t.source.sinks r = some y ∧
      (x.shared = none → y.shared = none)) : Sent r (steps ++ [t]) t.target := by
  refine ⟨fun hheld => ?_, fun x hx hnone => ?_⟩
  · obtain ⟨x, hx⟩ := Option.ne_none_iff_exists'.mp hheld
    obtain ⟨y, hy, -⟩ := hsink x hx
    refine Lib.flatMap_concat_eq (h.told (by rw [hy]; simp)) ?_
    rw [hacc, List.append_nil, hunsent]
  · obtain ⟨y, hy, hforgot⟩ := hsink x hx
    obtain ⟨hu, hw⟩ := h.forgotten y hy (hforgot hnone)
    exact ⟨(List.append_eq_nil_iff.mp (hunsent.symm.trans hu)).2, hwriting.trans hw⟩

/-- It stays so when the direction is closed and nothing waits. -/
theorem Sent.discards {steps : List Step} {t : Step} (h : Sent r steps t.source)
    (hr : r < t.source.endpoint.streams.next) (hkeeps : ¬ Loses r t)
    (hcut : Discards r t.source t.action) (hacc : accepted r t = [])
    (hyield : yielded r t = []) (hclosed : (t.target.outbound r).finReceived = true)
    (hsink : t.target.sinks r = t.source.sinks r) : Sent r (steps ++ [t]) t.target := by
  have hempty := OutboundTraffic.unsent_of_finReceived hclosed
  refine ⟨fun hheld => ?_,
    fun _ _ _ => ⟨hempty, OutboundTraffic.not_writing_of_finReceived hclosed⟩⟩
  rw [hsink] at hheld
  refine Lib.flatMap_concat_eq (h.told hheld) ?_
  -- Otherwise the step would lose what waits.
  have hnothing : (t.source.outbound r).unsent = [] := by
    by_contra hwaits
    exact hkeeps ⟨⟨hr, hheld, hwaits⟩, .inl hcut⟩
  rw [hnothing, hacc, hyield, hempty]

/-- It stays so when the sink is used, and does not forget what waits. -/
theorem Sent.uses {steps : List Step} {t : Step} {op : SinkOp} (h : Sent r steps t.source)
    (hr : r < t.source.endpoint.streams.next) (hkeeps : ¬ Loses r t) (ha : t.action = .sink r op)
    (hheld : t.source.sinks r ≠ none)
    (hyield : yielded r t = [])
    (he : Effect op (t.source.outbound r) t.answer (t.target.sinks r) (t.target.outbound r)) :
    Sent r (steps ++ [t]) t.target := by
  have hacc : accepted r t = taken op t.answer := by
    rw [accepted, ha]
    exact if_pos rfl
  refine ⟨fun _ => Lib.flatMap_concat_eq (h.told hheld) ?_, fun x hx hnone => ?_⟩
  · rw [hacc, hyield, he.unsent, List.nil_append]
  · obtain ⟨hw, hu⟩ := he.forgets x hx hnone
    refine ⟨?_, hw⟩
    cases hoffers : op.offers with
    | false => exact hu hoffers
    | true =>
      -- A sink that refuses what it is offered was closed, so nothing may wait.
      have hcloses : op.closes = false := by
        cases op <;> first | rfl | cases hoffers
      have hclosed : (t.source.outbound r).writing = false := by
        have hwriting := he.writing
        rw [hw, hcloses, Bool.not_false, Bool.and_true] at hwriting
        exact hwriting.symm
      have hnothing : (t.source.outbound r).unsent = [] := by
        by_contra hwaits
        exact hkeeps ⟨⟨hr, hheld, hwaits⟩, .inr ⟨op, ha, hoffers, hclosed⟩⟩
      have htaken : taken op t.answer = [] := by
        by_contra hne
        exact Bool.noConfusion (hclosed.symm.trans (he.took hne))
      rw [he.unsent, hnothing, htaken]
      rfl

/-- Every step keeps it that loses nothing. -/
theorem Sent.move {steps : List Step} {t : Step} (h : Sent r steps t.source)
    (hr : r < t.source.endpoint.streams.next) (hm : Move r t) (hkeeps : ¬ Loses r t) :
    Sent r (steps ++ [t]) t.target := by
  cases hm with
  | yields hacc hunsent hwriting hsink => exact h.yields hacc hunsent hwriting hsink
  | discards hcut hacc hyield hclosed hsink =>
    exact h.discards hr hkeeps hcut hacc hyield hclosed hsink
  | uses ha hheld hyield he => exact h.uses hr hkeeps ha hheld hyield he

/-- A step about a stream that there is not does nothing. -/
theorem step_fresh {h h' : Handles} {a : Action} {o : Answer}
    (ht : h.endpoint.gone = false → h.endpoint.streams.Tables) (hstep : h.step a = .ok (o, h'))
    (hr : h.endpoint.streams.next ≤ r) : accepted r ⟨h, a, o, h'⟩ = [] ∧
      yielded r ⟨h, a, o, h'⟩ = [] ∧ h'.sinks r = h.sinks r := by
  rcases step_cases hstep with ⟨b, o', e', rfl, -, rfl, he, rfl⟩ |
    ⟨r', op, sink, rfl, hr', -, rfl, rfl⟩ | ⟨r', op, stream, half, s', rfl, -, -, -, rfl⟩ |
    ⟨rfl, rfl⟩
  · refine ⟨rfl, ?_, rfl⟩
    cases b with
    | abort => rfl
    | act c =>
      have hnone : Streams.emitted r (c, o') = none := by
        rcases Endpoint.step_cases he with ⟨_, s', ⟨⟩, hcan, hc, -⟩ | ⟨hb, -⟩ | ⟨rfl, -, -⟩
        · cases c with
          | poll r' allowance =>
            exact Streams.emitted_eq_none hc (ht (by simpa [Endpoint.canAct] using hcan)) hr
          | _ => rfl
        · cases hb
        · cases c <;> rfl
      simp only [yielded, hnone]
      rfl
  · have hne : r ≠ r' := (hr'.trans_le hr).ne'
    exact ⟨if_neg fun heq => hne heq.symm, rfl, Function.update_of_ne hne _ _⟩
  · exact ⟨rfl, rfl, rfl⟩
  · refine ⟨?_, ?_, rfl⟩
    · unfold accepted
      split
      · next r' op _ => cases op <;> simp [taken]
      · rfl
    · unfold yielded
      split
      · next heq => cases heq
      · rfl

/-- A step starts no stream, or one in which nothing waits. -/
theorem step_next {h h' : Handles} {a : Action} {o : Answer} (hstep : h.step a = .ok (o, h')) :
    h'.endpoint.streams.next = h.endpoint.streams.next ∨
      (h'.endpoint.streams.next = h.endpoint.streams.next + 1 ∧
        (h'.outbound h.endpoint.streams.next).unsent = []) := by
  rcases step_cases hstep with ⟨b, o', e', rfl, -, rfl, he, rfl⟩ |
    ⟨r, op, sink, rfl, -, -, rfl, rfl⟩ | ⟨r, op, stream, half, s', rfl, -, -, huse, rfl⟩ | ⟨-, rfl⟩
  · rcases Endpoint.step_cases he with ⟨c, s', rfl, -, hc, rfl⟩ | ⟨-, -, -, rfl⟩ | ⟨-, rfl, -⟩
    · rcases Streams.step_next hc with hnext | ⟨hnext, hstarted⟩
      · exact .inl hnext
      · exact .inr ⟨hnext, hstarted.unsent⟩
    · exact .inl h.endpoint.streams.abort_names.1
    · exact .inl rfl
  · left
    rcases useSink_streams sink op h.endpoint.streams with heq | ⟨r₀, t, wk, -, heq⟩
    · exact congrArg Streams.next heq
    · exact (congrArg Streams.next heq).trans rfl
  · left
    rcases useStream_streams huse with rfl | ⟨r₀, t, wk, rfl⟩ <;> rfl
  · exact .inl rfl

/-- What holds in every run. -/
structure Inv (role : RammuxRole) (config : RammuxConfig) (steps : List Step) (h : Handles) :
    Prop where
  owned : h.Owned
  path : ∃ steps, (Endpoint.machine role config).Path (Endpoint.machine role config).init steps
    h.endpoint
  sent : ∀ r < h.endpoint.streams.next, (∀ t ∈ steps, ¬ Loses r t) → Sent r steps h
  fresh : ∀ r, h.endpoint.streams.next ≤ r → steps.flatMap (accepted r) = [] ∧
    steps.flatMap (yielded r) = [] ∧ h.sinks r = some ⟨some r⟩

variable {role : RammuxRole} {config : RammuxConfig} {steps : List Step} {h h' : Handles}

/-- Every step keeps the invariant. -/
theorem Inv.step {a : Action} {o : Answer} (hi : Inv role config steps h)
    (hstep : h.step a = .ok (o, h')) : Inv role config (steps ++ [⟨h, a, o, h'⟩]) h' := by
  obtain ⟨before, hbefore⟩ := hi.path
  obtain ⟨howned, more, hmore⟩ := step_path hi.owned hstep
  have htables := fun halive => (Endpoint.leaves_of_path hbefore halive).tables
  have hflat (f : Step → Bytes) (t : Step) : (steps ++ [t]).flatMap f = steps.flatMap f ++ f t := by
    rw [List.flatMap_append, List.flatMap_singleton]
  -- Nothing was taken or yielded for a stream that there was not before the step.
  have hfresh : ∀ r, h.endpoint.streams.next ≤ r →
      (steps ++ [(⟨h, a, o, h'⟩ : Step)]).flatMap (accepted r) = [] ∧
        (steps ++ [(⟨h, a, o, h'⟩ : Step)]).flatMap (yielded r) = [] ∧
        h'.sinks r = some ⟨some r⟩ := by
    intro r hr
    obtain ⟨hacc, hyield, hsink⟩ := hi.fresh r hr
    obtain ⟨hacc', hyield', hsink'⟩ := step_fresh htables hstep hr
    rw [hflat, hflat, hacc, hyield, hacc', hyield', hsink', hsink]
    exact ⟨rfl, rfl, rfl⟩
  refine ⟨howned, ⟨_, hbefore.trans hmore⟩, fun r hr hkeeps => ?_, fun r hr => hfresh r ?_⟩
  · by_cases hold : r < h.endpoint.streams.next
    · have hsent := hi.sent r hold fun t ht => hkeeps t (List.mem_append_left _ ht)
      exact hsent.move hold (step_move hi.owned hstep hold) (hkeeps _ (by simp))
    · obtain ⟨hacc, hyield, hsink⟩ := hfresh r (Nat.le_of_not_lt hold)
      have hempty : (h'.outbound r).unsent = [] := by
        rcases step_next hstep with hnext | ⟨hnext, hempty⟩
        · exact absurd (hnext ▸ hr) hold
        · rw [hnext] at hr
          obtain rfl : r = h.endpoint.streams.next :=
            Nat.le_antisymm (Nat.le_of_lt_succ hr) (Nat.le_of_not_lt hold)
          exact hempty
      refine ⟨fun _ => by rw [hacc, hyield, hempty]; rfl, fun x hx hnone => ?_⟩
      rw [hsink] at hx
      cases hx
      cases hnone
  · rcases step_next hstep with hnext | ⟨hnext, -⟩
    · exact hnext ▸ hr
    · rw [hnext] at hr
      exact (Nat.le_succ _).trans hr

/-- The invariant holds after every path. -/
theorem inv_of_path (hpath : (machine role config).Path (machine role config).init steps h) :
    Inv role config steps h := by
  refine Lib.Machine.Path.invariant (I := Inv role config) (fun _ _ _ _ _ hi hstep => hi.step hstep)
    hpath [] ?_
  obtain ⟨howned, hinit⟩ := endpoint_of_path (.nil (machine role config).init)
  exact ⟨howned, hinit, fun r hr => absurd hr (Nat.not_lt_zero _), fun r _ => ⟨rfl, rfl, rfl⟩⟩

/-- An answer comes from the sink. -/
theorem step_sink {op : SinkOp} {o : Answer} (hstep : h.step (.sink r op) = .ok (o, h'))
    (ho : o ≠ .none) : ∃ sink, r < h.endpoint.streams.next ∧ h.sinks r = some sink ∧
      o = (useSink sink op h.endpoint.streams).1 := by
  rcases step_cases hstep with ⟨b, o', e', ha, -⟩ | ⟨r', op', sink, ha, hr, hsink, hanswer, -⟩ |
    ⟨r', op', stream, half, s', ha, -⟩ | ⟨hnone, -⟩
  · cases ha
  · cases ha
    exact ⟨sink, hr, hsink, hanswer⟩
  · cases ha
  · exact absurd hnone ho

/-- A flush or a close that succeeds after these steps tells the truth: what the sink took was
yielded by the task, in order. -/
def TellsTruth (r : StreamRef) (steps : List Step) (h : Handles) : Prop :=
  ∀ w h', (h.step (.sink r (.pollFlush w)) = .ok (.flushed (.ready (.ok ())), h') ∨
      h.step (.sink r (.pollClose w)) = .ok (.closed (.ready (.ok ())), h')) →
    steps.flatMap (yielded r) = steps.flatMap (accepted r)

/-- A flush or a close that succeeds finds nothing that waits, if nothing was lost. -/
theorem told_of_flush {op : SinkOp} {o : Answer} (hi : Inv role config steps h)
    (hkeeps : ∀ t ∈ steps, ¬ Loses r t) (hstep : h.step (.sink r op) = .ok (o, h'))
    (ho : o = .flushed (.ready (.ok ())) ∨ o = .closed (.ready (.ok ()))) :
    steps.flatMap (yielded r) = steps.flatMap (accepted r) := by
  have hanswered : o ≠ .none := by
    rintro rfl
    rcases ho with ho | ho <;> cases ho
  obtain ⟨sink, hr, hsink, rfl⟩ := step_sink hstep hanswered
  have hsent := hi.sent r hr hkeeps
  have hempty : (h.outbound r).unsent = [] := by
    rcases hi.owned.sink r sink hsink with hnone | hsome
    · exact (hsent.forgotten sink hsink hnone).1
    · have he := useSink_effect hsome op h.endpoint.streams
      exact (List.append_eq_nil_iff.mp (he.unsent.symm.trans (he.flushed ho))).1
  have htold := hsent.told (by rw [hsink]; simp)
  rw [htold, hempty, List.append_nil]

/-- A flush succeeds when the sink has forgotten its stream, or the direction was closed from the
other side. -/
theorem flush_succeeds (howned : h.Owned) (hr : r < h.endpoint.streams.next)
    (hsink : h.sinks r = some sink)
    (hready : sink.shared = none ∨ (h.outbound r).finReceived = true) (w : Waker) :
    ∃ h', h.step (.sink r (.pollFlush w)) = .ok (.flushed (.ready (.ok ())), h') := by
  have hanswer : (useSink sink (.pollFlush w) h.endpoint.streams).1 =
      .flushed (.ready (.ok ())) := by
    rcases howned.sink r sink hsink with hnone | hsome
    · simp only [useSink, RammuxSink.pollFlush, hnone]
    · have hclosed := hready.resolve_left (by rw [hsome]; simp)
      have hflushed := OutboundTraffic.flushed_of_finReceived hclosed w
      rw [outbound] at hflushed
      simp only [useSink, RammuxSink.pollFlush, hsome, hflushed]
  simp only [step, if_pos hr, hsink, hanswer]
  exact ⟨_, rfl⟩

/-- A sink that refuses what it is offered has forgotten its stream. -/
theorem useSink_refused {op : SinkOp} (howned : sink.shared = none ∨ sink.shared = some r)
    (hoffers : op.offers = true) (hclosed : (s.state r).outbound.writing = false) :
    ∃ x, (useSink sink op s).2.1 = some x ∧ x.shared = none := by
  rcases howned with hnone | hsome
  · have hforgot := (useSink_none hnone op s).2
    cases op with
    | pollReady waker => exact ⟨_, rfl, hforgot _ rfl⟩
    | startSend item => exact ⟨_, rfl, hforgot _ rfl⟩
    | _ => cases hoffers
  · cases op with
    | pollReady waker =>
      have hrefused := OutboundTraffic.pollWriteReady_of_not_writing hclosed waker
      simp [useSink, RammuxSink.pollReady, hsome, hrefused]
    | startSend item =>
      have hrefused := OutboundTraffic.write_of_not_writing hclosed item r s.wakes
      simp [useSink, RammuxSink.startSend, hsome, hrefused]
    | _ => cases hoffers

/-- The sink is there, and does not know what became of what it took. -/
def Unaware (r : StreamRef) (h : Handles) : Prop :=
  ∃ sink, h.sinks r = some sink ∧ (sink.shared = none ∨ (h.outbound r).finReceived = true)

/-- What waits is discarded: nothing is taken or yielded, and the direction is closed. -/
theorem Discards.effect {a : Action} {o : Answer}
    (ht : h.endpoint.gone = false → h.endpoint.streams.Tables) (hstep : h.step a = .ok (o, h'))
    (hwaiting : Waiting r h) (hcut : Discards r h a) :
    accepted r ⟨h, a, o, h'⟩ = [] ∧ yielded r ⟨h, a, o, h'⟩ = [] ∧ Unaware r h' := by
  obtain ⟨hr, hheld, hwaits⟩ := hwaiting
  obtain ⟨sink, hsink⟩ := Option.ne_none_iff_exists'.mp hheld
  obtain ⟨halive, rfl | ⟨b, rfl, hstop⟩⟩ := hcut
  · obtain ⟨⟨o', e'⟩, he, h⟩ := Lib.bind_eq_ok.mp hstep
    cases h
    rw [Endpoint.step, halive, if_neg Bool.false_ne_true] at he
    cases he
    exact ⟨rfl, rfl, sink, hsink, .inr (Streams.abort_finReceived (ht halive) hr hwaits)⟩
  · have hreceives : ∃ header data, b = .receive header data := by
      obtain ⟨header, data, -, -, hb, -⟩ := hstop
      exact ⟨header, data, hb⟩
    obtain ⟨header, data, rfl⟩ := hreceives
    obtain ⟨⟨o', e'⟩, he, h⟩ := Lib.bind_eq_ok.mp hstep
    cases h
    rw [Endpoint.step, if_pos (by simp [Endpoint.canAct, halive])] at he
    obtain ⟨⟨o', s'⟩, hc, he⟩ := Lib.bind_eq_ok.mp he
    cases he
    rcases Streams.step_unsent hc hr (by simp) with ⟨-, -, hnot⟩ | ⟨hnone, -, hclosed⟩
    · exact absurd hstop hnot
    · exact ⟨rfl, by simp only [yielded, hnone]; rfl, sink, hsink, .inr hclosed⟩

/-- Something is offered to a sink that was closed: it takes nothing, and forgets its stream. -/
theorem OffersLate.effect {a : Action} {o : Answer} (howned : h.Owned)
    (hstep : h.step a = .ok (o, h')) (hwaiting : Waiting r h) (hlate : OffersLate r h a) :
    accepted r ⟨h, a, o, h'⟩ = [] ∧ yielded r ⟨h, a, o, h'⟩ = [] ∧ Unaware r h' := by
  obtain ⟨hr, hheld, -⟩ := hwaiting
  obtain ⟨sink, hsink⟩ := Option.ne_none_iff_exists'.mp hheld
  obtain ⟨op, rfl, hoffers, hclosed⟩ := hlate
  simp only [step, if_pos hr, hsink] at hstep
  cases hstep
  obtain ⟨x, hx, hnone⟩ := useSink_refused (howned.sink r sink hsink) hoffers hclosed
  refine ⟨(if_pos rfl).trans ?_, rfl, x, (Function.update_self _ _ _).trans hx, .inl hnone⟩
  rcases howned.sink r sink hsink with hnone | hsome
  · exact taken_none hnone op _
  · by_contra hne
    exact Bool.noConfusion (hclosed.symm.trans ((useSink_effect hsome op _).took hne))

/-- After a step that loses what waits, the next flush does not tell the truth. -/
theorem Loses.not_tellsTruth {a : Action} {o : Answer} (hi : Inv role config steps h)
    (hkeeps : ∀ t ∈ steps, ¬ Loses r t) (hstep : h.step a = .ok (o, h'))
    (hloses : Loses r ⟨h, a, o, h'⟩) : ¬ TellsTruth r (steps ++ [⟨h, a, o, h'⟩]) h' := by
  obtain ⟨hwaiting, hloses⟩ := hloses
  obtain ⟨hr, hheld, hwaits⟩ := id hwaiting
  obtain ⟨before, hbefore⟩ := hi.path
  have htables := fun halive => (Endpoint.leaves_of_path hbefore halive).tables
  obtain ⟨hacc, hyield, sink, hsink, hready⟩ := hloses.elim
    (Discards.effect htables hstep hwaiting) (OffersLate.effect hi.owned hstep hwaiting)
  have hr' : r < h'.endpoint.streams.next := by
    rcases step_next hstep with hnext | ⟨hnext, -⟩
    · rwa [hnext]
    · rw [hnext]
      exact hr.trans (Nat.lt_succ_self _)
  obtain ⟨h'', hflush⟩ := flush_succeeds (hi.step hstep).owned hr' hsink hready 0
  intro htruth
  -- What waited before the step was taken, and is still not yielded.
  have htold := Lib.flatMap_concat_eq ((hi.sent r hr hkeeps).told hheld)
    (show _ ++ accepted r ⟨h, a, o, h'⟩ = yielded r ⟨h, a, o, h'⟩ ++ (h.outbound r).unsent by
      rw [hacc, hyield, List.append_nil, List.nil_append])
  rw [← htruth 0 h'' (.inl hflush)] at htold
  exact hwaits (List.self_eq_append_right.mp htold)

/-- A run in which nothing is lost is one in which every flush and every close tells the truth,
after each of its steps. -/
theorem flush_tells (hpath : (machine role config).Path (machine role config).init steps h) :
    (∀ t ∈ steps, ¬ Loses r t) ↔ ∀ before after h₁, steps = before ++ after →
      (machine role config).Path (machine role config).init before h₁ → TellsTruth r before h₁ := by
  constructor
  · rintro hkeeps before after h₁ rfl hbefore w h' hflush
    have hi := inv_of_path hbefore
    have hkeeps' : ∀ t ∈ before, ¬ Loses r t := fun t ht => hkeeps t (List.mem_append_left _ ht)
    rcases hflush with hflush | hflush
    · exact told_of_flush hi hkeeps' hflush (.inl rfl)
    · exact told_of_flush hi hkeeps' hflush (.inr rfl)
  · intro htruth
    -- By induction on the steps before: the first step that loses something would be found out.
    suffices hprefix : ∀ before after, steps = before ++ after → ∀ t ∈ before, ¬ Loses r t from
      hprefix steps [] (List.append_nil _).symm
    intro before
    induction before using List.reverseRecOn with
    | nil => exact fun _ _ t ht => absurd ht List.not_mem_nil
    | append_singleton before t ih =>
      intro after hsteps t' ht'
      rw [List.append_assoc, List.singleton_append] at hsteps
      have hkeeps := ih _ hsteps
      rcases List.mem_append.mp ht' with ht' | ht'
      · exact hkeeps t' ht'
      obtain rfl := List.mem_singleton.mp ht'
      rw [hsteps] at hpath
      obtain ⟨hbefore, hstep, -⟩ := hpath.split
      intro hloses
      refine Loses.not_tellsTruth (inv_of_path hbefore) hkeeps hstep hloses ?_
      exact htruth _ after _ (by rw [hsteps, List.append_assoc]; rfl)
        (hbefore.trans (.cons hstep (.nil _)))

/-- The sink takes a byte, the task yields it, and the flush succeeds. -/
theorem flush_tells_yielded : ∃ steps h,
    (machine .client Streams.tightConfig).Path (machine .client Streams.tightConfig).init steps h ∧
    (∃ h', h.step (.sink 0 (.pollFlush 0)) = .ok (.flushed (.ready (.ok ())), h')) ∧
    steps.flatMap (accepted 0) = [1] ∧ steps.flatMap (yielded 0) = [1] ∧
    (∀ t ∈ steps, ¬ Loses 0 t) ∧ TellsTruth 0 steps h := by
  have hpath : (machine .client Streams.tightConfig).Path
      (machine .client Streams.tightConfig).init _ _ :=
    .cons (a := .conn (.act (.open 0))) rfl
      (.cons (a := .sink 0 (.startSend [1])) (by with_unfolding_all rfl)
      (.cons (a := .conn (.act (.poll 0 0))) (by with_unfolding_all rfl) (.nil _)))
  refine ⟨_, _, hpath, ⟨_, by with_unfolding_all rfl⟩, by decide +kernel, by decide +kernel, ?_⟩
  -- No frame arrives, the connection stays, and the sink is open when it takes the byte.
  refine (and_iff_left_of_imp fun hkeeps =>
    (flush_tells hpath).mp hkeeps _ [] _ (List.append_nil _).symm hpath).mpr ?_
  refine List.forall_mem_cons.mpr ⟨?_, List.forall_mem_cons.mpr ⟨?_,
    List.forall_mem_cons.mpr ⟨?_, List.forall_mem_nil _⟩⟩⟩
  · rintro ⟨-, ⟨-, ha | ⟨b, ⟨⟩, header, data, -, -, hb, -⟩⟩ | ⟨op, ha, -⟩⟩
    · cases ha
    · cases hb
    · cases ha
  · rintro ⟨-, ⟨-, ha | ⟨b, ha, -⟩⟩ | ⟨op, -, -, hw⟩⟩
    · cases ha
    · cases ha
    · exact absurd hw (by decide +kernel)
  · rintro ⟨-, ⟨-, ha | ⟨b, ⟨⟩, header, data, -, -, hb, -⟩⟩ | ⟨op, ha, -⟩⟩
    · cases ha
    · cases hb
    · cases ha

/-- The sink takes a byte, and the peer sends `FIN_READ` before the task is polled: the byte is
discarded, and the flush succeeds. Or the sink takes a byte and is closed, which waits for the byte;
it is then asked whether it is ready, and forgets its stream: the byte still waits, and the flush
succeeds. -/
theorem flush_cut_off :
    (∃ steps h h', (machine .client Streams.tightConfig).Path
        (machine .client Streams.tightConfig).init steps h ∧
      h.step (.sink 0 (.pollFlush 0)) = .ok (.flushed (.ready (.ok ())), h') ∧
      steps.flatMap (accepted 0) = [1] ∧ steps.flatMap (yielded 0) = [] ∧
      (h.outbound 0).unsent = []) ∧
    ∃ steps h h', (machine .client Streams.tightConfig).Path
        (machine .client Streams.tightConfig).init steps h ∧
      h.step (.sink 0 (.pollFlush 0)) = .ok (.flushed (.ready (.ok ())), h') ∧
      steps.flatMap (accepted 0) = [1] ∧ steps.flatMap (yielded 0) = [] ∧
      (h.outbound 0).unsent = [1] := by
  have hdiscarded : (machine .client Streams.tightConfig).Path
      (machine .client Streams.tightConfig).init _ _ :=
    .cons (a := .conn (.act (.open 0))) rfl
      (.cons (a := .sink 0 (.startSend [1])) (by with_unfolding_all rfl)
      (.cons (a := .conn (.act (.receive ⟨⟨0⟩, { finRead := true }, none, none⟩ [])))
        (by with_unfolding_all rfl) (.nil _)))
  have hforgotten : (machine .client Streams.tightConfig).Path
      (machine .client Streams.tightConfig).init _ _ :=
    .cons (a := .conn (.act (.open 0))) rfl
      (.cons (a := .sink 0 (.startSend [1])) (by with_unfolding_all rfl)
      (.cons (a := .sink 0 (.pollClose 0)) (by with_unfolding_all rfl)
      (.cons (a := .sink 0 (.pollReady 0)) (by with_unfolding_all rfl) (.nil _))))
  exact ⟨⟨_, _, _, hdiscarded, by with_unfolding_all rfl, by decide +kernel, by decide +kernel,
      by decide +kernel⟩,
    _, _, _, hforgotten, by with_unfolding_all rfl, by decide +kernel, by decide +kernel,
    by decide +kernel⟩

end Handles

end Rammux
