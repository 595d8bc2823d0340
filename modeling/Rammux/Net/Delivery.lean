import Rammux.Net.Compliance

/-!
# What is written is what is read

The applications at the two ends of a stream keep logs: what one has written, and what the other has
read. `Carries` ties the two logs of a direction to what is on its way: what was written is what was
read, followed by what the receiver holds, the data in flight, and what the sender holds. It is kept
by everything that happens to a link, so it holds in every run, for every stream and its mate.
-/

namespace Rammux

/-! ## The logs of an application -/

/-- What an application wrote to a stream. -/
structure WriteLog where
  /-- The bytes that `write` accepted. -/
  written : Bytes := []
  /-- Whether the application closed writing. -/
  closed : Bool := false

/-- What an application read from a stream. -/
structure ReadLog where
  /-- The bytes of the chunks that it got. -/
  read : Bytes := []
  /-- Whether the application closed reading. -/
  closed : Bool := false
  /-- Whether it got the end of the stream, and had not closed reading. -/
  sawEnd : Bool := false

/-- The logs of an application about a stream. -/
structure AppLog where
  writes : WriteLog := {}
  reads : ReadLog := {}

/-- Logs what the application did. -/
def WriteLog.record (l : WriteLog) (op : AppOp) (res : AppResult) : WriteLog :=
  match op, res with
  | .write data, .written (.ok ()) => { l with written := l.written ++ data }
  | .closeWriting, _ => { l with closed := true }
  | _, _ => l

/-- Logs what the application did. -/
def ReadLog.record (l : ReadLog) (op : AppOp) (res : AppResult) : ReadLog :=
  match op, res with
  | .pollRead _, .read (.ready (some data)) => { l with read := l.read ++ data }
  | .pollRead _, .read (.ready none) => { l with sawEnd := l.sawEnd || !l.closed }
  | .closeReading, _ => { l with closed := true }
  | _, _ => l

/-- Logs what the application did. -/
def AppLog.record (l : AppLog) (op : AppOp) (res : AppResult) : AppLog :=
  ⟨l.writes.record op res, l.reads.record op res⟩

/-! ## One direction -/

/-- The data in flight. -/
def bytesInFlight (ps : List Packet) : Bytes := (ps.map Packet.data).flatten

/-- No frames carry no bytes. -/
@[simp] theorem bytesInFlight_nil : bytesInFlight [] = [] := rfl

/-- The bytes of the first frame come first. -/
@[simp] theorem bytesInFlight_cons (p : Packet) (ps : List Packet) :
    bytesInFlight (p :: ps) = p.data ++ bytesInFlight ps := rfl

/-- The bytes of a new frame come last. -/
@[simp] theorem bytesInFlight_concat (ps : List Packet) (p : Packet) :
    bytesInFlight (ps ++ [p]) = bytesInFlight ps ++ p.data := by
  simp [bytesInFlight]

/-- Without frames that have data, none is in flight. -/
theorem bytesInFlight_eq_nil {ps : List Packet} (h : ∀ p ∈ ps, p.hasData = false) :
    bytesInFlight ps = [] := by
  refine List.flatten_eq_nil_iff.mpr fun data hdata => ?_
  obtain ⟨p, hp, rfl⟩ := List.mem_map.mp hdata
  have := h p hp
  rw [Packet.hasData] at this
  simpa using this

/-- What the logs of the two ends of a direction have to do with each other: `w` is the log of the
application that writes to `o`, `r` that of the application that reads from `i`, and `f` are the
frames from the sending end. -/
structure Carries (o : OutboundTraffic) (f : List Packet) (i : InboundTraffic) (w : WriteLog)
    (r : ReadLog) : Prop where
  /-- While the receiver reads, nothing is lost. -/
  reading : i.reading = true →
    w.written = r.read ++ i.buffered.flatten ++ bytesInFlight f ++ o.unsent
  /-- Afterwards the application closed reading, or it has read everything. -/
  stopped : i.reading = false → r.read <+: w.written ∧
    (r.closed = true ∨ (i.ended = true ∧ w.closed = true ∧ r.read = w.written))
  /-- The sending end stops writing for its application, or for `FIN_READ`. -/
  closed : o.writing = false → w.closed = true ∨ o.finReceived = true
  sawEnd : r.sawEnd = true →
    i.reading = false ∧ i.ended = true ∧ w.closed = true ∧ r.read = w.written

namespace Carries

variable {o o' : OutboundTraffic} {f g : List Packet} {i i' : InboundTraffic} {p : Packet}
  {w w' : WriteLog} {r r' : ReadLog}

/-- Nothing was written to a new stream, and nothing is read from it. -/
theorem new (limit window base : ℕ) (h : 0 < limit) :
    Carries (OutboundTraffic.new limit h window) [] (InboundTraffic.new base) {} {} where
  reading _ := rfl
  stopped h := nomatch h
  closed h := nomatch h
  sawEnd h := nomatch h

/-- What was received is at every moment a prefix of what was written. -/
theorem received_in_order (h : Carries o f i w r) :
    r.read ++ i.buffered.flatten <+: w.written := by
  cases hr : i.reading with
  | true =>
    rw [h.reading hr, List.append_assoc (_ ++ _)]
    exact List.prefix_append _ _
  | false =>
    rw [InboundTraffic.buffered_of_not_reading hr, List.flatten_nil, List.append_nil]
    exact (h.stopped hr).1

/-- So is what was read. -/
theorem in_order (h : Carries o f i w r) : r.read <+: w.written :=
  (List.prefix_append _ _).trans h.received_in_order

/-- Behind `FIN_WRITE` nothing is on its way, and the application closed writing, unless the
receiver stopped reading before. -/
theorem drained (h : Carries o f i w r) (hd : Direction o f i g) {behind : List Packet}
    (hfin : DataClosing true behind o.finSent) (hread : i.finSent = false) :
    bytesInFlight behind = [] ∧ o.unsent = [] ∧ w.closed = true := by
  obtain ⟨hsent, hbehind⟩ := hfin.of_closed
  refine ⟨bytesInFlight_eq_nil fun q hq => (hbehind q hq).1,
    OutboundTraffic.unsent_of_finSent hsent, ?_⟩
  refine (h.closed (OutboundTraffic.not_writing_of_finSent hsent)).resolve_right fun hrec => ?_
  have hfinRead := hd.finRead
  rw [hrec] at hfinRead
  exact Bool.noConfusion (hread.symm.trans hfinRead.of_closed.1)

/-- The sender sends. -/
theorem send (h : Carries o f i w r) (hs : o.Emits p.data p.header.flags.finWrite o') :
    Carries o' (f ++ [p]) i w r := by
  refine ⟨fun hr => ?_, h.stopped, fun hw => ?_, h.sawEnd⟩
  · rw [h.reading hr, hs.unsent, bytesInFlight_concat]
    simp only [List.append_assoc]
  · rw [hs.writing] at hw
    rw [hs.finReceived]
    exact h.closed hw

/-- The receiver takes the next frame of the sender. -/
theorem arrive (h : Carries o (p :: f) i w r) (hd : Direction o (p :: f) i g)
    (hr : i.Received p.data p.header.flags.finWrite i') : Carries o f i' w r := by
  have hended : i.ended = true → i'.ended = true := fun he => by rw [hr.ended, he, Bool.true_or]
  refine ⟨fun hread => ?_, fun hread => ?_, h.closed, fun hsaw => ?_⟩
  · have hread' := (hr.reading.mp hread).1
    rw [h.reading hread', hr.buffered, if_pos hread', bytesInFlight_cons, List.flatten_append,
      InboundTraffic.flatten_chunks]
    simp only [List.append_assoc]
  · cases hread' : i.reading with
    | false =>
      obtain ⟨hpre, hor⟩ := h.stopped hread'
      exact ⟨hpre, hor.imp_right fun ⟨he, hc⟩ => ⟨hended he, hc⟩⟩
    | true =>
      -- `FIN_WRITE` arrived, and there is nothing to read.
      have hfin : p.header.flags.finWrite = true ∧ i'.buffered = [] := by
        by_contra hnot
        have : i'.reading = true := hr.reading.mpr ⟨hread', fun hf hb => hnot ⟨hf, hb⟩⟩
        exact Bool.noConfusion (hread.symm.trans this)
      have hended' : i'.ended = true := by rw [hr.ended, hfin.1, Bool.or_true]
      have hempty : i.buffered = [] ∧ InboundTraffic.chunks p.data = [] := by
        have := hr.buffered
        rw [if_pos hread', hfin.2] at this
        exact List.append_eq_nil_iff.mp this.symm
      obtain ⟨hf, hun, hclosed⟩ := h.drained hd (hd.finWrite.close hfin.1)
        (InboundTraffic.not_finSent_of_reading hread')
      have hall : r.read = w.written := by
        have hdata : p.data = [] := InboundTraffic.chunks_eq_nil.mp hempty.2
        rw [h.reading hread', hempty.1, bytesInFlight_cons, hdata, hf, hun]
        simp
      exact ⟨hall ▸ List.prefix_rfl, .inr ⟨hended', hclosed, hall⟩⟩
  · obtain ⟨hread, he, hc⟩ := h.sawEnd hsaw
    refine ⟨?_, hended he, hc⟩
    by_contra hnot
    have := (hr.reading.mp (by simpa using hnot)).1
    exact Bool.noConfusion (hread.symm.trans this)

/-- The receiver sends. -/
theorem grant {credit : ℕ} {finRead : Bool} (h : Carries o f i w r)
    (hs : i.Emits credit finRead i') : Carries o f i' w r := by
  refine ⟨fun hr => ?_, fun hr => ?_, h.closed, fun hsaw => ?_⟩
  · rw [hs.reading] at hr
    rw [hs.buffered]
    exact h.reading hr
  · rw [hs.reading] at hr
    rw [hs.ended]
    exact h.stopped hr
  · rw [hs.reading, hs.ended]
    exact h.sawEnd hsaw

/-- The sender takes the next frame of the receiver. -/
theorem giveBack (h : Carries o f i w r) (hd : Direction o f i (p :: g))
    (hr : o.Received p.credit p.header.flags.finRead o') : Carries o' f i w r := by
  refine ⟨fun hread => ?_, h.stopped, fun hw => ?_, h.sawEnd⟩
  · -- While the receiver reads, it has not sent `FIN_READ`.
    have hfin : p.header.flags.finRead = false := by
      by_contra hc
      have hsent := (hd.finRead.close (by simpa using hc)).of_closed.1
      rw [InboundTraffic.not_finSent_of_reading hread] at hsent
      exact Bool.noConfusion hsent
    rw [hr.unsent, hfin, if_neg Bool.false_ne_true]
    exact h.reading hread
  · rw [hr.finReceived]
    rw [hr.writing] at hw
    cases hwriting : o.writing with
    | true =>
      rw [hwriting, Bool.true_and, Bool.not_eq_false'] at hw
      rw [hw, Bool.or_true]
      exact .inr rfl
    | false =>
      refine (h.closed hwriting).imp_right fun hrec => ?_
      rw [hrec, Bool.true_or]

/-- The application polls for data. -/
theorem pollRead (h : Carries o f i w r) (hd : Direction o f i g) {waker : Waker} {me : StreamRef}
    {wk wk' : Wakes} {chunk : Poll (Option Bytes)}
    (hread : i.pollRead waker me wk = .ok (chunk, i', wk')) :
    Carries o f i' w (r.record (.pollRead waker) (.read chunk)) := by
  rcases InboundTraffic.pollRead_cases hread with ⟨rfl, hb, he, ⟨reader, hs⟩, rfl, -⟩ |
    ⟨rfl, hnot, rfl, -⟩ | ⟨data, rfl, ht, -⟩
  · -- Nothing to read yet: a waker is registered.
    have hsame : i.reading = true := by simp [InboundTraffic.reading, hs]
    refine ⟨fun _ => ?_, by simp [InboundTraffic.reading], h.closed, fun hsaw => ?_⟩
    · have hw := h.reading hsame
      rw [hb] at hw
      exact hw
    · exact Bool.noConfusion ((h.sawEnd hsaw).1.symm.trans hsame)
  · -- The end of the stream.
    refine ⟨h.reading, h.stopped, h.closed, fun hsaw => ?_⟩
    rcases (h.stopped hnot).2 with hclosed | ⟨he, hw⟩
    · have hsaw' : r.sawEnd = true := by
        simpa [ReadLog.record, hclosed] using hsaw
      exact h.sawEnd hsaw'
    · exact ⟨hnot, he, hw⟩
  · -- A chunk.
    have hw := h.reading ht.reading
    rw [ht.buffered, List.flatten_cons] at hw
    have hsaw : r.sawEnd = false := by
      by_contra hc
      exact Bool.noConfusion ((h.sawEnd (by simpa using hc)).1.symm.trans ht.reading)
    refine ⟨fun _ => ?_, fun hnot => ?_, h.closed, fun hc => ?_⟩
    · simp only [ReadLog.record]
      rw [hw]
      simp only [List.append_assoc]
    · -- It was the last one after `FIN_WRITE`.
      obtain ⟨he, hb⟩ := ht.drained.resolve_left fun hr =>
        Bool.noConfusion (hnot.symm.trans hr)
      have hfin := hd.finWrite
      rw [← ht.ended, he] at hfin
      obtain ⟨hf, hun, hclosed⟩ := h.drained hd hfin
        (InboundTraffic.not_finSent_of_reading ht.reading)
      have hall : r.read ++ data = w.written := by
        rw [hw, hb, hf, hun]
        simp
      exact ⟨hall ▸ List.prefix_rfl, .inr ⟨he, hclosed, hall⟩⟩
    · exact Bool.noConfusion (hsaw.symm.trans hc)

/-- The application closes reading. -/
theorem closeReading (h : Carries o f i w r) (me : StreamRef) (wk : Wakes) :
    Carries o f (i.closeReading me wk).1 w (r.record .closeReading .closed) := by
  rcases i.closeReading_cases me wk with ⟨hread, hc⟩ | ⟨hread, hc⟩
  · rw [hc]
    refine ⟨nofun, fun _ => ⟨h.in_order, .inl rfl⟩, h.closed, fun hsaw => ?_⟩
    exact Bool.noConfusion ((h.sawEnd hsaw).1.symm.trans hread)
  · rw [hc]
    exact ⟨h.reading, fun hr => ⟨h.in_order, .inl rfl⟩, h.closed, h.sawEnd⟩

/-- The application writes. -/
theorem write (h : Carries o f i w r) (hd : Direction o f i g) (data : Bytes) (me : StreamRef)
    (wk : Wakes) : Carries (o.write data me wk).2.1 f i
      (w.record (.write data) (.written (o.write data me wk).1)) r := by
  rcases o.write_cases data me wk with (⟨e, hc⟩ | ⟨hw, rfl, hc⟩) | ⟨writer, hs, hne, hc⟩
  · rw [hc]
    exact h
  · rw [hc]
    simp only [WriteLog.record, List.append_nil]
    exact h
  · rw [hc]
    -- The direction is open, so the receiver has not seen `FIN_WRITE`.
    have hsent : o.finSent = false := by
      simp [OutboundTraffic.finSent, OutboundTraffic.finState, hs]
    have hended : i.ended = false := by
      by_contra he
      have hfin := hd.finWrite
      rw [show i.ended = true by simpa using he] at hfin
      exact Bool.noConfusion (hsent.symm.trans hfin.of_closed.1)
    have hun : o.unsent = [] := by simp [OutboundTraffic.unsent, hs]
    refine ⟨fun hr => ?_, fun hr => ?_, by simp [OutboundTraffic.writing], fun hsaw => ?_⟩
    · have hw := h.reading hr
      rw [hun, List.append_nil] at hw
      simp only [WriteLog.record, hw, OutboundTraffic.unsent]
    · obtain ⟨hpre, hor⟩ := h.stopped hr
      refine ⟨hpre.trans (List.prefix_append _ _), .inl ?_⟩
      exact hor.resolve_right fun hend => Bool.noConfusion (hended.symm.trans hend.1)
    · exact Bool.noConfusion (hended.symm.trans (h.sawEnd hsaw).2.1)

/-- The application closes writing. -/
theorem closeWriting (h : Carries o f i w r) (me : StreamRef) (wk : Wakes) :
    Carries (o.closeWriting me wk).1 f i (w.record .closeWriting .closed) r := by
  have hsaw : r.sawEnd = true →
      i.reading = false ∧ i.ended = true ∧ true = true ∧ r.read = w.written := fun hs =>
    ⟨(h.sawEnd hs).1, (h.sawEnd hs).2.1, rfl, (h.sawEnd hs).2.2.2⟩
  have hstopped : i.reading = false → r.read <+: w.written ∧
      (r.closed = true ∨ (i.ended = true ∧ true = true ∧ r.read = w.written)) := fun hr =>
    ⟨(h.stopped hr).1, (h.stopped hr).2.imp_right fun ⟨he, _, hall⟩ => ⟨he, rfl, hall⟩⟩
  have hun : (o.closeWriting me wk).1.unsent = o.unsent := by
    rcases o.closeWriting_cases me wk with ⟨-, hc⟩ | ⟨writer, hs, hc⟩ | ⟨data, writer, -, hs, hc⟩
    · rw [hc]
    · rw [hc]
      simp [OutboundTraffic.unsent, hs]
    · rw [hc]
      simp [OutboundTraffic.unsent, hs]
  exact ⟨fun hr => by rw [hun]; exact h.reading hr, hstopped, fun _ => .inl rfl, hsaw⟩

/-- The application polls the sending direction. -/
theorem rewaked (h : Carries o f i w r) (hr : o.Rewaked o') : Carries o' f i w r := by
  obtain ⟨-, hun, hwriting, hfin, -⟩ := hr.same
  refine ⟨fun hread => by rw [hun]; exact h.reading hread, h.stopped, fun hw => ?_, h.sawEnd⟩
  rw [hwriting] at hw
  rw [OutboundTraffic.finReceived, hfin]
  exact h.closed hw

end Carries

/-! ## The whole stream -/

/-- The logs of the two ends of a stream fit. -/
structure Link.Carried (l : Link) (near far : AppLog) : Prop where
  out : Carries l.near.outbound l.sent l.far.inbound near.writes far.reads
  back : Carries l.far.outbound l.coming l.near.inbound far.writes near.reads

namespace Link

variable {l : Link} {near : StreamState} {p : Packet} {ps : List Packet} {log log' : AppLog}

/-- The two ends of a link carry the same, seen from the other end. -/
theorem Carried.flip (h : l.Carried log log') : l.flip.Carried log' log := ⟨h.back, h.out⟩

/-- A new stream carries nothing. -/
theorem carried_new (config config' : RammuxConfig) :
    (⟨StreamState.new config, [], StreamState.new config', []⟩ : Link).Carried {} {} :=
  ⟨Carries.new .., Carries.new ..⟩

/-- The application of the near end uses the stream. -/
theorem Carried.app {c c' : StreamCtx} {op : AppOp} {me : StreamRef} {res : AppResult}
    (h : l.Carried log log') (hs : l.Sound) (hc : c.state = l.near)
    (happ : c.app op me = .ok (res, c')) :
    ({ l with near := c'.state } : Link).Carried (log.record op res) log' := by
  obtain ⟨near, sent, far, coming⟩ := l
  subst hc
  cases op with
  | pollRead waker =>
    simp only [StreamCtx.app, Lib.bind_eq_ok] at happ
    obtain ⟨⟨chunk, i, wk⟩, hread, happ⟩ := happ
    cases happ
    exact ⟨h.out, h.back.pollRead hs.back hread⟩
  | closeReading =>
    cases happ
    exact ⟨h.out, h.back.closeReading _ _⟩
  | pollWriteReady waker =>
    cases happ
    exact ⟨h.out.rewaked (OutboundTraffic.pollWriteReady_rewaked _ _), h.back⟩
  | write data =>
    cases happ
    exact ⟨h.out.write hs.out _ _ _, h.back⟩
  | pollFlushed waker =>
    cases happ
    exact ⟨h.out.rewaked (OutboundTraffic.pollFlushed_rewaked _ _), h.back⟩
  | closeWriting =>
    cases happ
    exact ⟨h.out.closeWriting _ _, h.back⟩

/-- The near end sends a frame. -/
theorem Carried.send (h : l.Carried log log')
    (hin : l.near.inbound.Emits p.credit p.header.flags.finRead near.inbound)
    (hout : l.near.outbound.Emits p.data p.header.flags.finWrite near.outbound) :
    ({ l with near, sent := l.sent ++ [p] } : Link).Carried log log' :=
  ⟨h.out.send hout, h.back.grant hin⟩

/-- The near end takes the next frame. -/
theorem Carried.receive (h : l.Carried log log') (hs : l.Sound) (hc : l.coming = p :: ps)
    (hin : l.near.inbound.Received p.data p.header.flags.finWrite near.inbound)
    (hout : l.near.outbound.Received p.credit p.header.flags.finRead near.outbound) :
    ({ l with near, coming := ps } : Link).Carried log log' := by
  obtain ⟨near₀, sent, far, coming⟩ := l
  subst hc
  exact ⟨h.out.giveBack hs.out hout, h.back.arrive hs.back hin⟩

end Link

/-! ## Two endpoints and their applications -/

/-- The logs after an event. -/
def logAfter (log : RammuxRole → StreamRef → AppLog) (a : Net.Action) (o : Streams.Output) :
    RammuxRole → StreamRef → AppLog :=
  match a, o with
  | .app p r op, .app res =>
    Function.update log p (Function.update (log p) r ((log p r).record op res))
  | _, _ => log

namespace Net

/-- The log about the other end of a stream. -/
def farLog (n : Net) (log : RammuxRole → StreamRef → AppLog) (p : RammuxRole) (r : StreamRef) :
    AppLog :=
  (n.mate p r).elim {} (log p.other)

/-- The logs of the two ends of every stream fit, and there are none about streams that do not
exist. -/
structure Carried (n : Net) (log : RammuxRole → StreamRef → AppLog) : Prop where
  link : ∀ p r, r < (n.ends p).next → (n.link p r).Carried (log p r) (n.farLog log p r)
  fresh : ∀ p r, (n.ends p).next ≤ r → log p r = {}

variable {config : RammuxRole → RammuxConfig} {n n' : Net} {p : RammuxRole} {r r' : StreamRef}
  {log log' : RammuxRole → StreamRef → AppLog}

/-- The streams of a new connection carry nothing. -/
theorem carried_new (config : RammuxRole → RammuxConfig) : (new config).Carried fun _ _ => {} where
  link _ r h := absurd h (Nat.not_lt_zero r)
  fresh _ _ _ := rfl

/-- The logs fit after something was done with a stream, if those about it do. -/
theorem Works.carried (h : n.Works p r n') (hi : n.Inv config) (hc : n.Carried log)
    (hr : r < (n.ends p).next) (hlog : ∀ q r', (q = p → r' ≠ r) → log' q r' = log q r')
    (hself : (n'.link p r).Carried (log' p r) (n.farLog log p r)) : n'.Carried log' := by
  have hother : log' p.other = log p.other :=
    funext fun r' => hlog p.other r' fun he => absurd he p.other_ne
  have hnext : ∀ q, (n'.ends q).next = (n.ends q).next := by
    intro q
    rcases p.eq_or_eq_other q with rfl | rfl
    · exact h.next
    · rw [h.other]
  refine ⟨fun q r' hr' => ?_, fun q r' hr' => ?_⟩
  · rw [hnext] at hr'
    rw [farLog, h.mate]
    by_cases hsame : q = p ∧ r' = r
    · obtain ⟨rfl, rfl⟩ := hsame
      rw [hother]
      exact hself
    by_cases hmate : q = p.other ∧ n.mate p r = some r'
    · -- The mate sees the same stream.
      obtain ⟨rfl, hm⟩ := hmate
      have hm' := hi.mate_symm _ _ _ hm
      rw [link_flip (by rw [h.mate, hm]) (by rw [h.mate, hm']), hm', RammuxRole.other_other]
      rw [farLog, hm, ← hother] at hself
      exact hself.flip
    · -- Any other stream has its link and both of its logs as they were.
      have hlink := ((h.link_cases hi q r').resolve_left hsame).resolve_left hmate
      have hfar : (n.mate q r').elim {} (log' q.other) = n.farLog log q r' := by
        rw [farLog]
        cases hm : n.mate q r' with
        | none => rfl
        | some r₂ =>
          refine hlog q.other r₂ fun he hr₂ => hmate ?_
          obtain rfl : q = p.other := by rw [← he, RammuxRole.other_other]
          have hm' := hi.mate_symm _ _ _ hm
          rw [RammuxRole.other_other, hr₂] at hm'
          exact ⟨rfl, hm'⟩
      rw [hlink, hfar, hlog q r' fun hq hr' => hsame ⟨hq, hr'⟩]
      exact hc.link q r' hr'
  · rw [hnext] at hr'
    rw [hlog q r' ?_]
    · exact hc.fresh q r' hr'
    · rintro rfl rfl
      exact absurd hr (Nat.not_lt.mpr hr')

/-- The logs fit as long as the links are what they were. -/
theorem Carried.congr (hc : n.Carried log) (hlink : n'.link = n.link) (hmate : n'.mate = n.mate)
    (hnext : ∀ q, (n'.ends q).next = (n.ends q).next) : n'.Carried log := by
  refine ⟨fun q r' hr' => ?_, fun q r' hr' => ?_⟩
  · rw [hlink, farLog, hmate]
    exact hc.link q r' (hnext q ▸ hr')
  · exact hc.fresh q r' (hnext q ▸ hr')

/-- The application uses a stream. -/
theorem Carried.app (hc : n.Carried log) (hi : n.Inv config) {op : AppOp} {o : Streams.Output}
    (h : n.act p (.app r op) = .ok (o, n')) : n'.Carried (logAfter log (.app p r op) o) := by
  obtain ⟨s, hstep, rfl⟩ := act_eq_ok.mp h
  simp only [Streams.step] at hstep
  split at hstep
  · next hr =>
    simp only [Lib.bind_eq_ok] at hstep
    obtain ⟨⟨res, c⟩, happ, hstep⟩ := hstep
    cases hstep
    have hw := works_put (Streams.app_touched happ)
    refine hw.carried hi hc hr (fun q r' hne => ?_) ?_
    · simp only [logAfter]
      by_cases hq : q = p
      · rw [hq, Function.update_self, Function.update_of_ne (hne hq)]
      · rw [Function.update_of_ne hq]
    · rw [hw.link_self, put_ends_self, Streams.put_state_self]
      simp only [logAfter, Function.update_self]
      exact (hc.link p r hr).app (hi.link p r hr) rfl happ
  · cases hstep
    rw [put_self]
    exact hc

/-- The flow and the wakers of an endpoint do not concern the logs. -/
theorem Carried.reflow (hc : n.Carried log) {s : Streams}
    (h : s = { n.ends p with flow := s.flow, wakes := s.wakes }) : (n.put p s).Carried log := by
  have hends : ∀ q, ((n.put p s).ends q).next = (n.ends q).next ∧
      ((n.put p s).ends q).state = (n.ends q).state ∧
      ((n.put p s).ends q).config = (n.ends q).config := by
    intro q
    rcases p.eq_or_eq_other q with rfl | rfl
    · rw [put_ends_self, h]
      exact ⟨rfl, rfl, rfl⟩
    · rw [put_ends_other]
      exact ⟨rfl, rfl, rfl⟩
  refine hc.congr (funext fun q => funext fun r' => ?_) rfl fun q => (hends q).1
  cases hm : n.mate q r' with
  | none =>
    rw [link_of_not_mate hm, link_of_not_mate (n := n.put p s) hm, (hends q).2.1,
      (hends q.other).2.2, put_sentBy]
  | some r₂ =>
    rw [link_of_mate hm, link_of_mate (n := n.put p s) hm, (hends q).2.1, (hends q.other).2.1,
      put_sentBy, put_sentBy]

/-- The selector polls a task. -/
theorem Carried.poll (hc : n.Carried log) (hi : n.Inv config) {allowance : ℚ≥0}
    {o : Streams.Output} {n₁ : Net} (h : n.act p (.poll r allowance) = .ok (o, n₁)) :
    (n₁.send p r o).Carried log := by
  obtain ⟨s, hstep, rfl⟩ := act_eq_ok.mp h
  simp only [Streams.step, Lib.bind_eq_ok] at hstep
  obtain ⟨⟨res, s'⟩, hpoll, hstep⟩ := hstep
  cases hstep
  rcases Streams.pollUpdate_sends hpoll with ⟨rfl, hsame⟩ | ⟨u, rfl, hsent⟩
  · exact hc.reflow hsame
  · obtain ⟨task, htask, -⟩ := hsent.task
    have hr := ((hi.sane p).tables.taskId r task htask).1
    have hw := works_sending (u := u) (Streams.pollUpdate_touched hpoll (hi.sane p).tables hr)
    refine hw.carried hi hc hr (fun _ _ _ => rfl) ?_
    rw [hw.link_self, sending_ends_self, sending_comingTo, sending_sentBy_self]
    refine (hc.link p r hr).send ?_ hsent.outbound
    rw [StreamUpdate.packet_credit]
    exact hsent.inbound

/-- The application opens a stream, or is told that it cannot. -/
theorem Carried.open (hc : n.Carried log) (hi : n.Inv config) {key : ℕ} {o : Streams.Output}
    (h : n.act p (.open key) = .ok (o, n')) : n'.Carried log := by
  obtain ⟨s, hstep, rfl⟩ := act_eq_ok.mp h
  simp only [Streams.step] at hstep
  split at hstep
  · next hkey =>
    cases hstep
    rcases Streams.openOutbound_cases hkey with hopen | ⟨id, s, hopen, -, -, hcreated⟩
    · rw [hopen, put_self]
      exact hc
    · rw [hopen]
      have hg : n.Grows p id (n.put p s) :=
        ⟨by rw [put_ends_self]; exact hcreated, put_ends_other _ _ _, rfl⟩
      refine ⟨fun q r hr => ?_, fun q r hr => hc.fresh q r ((hg.next_le q).trans hr)⟩
      rcases hg.lt_cases hr with hr | ⟨rfl, rfl⟩
      · rw [hg.link hi hr rfl]
        exact hc.link q r hr
      · have hnone : (n.put q s).mate q (n.ends q).next = none := hi.mate_next q
        rw [link_of_not_mate hnone, hg.sentBy, hi.sentBy_next, hg.created.new.1, farLog, hnone,
          hc.fresh q _ le_rfl]
        exact Link.carried_new _ _
  · cases hstep
    rw [put_self]
    exact hc

section Deliver

variable {pkt : Packet} {rest : List Packet}

/-- Creating the stream of a `SYN` does not concern the logs. -/
theorem Carried.accept (hc : n.Carried log) (hi : n.Inv config)
    (hw : n.wire p.other = pkt :: rest) (hm : n.mate p.other pkt.src = none) :
    (n.accept p pkt).Carried log := by
  have hg := hi.accept_grows hw hm
  have hsrc := (hi.packet_from hw).src
  have hfar : n.farLog log p.other pkt.src = {} := by rw [farLog, hm]; rfl
  refine ⟨fun q r hr => ?_, fun q r hr => hc.fresh q r ((hg.next_le q).trans hr)⟩
  rcases hg.lt_cases hr with hlt | ⟨rfl, rfl⟩
  · rw [hi.accept_link hw hm hlt]
    have hlink := hc.link q r hlt
    cases hold : n.mate q r with
    | some r₂ =>
      rw [farLog, hi.accept_keeps hm hold]
      rwa [farLog, hold] at hlink
    | none =>
      rw [farLog, hold] at hlink
      rw [farLog]
      cases hnew : (n.accept p pkt).mate q r with
      | none => exact hlink
      | some r₂ =>
        -- The new mate is the stream that was created, which has no log.
        rcases accept_mate_cases hnew with hsome | ⟨rfl, rfl, -⟩ | ⟨rfl, rfl, rfl⟩
        · rw [hold] at hsome
          nomatch hsome
        · exact absurd hlt (Nat.lt_irrefl _)
        · rw [Option.elim_some, RammuxRole.other_other, hc.fresh p _ le_rfl]
          exact hlink
  · have hlink := hc.link q.other pkt.src hsrc
    rw [hfar] at hlink
    rw [accept_link_new hi hw hm, farLog, accept_mate_new, hc.fresh q _ le_rfl]
    exact hlink.flip

/-- A stream takes the next frame of its mate. -/
theorem Carried.receiving (hc : n.Carried log) (hi : n.Inv config)
    (hw : n.wire p.other = pkt :: rest) (hm : n.mate p r = some pkt.src)
    {newStream : Option StreamRef} {s : Streams}
    (hdel : (n.ends p).deliver r pkt.header pkt.data newStream = .ok (.ok newStream, s)) :
    (n.receiving p s rest).Carried log := by
  have hr := hi.mate_lt p r _ hm
  have hlookup := hi.lookup_mate hw hm
  have hid := ((hi.sane p).tables.lookup _ _ hlookup).2
  have hworks := works_receiving hw hm (Streams.deliver_touched hdel hlookup hid.symm)
  obtain ⟨c, verdict, hrec, ⟨e, -, he, -⟩ | ⟨fin, rfl, -, hrem⟩⟩ := Streams.deliver_eq_ok hdel
  · nomatch he
  have hstate : s.state r = c.state := by
    rw [Streams.removeIfDead_same hrem]
    exact Streams.put_state_self _ _ _
  obtain ⟨hin, hout, -⟩ := StreamCtx.received_eq_ok hrec
  have hcoming : (n.receiving p s rest).comingTo p r = rest.filter fun x => x.src = pkt.src := by
    rw [comingTo, show (n.receiving p s rest).mate = n.mate from rfl, hm]
    exact receiving_sentBy_other
  refine hworks.carried hi hc hr (fun _ _ _ => rfl) ?_
  rw [hworks.link_self, receiving_ends_self, receiving_sentBy_self, hcoming, hstate]
  exact (hc.link p r hr).receive (hi.link p r hr) (comingTo_of_wire hw hm) hin hout

end Deliver

/-- Every step keeps the logs in order. -/
theorem step_carried {a : Action} {o : Streams.Output} (hcompat : Compatible config)
    (hi : n.Inv config) (hs : n.Starts) (hc : n.Carried log) (h : n.step a = .ok (o, n')) :
    n'.Carried (logAfter log a o) := by
  cases a with
  | «open» p key => exact hc.open hi h
  | app p r op => exact hc.app hi h
  | poll p r allowance =>
    simp only [step, Lib.bind_eq_ok] at h
    obtain ⟨⟨o', n₁⟩, hact, h⟩ := h
    cases h
    exact hc.poll hi hact
  | observe p rtt =>
    obtain ⟨s, hstep, rfl⟩ := act_eq_ok.mp h
    cases hstep
    exact hc.reflow rfl
  | deliver q =>
    obtain ⟨p, rfl⟩ : ∃ p : RammuxRole, q = p.other := ⟨q.other, q.other_other.symm⟩
    rcases step_deliver hcompat hi hs h with ⟨-, rfl, rfl⟩ |
      ⟨pkt, rest, n₁, r, newStream, s, hw, htakes, hi₁, rfl, hdel, rfl, -⟩
    · exact hc
    · have hc₁ : n₁.Carried log := by
        rcases htakes.cases with ⟨rfl, -⟩ | ⟨rfl, hm, -⟩
        · exact hc
        · exact hc.accept hi hw hm
      exact hc₁.receiving hi₁ (by rw [htakes.wire, hw]) htakes.mate hdel

end Net

end Rammux
