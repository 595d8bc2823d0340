import Rammux.Net.Refinement

/-!
# What holds over bytes

The properties of two connections over transports that carry bytes, for their applications. They
follow from those of the frames, since the two sides are a session (`Refinement.lean`): a connection
fails only with its transport, what is read from a stream is what is written to it, and a downgrade
loses nothing that was flushed.
-/

namespace Rammux

namespace Wired

variable {config : RammuxRole → RammuxConfig} {clock : RammuxRole → Clock} {w w' : Wired}
  {p : RammuxRole} {l : Manifest} {tr : List (Action × Side.Answer)}

/-- The streams that the application of a side holds. -/
def streams (w : Wired) (p : RammuxRole) : Streams := (w.sides p).conn.streams

/-- Two sides with compatible configurations never accuse each other. Whatever error of its
connection an application is answered with, it is an error of the transport, or says that the
connection was not to be used any more. -/
theorem fails_only_with_transport (hc : Compatible config) (h : (machine config clock).Run tr w)
    {a : Action} {o : Side.Answer} {e : ErrorKind} (he : (a, o) ∈ tr) (ho : o.error = some e) :
    e.isMisuse = true ∨ ∃ io, e = .io io := by
  obtain ⟨l, -, -, hexcused⟩ := carries_of_run hc h
  exact hexcused (a, o) he e ho

/-- The transport of the server comes to its end in the middle of a frame. -/
theorem fails_only_with_transport_eof : ∃ tr w,
    (machine (fun _ => Streams.tightConfig) fun _ => ⟨0⟩).Run tr w ∧
    ∃ a o e, (a, o) ∈ tr ∧ o.error = some e ∧ e = .io .unexpectedEof ∧
      (e.isMisuse = true ∨ ∃ io, e = .io io) := by
  have h := Lib.Machine.Run.init (M := machine (fun _ => Streams.tightConfig) fun _ => ⟨0⟩)
    |>.step (a := .act .client (.open 0)) rfl
    |>.step (a := .act .client (.app 0 (.write [1, 2]))) (by with_unfolding_all rfl)
    |>.step (a := .act .client (.progress []
      [⟨[], false, [(0, 0)], .pending⟩, ⟨[⟨0, .accept 9 true⟩], false, [], .pending⟩]))
      (by with_unfolding_all rfl)
    |>.step (a := .deliver .server 3) (by with_unfolding_all rfl)
    |>.step (a := .eof .server) (by with_unfolding_all rfl)
    |>.step (a := .act .server (.progress [⟨[.take 9 0, .take 9 0, .take 9 0], false⟩] []))
      (o := .progressed (.ready (.error (.io .unexpectedEof)))) (by with_unfolding_all rfl)
  exact ⟨_, _, h, _, _, _, List.mem_concat_self, rfl, rfl,
    fails_only_with_transport Net.compatible_tight h List.mem_concat_self rfl⟩

/-- Every run over bytes of two sides with compatible configurations is a run over frames. The
applications do the same there, and the streams of the two sides are the same. A side that stopped
is one whose connection is gone. -/
theorem refines_session (hc : Compatible config) (h : (machine config clock).Run tr w) :
    ∃ str s, (Session.machine config).Run str s ∧ s.log = appLog tr ∧
      ∀ p, (∃ a, (w.sides p).conn = .active a ∧ s.gone p = none ∧ s.net.ends p = a.streams) ∨
        ((∀ a, (w.sides p).conn ≠ .active a) ∧ s.gone p = some (w.streams p)) := by
  obtain ⟨l, hcarries, hlog, -⟩ := carries_of_run hc h
  obtain ⟨str, hrun⟩ := hcarries.valid.reached
  refine ⟨str, l.session, hrun, hlog, fun p => ?_⟩
  have hstands := hcarries.stands p
  unfold streams
  generalize w.sides p = side at hstands
  cases hstands with
  | @active a hplays => exact .inl ⟨a, rfl, hplays.alive, hplays.streams⟩
  | stopped hgone _ hhanded => exact .inr ⟨hhanded.not_active, hgone⟩

/-- The server has read what the client wrote when the client downgrades. -/
theorem refines_session_downgraded : ∃ tr w str s,
    (machine (fun _ => Streams.tightConfig) fun _ => ⟨0⟩).Run tr w ∧
    (Session.machine fun _ => Streams.tightConfig).Run str s ∧
    (s.log .server 0).reads.read = [1, 2] ∧ s.gone .client = some (w.streams .client) ∧
    s.gone .server = none := by
  have h := Lib.Machine.Run.init (M := machine (fun _ => Streams.tightConfig) fun _ => ⟨0⟩)
    |>.step (a := .act .client (.open 0)) (o := .opened (.ok (some 0))) rfl
    |>.step (a := .act .client (.app 0 (.write [1, 2]))) (o := .app (.app (.written (.ok ()))))
      (by with_unfolding_all rfl)
    |>.step (a := .act .client (.progress []
      [⟨[], false, [(0, 0)], .pending⟩, ⟨[⟨0, .accept 9 true⟩], false, [], .pending⟩]))
      (o := .progressed .pending) (by with_unfolding_all rfl)
    |>.step (a := .deliver .server 9) (o := .none) (by with_unfolding_all rfl)
    |>.step (a := .act .server (.progress [⟨[.take 9 0, .take 9 0, .take 9 0], false⟩] []))
      (o := .progressed (.ready (.ok (.inbound 0)))) (by with_unfolding_all rfl)
    |>.step (a := .act .server (.app 0 (.pollRead 0)))
      (o := .app (.app (.read (.ready (some [1, 2]))))) (by with_unfolding_all rfl)
    |>.step (a := .act .client .downgrade) (o := .downgraded (.ok ())) (by with_unfolding_all rfl)
  obtain ⟨tr, w, h, hread, ⟨streams, hclient⟩, ⟨a, hserver⟩⟩ : ∃ tr w,
      (machine (fun _ => Streams.tightConfig) fun _ => ⟨0⟩).Run tr w ∧
      (appLog tr .server 0).reads.read = [1, 2] ∧
      (∃ streams, (w.sides .client).conn = .downgraded streams) ∧
      ∃ a, (w.sides .server).conn = .active a :=
    ⟨_, _, h, rfl, ⟨_, by with_unfolding_all rfl⟩, ⟨_, by with_unfolding_all rfl⟩⟩
  obtain ⟨str, s, hrun, hlog, hsides⟩ := refines_session Net.compatible_tight h
  refine ⟨tr, w, str, s, h, hrun, ?_, ?_, ?_⟩
  · rw [hlog]
    exact hread
  · obtain ⟨a, ha, -⟩ | ⟨-, hgone⟩ := hsides .client
    · cases ha.symm.trans hclient
    · exact hgone
  · obtain ⟨a, -, halive, -⟩ | ⟨hnot, -⟩ := hsides .server
    · exact halive
    · exact absurd hserver (hnot a)

/-- A connection that is running is there in the session. -/
theorem Carries.alive {a : Active} (h : w.Carries config l) (ha : (w.sides p).conn = .active a) :
    l.session.gone p = none ∧ l.session.net.ends p = w.streams p := by
  have hstands := h.stands p
  unfold streams
  generalize w.sides p = side at hstands ha
  cases hstands with
  | active hplays => exact ⟨hplays.alive, hplays.streams⟩
  | stopped _ _ hhanded => exact absurd ha (hhanded.not_active a)

/-- One that is gone has left its streams. -/
theorem Carries.gone (h : w.Carries config l) (hgone : l.session.gone p ≠ none) :
    l.session.gone p = some (w.streams p) := by
  have hstands := h.stands p
  unfold streams
  generalize w.sides p = side at hstands
  cases hstands with
  | active hplays => exact absurd hplays.alive hgone
  | stopped hgone _ _ => exact hgone

/-! ## What is read is what is written -/

/-- What a session says about a pair of logs. -/
theorem Carries.delivered {log : RammuxRole → StreamRef → AppLog} {r r' : StreamRef}
    (hi : l.session.Inv config log) (hm : l.session.net.mate p r = some r') :
    (l.session.log p r).reads.read <+: l.written p.other r' ∧
      (l.session.gone p = none → (l.session.log p r).reads.sawEnd = true →
        (l.session.log p.other r').writes.closed = true ∧
          (l.session.log p r).reads.read = l.written p.other r') := by
  have hr := hi.net.mate_lt p r r' hm
  obtain ⟨hwritten, hclosed⟩ := hi.writes (hi.net.mate_lt' hm)
  have hback := (hi.carried.link p r hr).back
  rw [Net.farLog, hm, Net.link_of_mate hm] at hback
  rw [Manifest.written, hwritten]
  refine ⟨(hi.reads hr).trans hback.received_in_order, fun halive hsaw => ?_⟩
  rw [hi.alive p halive] at hsaw ⊢
  obtain ⟨-, -, hw, hall⟩ := hback.sawEnd hsaw
  exact ⟨hclosed hw, hall⟩

/-- Nothing is read from a stream that the other side does not know. -/
theorem Carries.unread_of_no_mate {log : RammuxRole → StreamRef → AppLog} {r : StreamRef}
    (hi : l.session.Inv config log) (hr : r < (l.session.net.ends p).next)
    (hm : l.session.net.mate p r = none) : (l.session.log p r).reads.read = [] := by
  have hback := (hi.carried.link p r hr).back
  rw [Net.farLog, hm] at hback
  exact List.prefix_nil.mp ((hi.reads hr).trans hback.received_in_order)

/-- The streams of a side are those of its endpoint. -/
theorem Carries.streams {log : RammuxRole → StreamRef → AppLog} (h : w.Carries config l)
    (hi : l.session.Inv config log) (p : RammuxRole) :
    (w.streams p).ids = (l.session.net.ends p).ids ∧
      (w.streams p).next = (l.session.net.ends p).next := by
  have hstands := h.stands p
  unfold Wired.streams
  generalize w.sides p = side at hstands
  cases hstands with
  | active hplays =>
    rw [hplays.streams]
    exact ⟨rfl, rfl⟩
  | stopped hgone hids _ => exact ⟨hids, (hi.gone p _ hgone).next⟩

/-- The session knows which streams of the two sides belong together. -/
theorem Carries.mate_iff {log : RammuxRole → StreamRef → AppLog} {r r' : StreamRef}
    (h : w.Carries config l) (hi : l.session.Inv config log) :
    l.session.net.mate p r = some r' ↔ (w.streams p).Counterparts (w.streams p.other) r r' := by
  obtain ⟨hids, hnext⟩ := h.streams hi p
  obtain ⟨hids', hnext'⟩ := h.streams hi p.other
  rw [hi.net.mate_iff]
  exact ⟨fun hpair => hpair.congr hids hnext hids' hnext',
    fun hpair => hpair.congr hids.symm hnext.symm hids'.symm hnext'.symm⟩

/-- The configurations of the two sides are compatible. Then their streams belong together in pairs:
two streams do when they have the same ID, and equally many had it before on either side. Every
stream that the other side started has its counterpart. What an application reads from a stream is a
prefix of what the other one writes to its counterpart, and nothing as long as there is none. When
it gets the end of the stream, and has neither closed reading nor lost the connection, then the
other application closed writing, and everything was read. -/
theorem delivered_over_bytes (hc : Compatible config) (h : (machine config clock).Run tr w) :
    ∃ mate : RammuxRole → StreamRef → Option StreamRef,
      (∀ p r r', mate p r = some r' ↔ (w.streams p).Counterparts (w.streams p.other) r r') ∧
      (∀ p r r', mate p r = some r' →
        mate p.other r' = some r ∧ (w.streams p.other).ids r' = (w.streams p).ids r ∧
        (appLog tr p r).reads.read <+: (appLog tr p.other r').writes.written ∧
        ((∃ a, (w.sides p).conn = .active a) → (appLog tr p r).reads.sawEnd = true →
          (appLog tr p.other r').writes.closed = true ∧
            (appLog tr p r).reads.read = (appLog tr p.other r').writes.written)) ∧
      ∀ p r, r < (w.streams p).next →
        (((w.streams p).ids r).initiatedBy ≠ p → mate p r ≠ none) ∧
        (mate p r = none → (appLog tr p r).reads.read = []) := by
  obtain ⟨l, hcarries, hlog, -⟩ := carries_of_run hc h
  obtain ⟨str, hrun⟩ := hcarries.valid.reached
  obtain ⟨log, hi⟩ := Session.inv_of_run hc hrun
  refine ⟨l.session.net.mate, fun p r r' => hcarries.mate_iff hi,
    fun p r r' hm => ⟨hi.net.mate_symm p r r' hm, ?_, ?_⟩, fun p r hr => ?_⟩
  · rw [(hcarries.streams hi p).1, (hcarries.streams hi p.other).1]
    exact hi.net.mate_id p r r' hm
  · obtain ⟨hread, hend⟩ := Carries.delivered hi hm
    rw [← hlog]
    refine ⟨hread, ?_⟩
    rintro ⟨a, hactive⟩
    exact hend (hcarries.alive hactive).1
  · rw [(hcarries.streams hi p).2] at hr
    rw [(hcarries.streams hi p).1, ← hlog]
    exact ⟨hi.net.accepted p r hr, Carries.unread_of_no_mate hi hr⟩

/-- The client writes and closes writing, and the server reads up to the end, all over bytes. -/
theorem delivered_over_bytes_closed : ∃ tr w,
    (machine (fun _ => Streams.tightConfig) fun _ => ⟨0⟩).Run tr w ∧
    (appLog tr .server 0).reads.sawEnd = true ∧
    ∃ r, (w.streams .server).Counterparts (w.streams .client) 0 r ∧
      (appLog tr .client r).writes.closed = true ∧
      (appLog tr .client r).writes.written = [1, 2] := by
  have h := Lib.Machine.Run.init (M := machine (fun _ => Streams.tightConfig) fun _ => ⟨0⟩)
    |>.step (a := .act .client (.open 0)) (o := .opened (.ok (some 0))) rfl
    |>.step (a := .act .client (.app 0 (.write [1, 2]))) (o := .app (.app (.written (.ok ()))))
      (by with_unfolding_all rfl)
    |>.step (a := .act .client (.app 0 .closeWriting)) (o := .app (.app .closed))
      (by with_unfolding_all rfl)
    |>.step (a := .act .client (.progress []
      [⟨[], false, [(0, 0)], .pending⟩, ⟨[⟨0, .accept 9 true⟩], false, [], .pending⟩]))
      (o := .progressed .pending) (by with_unfolding_all rfl)
    |>.step (a := .deliver .server 9) (o := .none) (by with_unfolding_all rfl)
    |>.step (a := .act .server (.progress [⟨[.take 9 0, .take 9 0, .take 9 0], false⟩] []))
      (o := .progressed (.ready (.ok (.inbound 0)))) (by with_unfolding_all rfl)
    |>.step (a := .act .server (.app 0 (.pollRead 0)))
      (o := .app (.app (.read (.ready (some [1, 2]))))) (by with_unfolding_all rfl)
    |>.step (a := .act .server (.app 0 (.pollRead 0)))
      (o := .app (.app (.read (.ready none)))) (by with_unfolding_all rfl)
  obtain ⟨tr, w, h, hread, hsaw, hactive, hnext, hid⟩ : ∃ tr w,
      (machine (fun _ => Streams.tightConfig) fun _ => ⟨0⟩).Run tr w ∧
      (appLog tr .server 0).reads.read = [1, 2] ∧ (appLog tr .server 0).reads.sawEnd = true ∧
      (∃ a, (w.sides .server).conn = .active a) ∧ 0 < (w.streams .server).next ∧
      ((w.streams .server).ids 0).initiatedBy = .client :=
    ⟨_, _, h, rfl, rfl, ⟨_, by with_unfolding_all rfl⟩, by decide +kernel, by decide +kernel⟩
  obtain ⟨mate, hpairs, hmate, hall⟩ := delivered_over_bytes Net.compatible_tight h
  obtain ⟨r, hr⟩ := Option.ne_none_iff_exists'.mp ((hall .server 0 hnext).1 (by rw [hid]; decide))
  obtain ⟨-, -, -, hend⟩ := hmate .server 0 r hr
  obtain ⟨hclosed, hwritten⟩ := hend hactive hsaw
  exact ⟨tr, w, h, hsaw, r, (hpairs .server 0 r).mp hr, hclosed, hwritten.symm.trans hread⟩

/-! ## A downgrade loses nothing that was flushed -/

/-- A stream is told that it is flushed when nothing waits in it. -/
theorem Carries.flushed {a : Active} {r : StreamRef} {waker : Waker} (h : w.Carries config l)
    (hactive : (w.sides p).conn = .active a)
    (hstep : w.step (.act p (.app r (.pollFlushed waker))) =
      .ok (.app (.app (.flushed (.ready ()))), w')) :
    r < (l.session.net.ends p).next ∧ l.waits p r = 0 := by
  obtain ⟨⟨o, side⟩, hside, hret⟩ := Lib.bind_eq_ok.mp hstep
  cases hret
  obtain ⟨⟨output, streams⟩, happ, hret⟩ := Lib.bind_eq_ok.mp hside
  cases hret
  have hends : l.session.net.ends p = (w.sides p).conn.streams := (h.alive hactive).2
  rw [← hends, Streams.step] at happ
  split_ifs at happ with hr
  · obtain ⟨⟨res, c⟩, hflush, hret⟩ := Lib.bind_eq_ok.mp happ
    cases hret
    obtain ⟨hready, -⟩ := Prod.mk.inj (Except.ok.inj hflush)
    have hunsent := OutboundTraffic.unsent_of_flushed (AppResult.flushed.inj hready)
    exact ⟨hr, congrArg List.length hunsent⟩
  · cases happ

/-- What was flushed is in flight, or received, or the other application does not want it. -/
theorem Manifest.received {log : RammuxRole → StreamRef → AppLog} {r : StreamRef} {data : Bytes}
    (hi : l.session.Inv config log) (hempty : l.session.net.wire p = [])
    (halive : l.session.gone p.other = none) (hr : r < (l.session.net.ends p).next)
    (hdata : data <+: l.written p r) (hwaits : data.length + l.waits p r ≤ (l.written p r).length) :
    data = [] ∨ ∃ r', l.session.net.mate p r = some r' ∧
      ((l.session.log p.other r').reads.closed = true ∨
        data <+: (l.session.log p.other r').reads.read ++
          ((l.session.net.ends p.other).state r').inbound.buffered.flatten) := by
  have hout := (hi.carried.link p r hr).out
  have hwritten : l.written p r = (log p r).writes.written := (hi.writes hr).1
  have hsent : l.session.net.sentBy p r = [] := by
    rw [Net.sentBy, hempty]
    rfl
  rw [hwritten] at hdata hwaits
  rw [hi.alive p.other halive]
  unfold Manifest.waits at hwaits
  cases hm : l.session.net.mate p r with
  | none =>
    -- The other side knows nothing of the stream, so everything waits.
    rw [Net.farLog, hm, Net.link_of_not_mate hm] at hout
    have hall := hout.reading rfl
    rw [hsent] at hall
    have hlen := congrArg List.length hall
    simp [StreamState.new, InboundTraffic.new, InboundTraffic.buffered] at hlen
    refine .inl (List.length_eq_zero_iff.mp ?_)
    omega
  | some r' =>
    refine .inr ⟨r', rfl, ?_⟩
    rw [Net.farLog, hm, Net.link_of_mate hm] at hout
    cases hreading : ((l.session.net.ends p.other).state r').inbound.reading with
    | true =>
      have hall := hout.reading hreading
      rw [hsent, bytesInFlight_nil, List.append_nil] at hall
      have hlen : (log p r).writes.written.length =
          ((log p.other r').reads.read ++
            ((l.session.net.ends p.other).state r').inbound.buffered.flatten).length +
          ((l.session.net.ends p).state r).outbound.unsent.length := by
        rw [hall, List.length_append]
        rfl
      refine .inr (List.prefix_of_prefix_length_le hdata ?_ (by omega))
      rw [hall]
      exact List.prefix_append _ _
    | false =>
      obtain ⟨-, hclosed | ⟨-, -, hread⟩⟩ := hout.stopped hreading
      · exact .inl hclosed
      · refine .inr (hdata.trans ?_)
        rw [← hread]
        exact List.prefix_append _ _

/-- A downgrade loses nothing that was flushed before. The configurations of the two sides are
compatible, and a side is told that a stream is flushed, to which something was written, while its
connection is running. Later the other side is told that the downgrade began. By then it has the
counterpart of the stream, from which its application has read, or can still read, everything that
was written before the flush, unless it closed reading. (If nothing was written, the other side may
not know the stream: `SYN` goes with the first frame.) -/
theorem flushed_before_downgrade {w₁ w₂ w₃ : Wired} {a : Active} {r : StreamRef} {waker : Waker}
    {steps : List Step} {all : List (Action × Side.Answer)} {readings : List ReadTurn}
    {turns : List SendTurn} {future : Downgraded} (hc : Compatible config)
    (hbefore : (machine config clock).Run tr w₁) (hactive : (w₁.sides p).conn = .active a)
    (hwritten : (appLog tr p r).writes.written ≠ [])
    (hflush : w₁.step (.act p (.app r (.pollFlushed waker))) =
      .ok (.app (.app (.flushed (.ready ()))), w₂))
    (hbetween : (machine config clock).Path w₂ steps w₃)
    (hall : all = tr ++
      [(.act p (.app r (.pollFlushed waker)), .app (.app (.flushed (.ready ()))))] ++
      steps.map Lib.Machine.Taken.event)
    (hterm : w₃.step (.act p.other (.progress readings turns)) =
      .ok (.progressed (.ready (.ok (.downgraded future))), w)) :
    ∃ r', (w.streams p).Counterparts (w.streams p.other) r r' ∧
      ((appLog all p.other r').reads.closed = true ∨
        (appLog tr p r).writes.written <+: (appLog all p.other r').reads.read ++
          ((w.streams p.other).state r').inbound.buffered.flatten) := by
  -- When the stream is told that it is flushed, nothing waits in it.
  obtain ⟨l₁, hcarries₁, hlog₁, -⟩ := carries_of_run hc hbefore
  obtain ⟨hr, hnone⟩ := hcarries₁.flushed hactive hflush
  -- What was sent stays sent until the other side is told of the downgrade.
  obtain ⟨l₂, hcarries₂, hlog₂, -, hgoes₂⟩ := hcarries₁.step hc hflush
  rw [hlog₁, ← appLog_snoc tr (_, _)] at hlog₂
  obtain ⟨l₃, hcarries₃, hlog₃, hgoes₃⟩ := hcarries₂.path hc hlog₂ hbetween
  obtain ⟨l₄, hcarries₄, hdid⟩ := hcarries₃.act hc hterm
  obtain ⟨l₀, hl₀, hsteps, halive, hempty, rfl⟩ := hdid.drained rfl
  rw [RammuxRole.other_other] at hempty
  have hgoes := ((hgoes₂ p).trans (hgoes₃ p)).trans (hsteps.all_goOn p)
  have hwaits := hgoes.waits r hr
  rw [hnone, Nat.zero_add, Nat.add_comm] at hwaits
  have hlog : l₀.session.log = appLog all := by
    rw [hall, ← hlog₃]
    exact hdid.log
  rw [← hlog, ← hlog₁]
  -- By then nothing is in flight.
  obtain ⟨str, hrun⟩ := hl₀.reached
  obtain ⟨log, hi⟩ := Session.inv_of_run hc hrun
  obtain ⟨str₄, hrun₄⟩ := hcarries₄.valid.reached
  obtain ⟨log₄, hi₄⟩ := Session.inv_of_run hc hrun₄
  obtain hnil | ⟨r', hm, hreceived⟩ := Manifest.received hi hempty halive (hr.trans_le hgoes.next)
    (hgoes.written r) hwaits
  · exact absurd (hlog₁ ▸ hnil) hwritten
  · refine ⟨r', (hcarries₄.mate_iff hi₄).mp hm, ?_⟩
    have habort := l₀.abort_gone p.other
    have hgone := hcarries₄.gone (habort ▸ Option.some_ne_none _)
    have hstreams : w.streams p.other = (l₀.session.net.ends p.other).abort :=
      Option.some.inj (hgone.symm.trans habort)
    rwa [hstreams, Streams.abort_buffered]

/-- The client flushes and downgrades while everything is in flight. The server can still read all
of it when it is told of the downgrade. -/
theorem flushed_before_downgrade_in_flight : ∃ (w : Wired) (all : List (Action × Side.Answer)),
    (∃ (w₃ : Wired) (readings : List ReadTurn) (future : Downgraded),
      w₃.step (.act .server (.progress readings [])) =
        .ok (.progressed (.ready (.ok (.downgraded future))), w)) ∧
    ∃ r, (w.streams .client).Counterparts (w.streams .server) 0 r ∧
      ((appLog all .server r).reads.closed = true ∨
        [1, 2] <+: (appLog all .server r).reads.read ++
          ((w.streams .server).state r).inbound.buffered.flatten) := by
  -- The client opens a stream, writes to it, and its codec writes the frame.
  have hrun := Lib.Machine.Run.init (M := machine (fun _ => Streams.tightConfig) fun _ => ⟨0⟩)
    |>.step (a := .act .client (.open 0)) (o := .opened (.ok (some 0))) rfl
    |>.step (a := .act .client (.app 0 (.write [1, 2]))) (o := .app (.app (.written (.ok ()))))
      (by with_unfolding_all rfl)
    |>.step (a := .act .client (.progress []
      [⟨[], false, [(0, 0)], .pending⟩, ⟨[⟨0, .accept 9 true⟩], false, [], .pending⟩]))
      (o := .progressed .pending) (by with_unfolding_all rfl)
  obtain ⟨tr, w₁, w₂, w₃, w, steps, readings, future, hbefore, hwritten, ⟨a, hactive⟩, hflush,
      hbetween, hterm⟩ : ∃ (tr : List (Action × Side.Answer)) (w₁ w₂ w₃ w : Wired)
        (steps : List Step)
      (readings : List ReadTurn) (future : Downgraded),
      (machine (fun _ => Streams.tightConfig) fun _ => ⟨0⟩).Run tr w₁ ∧
      (appLog tr .client 0).writes.written = [1, 2] ∧
      (∃ a, (w₁.sides .client).conn = .active a) ∧
      w₁.step (.act .client (.app 0 (.pollFlushed 0))) =
        .ok (.app (.app (.flushed (.ready ()))), w₂) ∧
      (machine (fun _ => Streams.tightConfig) fun _ => ⟨0⟩).Path w₂ steps w₃ ∧
      w₃.step (.act .server (.progress readings [])) =
        .ok (.progressed (.ready (.ok (.downgraded future))), w) :=
    -- The flush succeeds; then come the downgrade, `TERM`, the transport, and the server's read.
    ⟨_, _, _, _, _, _, [⟨[.take 9 0, .take 9 0], false⟩], _, hrun, rfl,
      ⟨_, by with_unfolding_all rfl⟩, by with_unfolding_all rfl,
      .cons (a := .act .client .downgrade) (o := .downgraded (.ok ()))
        (by with_unfolding_all rfl) <|
      .cons (a := .act .client (.recover [] [⟨[], .pending⟩,
        ⟨[⟨0, .accept 9 true⟩], .ready (.ok ())⟩])) (o := .recovered .pending)
        (by with_unfolding_all rfl) <|
      .cons (a := .deliver .server 20) (o := .none) (by with_unfolding_all rfl) <|
      .cons (a := .act .server (.progress [⟨[.take 9 0, .take 9 0, .take 9 0], false⟩] []))
        (o := .progressed (.ready (.ok (.inbound 0)))) (by with_unfolding_all rfl) (.nil _),
      by with_unfolding_all rfl⟩
  obtain ⟨r, hpair, hreceived⟩ := flushed_before_downgrade (p := .client) Net.compatible_tight
    hbefore hactive (by rw [hwritten]; decide) hflush hbetween rfl hterm
  rw [hwritten] at hreceived
  exact ⟨w, _, ⟨w₃, readings, future, hterm⟩, r, hpair, hreceived⟩

end Wired

end Rammux
