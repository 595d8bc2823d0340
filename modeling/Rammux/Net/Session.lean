import Rammux.Connection.Endpoint
import Rammux.Net.Conservation
import Rammux.Net.Delivery

/-!
# Connections that end

A connection can be gone at one end: it failed, it was dropped, or it was downgraded. The streams of
this end are then aborted, and nothing is sent or received there any more. But its application still
holds the streams, and the other end may still receive what is in flight. `Session` adds this to the
two endpoints and the logs of their applications.

What an application reads after its connection is gone was received before, so it is still what the
other application wrote. The end of a stream means something only while the connection is there: an
abort looks like the end of the stream.
-/

namespace Rammux

/-- What an application can still do with a stream whose connection is gone, compared with the
stream and the log that the connection left: it reads what was received, and writes nothing. -/
structure Left (before after : StreamState) (log log' : AppLog) : Prop where
  writing : after.outbound.writing = false
  written : log'.writes.written = log.writes.written
  closed : log.writes.closed = true → log'.writes.closed = true
  read : log'.reads.read ++ after.inbound.buffered.flatten <+:
    log.reads.read ++ before.inbound.buffered.flatten

/-- What an aborted stream leaves to its application, it leaves whatever the application does. -/
theorem Left.app {before : StreamState} {c c' : StreamCtx} {log log' : AppLog} {op : AppOp}
    {me : StreamRef} {res : AppResult} (h : Left before c.state log log')
    (happ : c.app op me = .ok (res, c')) : Left before c'.state log (log'.record op res) := by
  cases op with
  | pollRead waker =>
    simp only [StreamCtx.app, Lib.bind_eq_ok] at happ
    obtain ⟨⟨chunk, i, wk⟩, hread, happ⟩ := happ
    cases happ
    refine ⟨h.writing, h.written, h.closed, ?_⟩
    rcases InboundTraffic.pollRead_cases hread with ⟨rfl, hb, -, -, rfl, -⟩ | ⟨rfl, -, rfl, -⟩ |
      ⟨data, rfl, ht, -⟩
    · have hread := h.read
      rw [hb] at hread
      exact hread
    · exact h.read
    · -- The chunk moves from the stream to the log.
      have hread := h.read
      rw [ht.buffered, List.flatten_cons, ← List.append_assoc] at hread
      exact hread
  | closeReading =>
    cases happ
    refine ⟨h.writing, h.written, h.closed, ?_⟩
    rcases c.state.inbound.closeReading_cases me c.wakes with ⟨-, hc⟩ | ⟨-, hc⟩
    · -- What was not read is gone with the reader; what was read still begins what came.
      simp only [hc, AppLog.record, ReadLog.record, InboundTraffic.buffered, List.flatten_nil,
        List.append_nil]
      exact (List.prefix_append _ _).trans h.read
    · simp only [hc, AppLog.record, ReadLog.record]
      exact h.read
  | pollWriteReady waker =>
    cases happ
    have hsame := (OutboundTraffic.pollWriteReady_rewaked c.state.outbound waker).same
    exact ⟨hsame.2.2.1.trans h.writing, h.written, h.closed, h.read⟩
  | write data =>
    cases happ
    -- A stream that was aborted takes no more data.
    rcases c.state.outbound.write_cases data me c.wakes with (⟨e, hc⟩ | ⟨hw, -, -⟩) | ⟨w, hs, -, -⟩
    · simp only [hc]
      exact ⟨h.writing, h.written, h.closed, h.read⟩
    · exact Bool.noConfusion (h.writing.symm.trans hw)
    · have hw : c.state.outbound.writing = true := by simp [OutboundTraffic.writing, hs]
      exact Bool.noConfusion (h.writing.symm.trans hw)
  | pollFlushed waker =>
    cases happ
    have hsame := (OutboundTraffic.pollFlushed_rewaked c.state.outbound waker).same
    exact ⟨hsame.2.2.1.trans h.writing, h.written, h.closed, h.read⟩
  | closeWriting =>
    cases happ
    rcases c.state.outbound.closeWriting_cases me c.wakes with ⟨-, hc⟩ | ⟨w, -, hc⟩ |
      ⟨d, w, -, -, hc⟩
    all_goals
      simp only [hc]
      exact ⟨by first | exact h.writing | rfl, h.written, fun _ => rfl, h.read⟩

/-! ## The machine -/

/-- Two endpoints whose connections can be gone, and the logs of their applications. -/
structure Session where
  /-- The connections. The end that is gone is the one that it was. -/
  net : Net
  /-- The streams that the application of an endpoint holds, once its connection is gone. -/
  gone : RammuxRole → Option Streams
  log : RammuxRole → StreamRef → AppLog

namespace Session

/-- A new connection. -/
def new (config : RammuxRole → RammuxConfig) : Session where
  net := Net.new config
  gone _ := none
  log _ _ := {}

/-- What happens to a session. -/
inductive Action where
  | act (a : Net.Action)
  /-- The connection of an endpoint fails, is dropped, or is downgraded. -/
  | abort (p : RammuxRole)

/-- One step of a session. An endpoint whose connection is gone does nothing, but its application
may use the streams. -/
def step (s : Session) : Action → Except Panic (Streams.Output × Session)
  | .act a =>
    match s.gone a.actor, a with
    | none, a => do
      let (o, net) ← s.net.step a
      return (o, { s with net, log := logAfter s.log a o })
    -- A side that has left keeps its streams for the application, and does nothing else.
    | some streams, .app p r op => do
      let (o, streams) ← streams.step (.app r op)
      let gone := Function.update s.gone p (some streams)
      return (o, { s with gone, log := logAfter s.log a o })
    | some _, _ => .ok (.none, s)
  | .abort p =>
    match s.gone p with
    | none =>
      .ok (.none, { s with gone := Function.update s.gone p (some (s.net.ends p).abort) })
    | some _ => .ok (.none, s)

/-- Sessions, from the start of the connection. -/
def machine (config : RammuxRole → RammuxConfig) :
    Lib.Machine Panic Session Action Streams.Output :=
  ⟨new config, step⟩

/-! ## Whole runs -/

/-- What an application has of the streams of a connection that is gone. -/
structure Follows (before after : Streams) (log log' : StreamRef → AppLog) : Prop where
  next : after.next = before.next
  left : ∀ r, r < before.next → Left (before.state r) (after.state r) (log r) (log' r)

/-- What holds in every run. `log` are the logs up to the moment when a connection was gone. -/
structure Inv (s : Session) (config : RammuxRole → RammuxConfig)
    (log : RammuxRole → StreamRef → AppLog) : Prop where
  net : s.net.Inv config
  starts : s.net.Starts
  carried : s.net.Carried log
  alive : ∀ p, s.gone p = none → s.log p = log p
  gone : ∀ p streams, s.gone p = some streams →
    Follows (s.net.ends p) streams (log p) (s.log p)

variable {config : RammuxRole → RammuxConfig} {s s' : Session} {p : RammuxRole}
  {log log' : RammuxRole → StreamRef → AppLog} {o : Streams.Output}

/-- A new session is in order, and nothing is logged. -/
theorem inv_new (config : RammuxRole → RammuxConfig) : (new config).Inv config fun _ _ => {} where
  net := Net.inv_new config
  starts := Net.starts_new config
  carried := Net.carried_new config
  alive _ _ := rfl
  gone _ _ h := nomatch h

/-- An event is logged by the endpoint that makes the step. -/
theorem logAfter_of_ne {a : Net.Action} (h : p ≠ a.actor) : logAfter log a o p = log p := by
  unfold logAfter
  split
  · exact Function.update_of_ne h _ _
  · rfl

/-- What an application does is logged for its own side. -/
theorem logAfter_congr {a : Net.Action} (h : log p = log' p) :
    logAfter log a o p = logAfter log' a o p := by
  by_cases hp : p = a.actor
  · unfold logAfter
    split
    · obtain rfl : p = _ := hp
      rw [Function.update_self, Function.update_self, h]
    · exact h
  · rw [logAfter_of_ne hp, logAfter_of_ne hp, h]

/-- A step of an endpoint whose connection is there. -/
theorem Inv.act (hi : s.Inv config log) (hc : Compatible config) {a : Net.Action} {net : Net}
    (halive : s.gone a.actor = none) (h : s.net.step a = .ok (o, net)) :
    ({ s with net, log := logAfter s.log a o } : Session).Inv config (logAfter log a o) := by
  obtain ⟨⟨hinv, hstarts⟩, -⟩ := Net.step_inv hc hi.net hi.starts h
  refine ⟨hinv, hstarts, Net.step_carried hc hi.net hi.starts hi.carried h,
    fun p hp => logAfter_congr (hi.alive p hp), fun p streams hp => ?_⟩
  have hne : p ≠ a.actor := by
    rintro rfl
    rw [show s.gone a.actor = some streams from hp] at halive
    nomatch halive
  have hends := (Net.step_ends h p).resolve_right fun ⟨he, _⟩ => hne he
  simp only [hends, logAfter_of_ne hne]
  exact hi.gone p streams hp

/-- The connection of an endpoint is gone, and its application does what it can. -/
theorem Inv.leave (hi : s.Inv config log) {streams : Streams}
    (hf : Follows (s.net.ends p) streams (log p) (log' p)) (hlog : ∀ q, q ≠ p → log' q = s.log q) :
    ({ s with gone := Function.update s.gone p (some streams), log := log' } : Session).Inv config
      log := by
  refine ⟨hi.net, hi.starts, hi.carried,
    fun q (hq : Function.update s.gone p (some streams) q = none) => ?_,
    fun q streams' (hq : Function.update s.gone p (some streams) q = some streams') => ?_⟩
  · have hne : q ≠ p := by
      rintro rfl
      rw [Function.update_self] at hq
      nomatch hq
    rw [Function.update_of_ne hne] at hq
    exact (hlog q hne).trans (hi.alive q hq)
  · by_cases hqp : q = p
    · subst hqp
      rw [Function.update_self] at hq
      obtain rfl := Option.some.inj hq
      exact hf
    · rw [Function.update_of_ne hqp] at hq
      simp only [hlog q hqp]
      exact hi.gone q streams' hq

/-- The application uses a stream whose connection is gone. -/
theorem Follows.app {before after after' : Streams} {r : StreamRef} {op : AppOp}
    (hf : Follows before after (log p) (log' p)) (h : after.step (.app r op) = .ok (o, after')) :
    Follows before after' (log p) (logAfter log' (.app p r op) o p) := by
  simp only [Streams.step] at h
  split at h
  · next hr =>
    simp only [Lib.bind_eq_ok] at h
    obtain ⟨⟨res, c⟩, happ, h⟩ := h
    cases h
    refine ⟨hf.next, fun r' hr' => ?_⟩
    simp only [logAfter, Function.update_self]
    by_cases hrr : r' = r
    · subst hrr
      rw [Streams.put_state_self, Function.update_self]
      exact (hf.left r' hr').app happ
    · rw [Streams.put_state_of_ne _ _ hrr, Function.update_of_ne hrr]
      exact hf.left r' hr'
  · cases h
    exact hf

/-- An abort leaves what was received. -/
theorem follows_abort {before : Streams} (ht : before.Tables) (log : StreamRef → AppLog) :
    Follows before before.abort log log where
  next := before.abort_names.1
  left r hr := ⟨Streams.abort_writing ht hr, rfl, id, by rw [Streams.abort_buffered]⟩

/-- Every step keeps the invariant. -/
theorem step_inv (hc : Compatible config) (hi : s.Inv config log) {a : Action}
    (h : s.step a = .ok (o, s')) : ∃ log', s'.Inv config log' := by
  cases a with
  | act a =>
    simp only [step] at h
    split at h
    · next a halive =>
      simp only [Lib.bind_eq_ok] at h
      obtain ⟨⟨o', net⟩, hstep, h⟩ := h
      cases h
      exact ⟨_, hi.act hc halive hstep⟩
    · next streams p r op hgone =>
      simp only [Lib.bind_eq_ok] at h
      obtain ⟨⟨o', streams'⟩, hstep, h⟩ := h
      cases h
      exact ⟨_, hi.leave ((hi.gone p streams hgone).app hstep) fun q hq => logAfter_of_ne hq⟩
    · cases h
      exact ⟨_, hi⟩
  | abort p =>
    simp only [step] at h
    split at h
    · next halive =>
      cases h
      refine ⟨_, hi.leave (?_ : Follows _ _ _ (s.log p)) fun _ _ => rfl⟩
      rw [hi.alive p halive]
      exact follows_abort (hi.net.sane p).tables _
    · cases h
      exact ⟨_, hi⟩

/-- Every run leaves the session in order. -/
theorem inv_of_run {tr : List (Action × Streams.Output)} (hc : Compatible config)
    (h : (machine config).Run tr s) : ∃ log, s.Inv config log :=
  h.invariant (I := fun _ s => ∃ log, s.Inv config log) ⟨_, inv_new config⟩
    fun _ _ _ _ _ _ ⟨_, hi⟩ hstep => step_inv hc hi hstep

/-- What an application wrote is what the connection took from it, whether it is gone or not. -/
theorem Inv.writes (hi : s.Inv config log) {r : StreamRef} (hr : r < (s.net.ends p).next) :
    (s.log p r).writes.written = (log p r).writes.written ∧
      ((log p r).writes.closed = true → (s.log p r).writes.closed = true) := by
  cases hg : s.gone p with
  | none =>
    rw [hi.alive p hg]
    exact ⟨rfl, id⟩
  | some streams =>
    have hleft := (hi.gone p streams hg).left r hr
    exact ⟨hleft.written, hleft.closed⟩

/-- What an application read is among what the connection received for it. -/
theorem Inv.reads (hi : s.Inv config log) {r : StreamRef} (hr : r < (s.net.ends p).next) :
    (s.log p r).reads.read <+:
      (log p r).reads.read ++ ((s.net.ends p).state r).inbound.buffered.flatten := by
  cases hg : s.gone p with
  | none =>
    rw [hi.alive p hg]
    exact List.prefix_append _ _
  | some streams =>
    exact (List.prefix_append _ _).trans ((hi.gone p streams hg).left r hr).read

/-- What an application reads is what the application at the other end of the stream writes: at
every moment it has read a prefix of what was written. When it gets the end of the stream, and has
neither closed reading nor lost the connection, then the other application closed writing, and
everything was read. -/
theorem delivered_in_order {tr : List (Action × Streams.Output)} (hc : Compatible config)
    (h : (machine config).Run tr s) {r r' : StreamRef} (hm : s.net.mate p r = some r') :
    (s.log p r).reads.read <+: (s.log p.other r').writes.written ∧
      (s.gone p = none → (s.log p r).reads.sawEnd = true →
        (s.log p.other r').writes.closed = true ∧
          (s.log p r).reads.read = (s.log p.other r').writes.written) := by
  obtain ⟨log, hi⟩ := inv_of_run hc h
  have hr := hi.net.mate_lt p r r' hm
  obtain ⟨hwritten, hclosed⟩ := hi.writes (hi.net.mate_lt' hm)
  have hback := (hi.carried.link p r hr).back
  rw [Net.farLog, hm, Net.link_of_mate hm] at hback
  rw [hwritten]
  refine ⟨(hi.reads hr).trans hback.received_in_order, fun halive hsaw => ?_⟩
  rw [hi.alive p halive] at hsaw ⊢
  obtain ⟨-, -, hw, hall⟩ := hback.sawEnd hsaw
  exact ⟨hclosed hw, hall⟩

/-- The client writes, closes writing, and aborts the connection while the frame is in flight. The
server still reads everything, and then the end of the stream. -/
theorem delivered_in_order_aborted : ∃ tr s, (machine fun _ => Streams.tightConfig).Run tr s ∧
    s.gone .client ≠ none ∧ (s.log .server 0).reads.sawEnd = true ∧
    (s.log .client 0).writes.closed = true ∧
    (s.log .server 0).reads.read = (s.log .client 0).writes.written ∧
    (s.log .client 0).writes.written = [1, 2] := by
  have h := Lib.Machine.Run.init (M := machine fun _ => Streams.tightConfig)
    |>.step (a := .act (.open .client 0)) rfl
    |>.step (a := .act (.app .client 0 (.write [1, 2]))) rfl
    |>.step (a := .act (.app .client 0 .closeWriting)) rfl
    |>.step (a := .act (.poll .client 0 0)) (by with_unfolding_all rfl)
    |>.step (a := .abort .client) (by with_unfolding_all rfl)
    |>.step (a := .act (.app .client 0 (.write [3]))) (by with_unfolding_all rfl)
    |>.step (a := .act (.deliver .client)) (by with_unfolding_all rfl)
    |>.step (a := .act (.app .server 0 (.pollRead 0))) (by with_unfolding_all rfl)
    |>.step (a := .act (.app .server 0 (.pollRead 0))) (by with_unfolding_all rfl)
  have hsaw := (delivered_in_order Net.compatible_tight h (p := .server) (r := 0)
    (by with_unfolding_all rfl)).2 (by with_unfolding_all rfl) (by decide +kernel)
  exact ⟨_, _, h, nofun, by decide +kernel, hsaw.1, hsaw.2, by decide +kernel⟩

end Session

end Rammux
