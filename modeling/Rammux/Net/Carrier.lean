import Rammux.Connection.Chatter
import Rammux.Connection.Handover
import Rammux.Net.Session
import Rammux.Net.Wired
import Rammux.Wire.Peer

/-!
# The bytes carry the frames

`Wired` is two connections over transports that carry bytes; `Session` is two endpoints that hand
whole frames to each other. Here the first is shown to do what the second does. Each frame that a
connection composes is a poll of a task there, each frame that it decodes is a frame delivered
there, and a connection that stops, for whatever reason, is an endpoint whose streams are aborted.

The relation between the two (`Carries`) says where each frame is: `sent` are the frames that a side
handed to its codec, `near` of which the other side has decoded, so the rest are in flight in the
session. They are in flight as bytes in many ways: not written at all, written in part, on the way,
waiting to be read, or read in part. What `Wire/Peer.lean` says about two codecs covers all of
these.

So what holds of the frames holds of the bytes. Two sides with compatible configurations fail only
with their transports (`fails_only_with_transport`), and what one application reads from a stream is
what the other one writes to it (`delivered_over_bytes`).
-/

namespace Rammux

/-! ## What waits to be sent -/

/-- The log of an application has what it wrote. -/
theorem WriteLog.length_record (log : WriteLog) (op : AppOp) (res : AppResult) :
    (log.record op res).written.length = log.written.length + op.wrote res := by
  unfold AppOp.wrote
  split
  · exact List.length_append
  · next hno =>
    unfold WriteLog.record
    split
    · exact absurd rfl (hno _ rfl)
    · rfl
    · rfl

namespace Streams

variable {s s' : Streams} {a : Streams.Action} {o : Streams.Output} {r : StreamRef}

/-- What is not done by the application sends what waits, or drops it. -/
theorem unsent_le (h : s.step a = .ok (o, s')) (hr : r < s.next) (happ : ∀ op, a ≠ .app r op) :
    (s'.state r).outbound.unsent.length ≤ (s.state r).outbound.unsent.length := by
  rcases step_unsent h hr happ with ⟨hunsent, -⟩ | ⟨-, -, hclosed⟩
  · rw [hunsent, List.length_append]
    exact Nat.le_add_left _ _
  · rw [OutboundTraffic.unsent_of_finReceived hclosed]
    exact Nat.zero_le _

/-- So what was sent of what the application wrote is sent for good. -/
theorem waits_le {r' : StreamRef} {op : AppOp} (h : s.step (.app r op) = .ok (o, s'))
    (hr' : r' < s.next) (log : RammuxRole → StreamRef → AppLog) (p : RammuxRole) :
    (s'.state r').outbound.unsent.length + (log p r').writes.written.length ≤
      (s.state r').outbound.unsent.length +
        (logAfter log (.app p r op) o p r').writes.written.length := by
  by_cases heq : r' = r
  · subst heq
    rw [step, if_pos hr'] at h
    obtain ⟨⟨res, c⟩, happ, h⟩ := Lib.bind_eq_ok.mp h
    cases h
    rw [put_state_self, logAfter, Function.update_self, Function.update_self]
    have hlog : ((log p r').record op res).writes.written.length =
        (log p r').writes.written.length + op.wrote res := WriteLog.length_record _ op res
    have hunsent := StreamCtx.app_unsent happ
    rw [hlog]
    change _ ≤ (s.state r').outbound.unsent.length + _ at hunsent
    omega
  · have hlog : logAfter log (.app p r op) o p r' = log p r' := by
      cases o with
      | app res => rw [logAfter, Function.update_self, Function.update_of_ne heq]
      | _ => rfl
    rw [hlog]
    refine Nat.add_le_add_right (unsent_le h hr' ?_) _
    intro op' ha
    exact heq (Action.app.inj ha).1.symm

end Streams

/-- What an application wrote stays written. -/
theorem logAfter_written (log : RammuxRole → StreamRef → AppLog) (a : Net.Action)
    (o : Streams.Output) (p : RammuxRole) (r : StreamRef) :
    (log p r).writes.written <+: (logAfter log a o p r).writes.written := by
  have hrecord (log : WriteLog) (op : AppOp) (res : AppResult) :
      log.written <+: (log.record op res).written := by
    unfold WriteLog.record
    split
    · exact List.prefix_append _ _
    · exact List.prefix_rfl
    · exact List.prefix_rfl
  unfold logAfter
  split
  · next q r' op res =>
    by_cases hq : p = q
    · subst hq
      rw [Function.update_self]
      by_cases hr : r = r'
      · subst hr
        rw [Function.update_self]
        exact hrecord _ op res
      · rw [Function.update_of_ne hr]
    · rw [Function.update_of_ne hq]
  · exact List.prefix_rfl

/-! ## Steps of a session -/

namespace Session

variable {config : RammuxRole → RammuxConfig} {p : RammuxRole} {s s' s'' : Session}

/-- The sessions that there can be. -/
def Reached (config : RammuxRole → RammuxConfig) (s : Session) : Prop :=
  ∃ tr, (machine config).Run tr s

/-- What a connection does on its own account leaves the other connection and the logs
as they are. -/
structure Moves (p : RammuxRole) (s s' : Session) : Prop where
  ends : s'.net.ends p.other = s.net.ends p.other
  gone : s'.gone = s.gone
  log : s'.log = s.log
  next : (s.net.ends p).next ≤ (s'.net.ends p).next
  unsent : ∀ r < (s.net.ends p).next, ((s'.net.ends p).state r).outbound.unsent.length ≤
    ((s.net.ends p).state r).outbound.unsent.length

/-- Where nothing happens the session stays. -/
theorem Moves.refl (p : RammuxRole) (s : Session) : s.Moves p s :=
  ⟨rfl, rfl, rfl, le_rfl, fun _ _ => le_rfl⟩

/-- What a side does on its own account in two parts is done on its own account. -/
theorem Moves.trans (h : s.Moves p s') (h' : s'.Moves p s'') : s.Moves p s'' :=
  ⟨h'.ends.trans h.ends, h'.gone.trans h.gone, h'.log.trans h.log, h.next.trans h'.next,
    fun r hr => (h'.unsent r (hr.trans_le h.next)).trans (h.unsent r hr)⟩

/-- A step of the streams that is not the application's. -/
theorem Moves.of_step {a : Streams.Action} {o : Streams.Output} {streams : Streams}
    (hstep : (s.net.ends p).step a = .ok (o, streams)) (happ : ∀ r op, a ≠ .app r op)
    (hself : s'.net.ends p = streams) (hother : s'.net.ends p.other = s.net.ends p.other)
    (hgone : s'.gone = s.gone) (hlog : s'.log = s.log) : s.Moves p s' := by
  refine ⟨hother, hgone, hlog, ?_, fun r hr => ?_⟩
  · rw [hself]
    exact Streams.next_le_of_step hstep
  · rw [hself]
    exact Streams.unsent_le hstep hr (happ r)

/-- A new session is reached. -/
theorem reached_new (config : RammuxRole → RammuxConfig) : (new config).Reached config :=
  ⟨[], .init⟩

/-- A step of an endpoint whose connection is there. -/
theorem Reached.act {a : Net.Action} {o : Streams.Output} {net : Net} (h : s.Reached config)
    (halive : s.gone a.actor = none) (hstep : s.net.step a = .ok (o, net)) :
    ({ s with net, log := logAfter s.log a o } : Session).Reached config := by
  obtain ⟨tr, hrun⟩ := h
  refine ⟨tr ++ [(.act a, o)], hrun.step ?_⟩
  change s.step (.act a) = _
  simp only [step, halive]
  exact Lib.bind_eq_ok.mpr ⟨_, hstep, rfl⟩

/-- The connection of an endpoint is gone. -/
theorem Reached.abort (h : s.Reached config) (halive : s.gone p = none) :
    ({ s with gone := Function.update s.gone p (some (s.net.ends p).abort) } :
      Session).Reached config := by
  obtain ⟨tr, hrun⟩ := h
  refine ⟨tr ++ [(.abort p, .none)], hrun.step ?_⟩
  change s.step (.abort p) = _
  simp only [step, halive]

/-- The application of an endpoint whose connection is gone uses a stream. -/
theorem Reached.app_gone {r : StreamRef} {op : AppOp} {o : Streams.Output}
    {streams streams' : Streams}
    (h : s.Reached config) (hgone : s.gone p = some streams)
    (hstep : streams.step (.app r op) = .ok (o, streams')) :
    ({ s with
      gone := Function.update s.gone p (some streams')
      log := logAfter s.log (.app p r op) o } : Session).Reached config := by
  obtain ⟨tr, hrun⟩ := h
  refine ⟨tr ++ [(.act (.app p r op), o)], hrun.step ?_⟩
  change s.step (.act (.app p r op)) = _
  have hactor : s.gone (Net.Action.app p r op).actor = some streams := hgone
  simp only [step, hactor]
  exact Lib.bind_eq_ok.mpr ⟨_, hstep, rfl⟩

/-- The selector polls tasks, until one of them has an update. -/
theorem Reached.pollTasks {polls : List (StreamRef × ℚ≥0)} {update : Poll StreamUpdate}
    {streams : Streams} (h : s.Reached config) (halive : s.gone p = none)
    (hpoll : (s.net.ends p).pollTasks polls = .ok (update, streams)) :
    ∃ s', s'.Reached config ∧ s.Moves p s' ∧ s'.net.ends p = streams ∧
      s'.net.wire p.other = s.net.wire p.other ∧
      (update = .pending ∧ s'.net.wire p = s.net.wire p ∨
        ∃ u r, update = .ready u ∧ s'.net.wire p = s.net.wire p ++ [u.packet r]) := by
  induction polls generalizing s with
  | nil =>
    cases hpoll
    exact ⟨s, h, .refl p s, rfl, rfl, .inl ⟨rfl, rfl⟩⟩
  | cons poll polls ih =>
    obtain ⟨⟨res, s₁⟩, hone, hrest⟩ := Lib.bind_eq_ok.mp hpoll
    have hact : s.net.act p (.poll poll.1 poll.2) = .ok (.polled res, s.net.put p s₁) :=
      Net.act_eq_ok.mpr ⟨s₁, Lib.bind_eq_ok.mpr ⟨_, hone, rfl⟩, rfl⟩
    have hstep : s.net.step (.poll p poll.1 poll.2) =
        .ok (.polled res, (s.net.put p s₁).send p poll.1 (.polled res)) :=
      Lib.bind_eq_ok.mpr ⟨_, hact, rfl⟩
    have hreached := h.act (a := .poll p poll.1 poll.2) halive hstep
    have hpolled : (s.net.ends p).step (.poll poll.1 poll.2) = .ok (.polled res, s₁) :=
      Lib.bind_eq_ok.mpr ⟨_, hone, rfl⟩
    have hother : ((s.net.put p s₁).send p poll.1 (.polled res)).ends p.other =
        s.net.ends p.other := by
      rw [Net.send_ends, Net.put_ends_other]
    have hself : ((s.net.put p s₁).send p poll.1 (.polled res)).ends p = s₁ := by
      rw [Net.send_ends, Net.put_ends_self]
    have hmoves : s.Moves p { s with
        net := (s.net.put p s₁).send p poll.1 (.polled res)
        log := logAfter s.log (.poll p poll.1 poll.2) (.polled res) } :=
      .of_step hpolled (by simp) hself hother rfl rfl
    cases res with
    | ready u =>
      cases hrest
      refine ⟨_, hreached, hmoves, hself, ?_, .inr ⟨u, poll.1, rfl, ?_⟩⟩
      · exact Function.update_of_ne p.other_ne _ _
      · exact Function.update_self _ _ _
    | pending =>
      -- A task that has nothing to send leaves the wire as it is.
      have hrest' : s₁.pollTasks polls = .ok (update, streams) := hrest
      obtain ⟨s', hreached', hmoves', hends, hwire, hupdate⟩ := ih hreached halive (by
        change (((s.net.put p s₁).send p poll.1 (.polled .pending)).ends p).pollTasks polls = _
        rw [hself]
        exact hrest')
      exact ⟨s', hreached', hmoves.trans hmoves', hends, hwire, hupdate⟩

/-- A round trip is sampled. -/
theorem Reached.observe (h : s.Reached config) (halive : s.gone p = none) (rtt : ℚ) :
    ∃ s', s'.Reached config ∧ s.Moves p s' ∧ s'.net.wire = s.net.wire ∧
      s'.net.ends p = { s.net.ends p with
        flow := { (s.net.ends p).flow with srtt := (s.net.ends p).flow.srtt.observe rtt } } := by
  have hstep : s.net.step (.observe p rtt) = .ok (.none, s.net.put p _) :=
    Net.act_eq_ok.mpr ⟨_, rfl, rfl⟩
  have hreached := h.act (a := .observe p rtt) halive hstep
  refine ⟨_, hreached, .of_step (a := .observe rtt) rfl (by simp) ?_ ?_ rfl rfl, rfl, ?_⟩
  · exact Net.put_ends_self _ _ _
  · exact Net.put_ends_other _ _ _
  · exact Net.put_ends_self _ _ _

/-- An endpoint receives the next frame, and has nothing to say against it. -/
theorem Reached.receive {pkt : Packet} {rest : List Packet} {streams : Streams}
    {result : Except StreamViolation (Option StreamRef)} (hc : Compatible config)
    (h : s.Reached config) (halive : s.gone p = none) (hwire : s.net.wire p.other = pkt :: rest)
    (hrec : (s.net.ends p).receive pkt.header pkt.data = .ok (result, streams)) :
    ∃ newStream s', result = .ok newStream ∧ s'.Reached config ∧ s.Moves p s' ∧
      s'.net.ends p = streams ∧ s'.net.wire p.other = rest ∧ s'.net.wire p = s.net.wire p := by
  have hact : s.net.act p.other.other (.receive pkt.header pkt.data) =
      .ok (.received result, s.net.put p streams) := by
    rw [RammuxRole.other_other]
    exact Net.act_eq_ok.mpr ⟨streams, Lib.bind_eq_ok.mpr ⟨_, hrec, rfl⟩, rfl⟩
  obtain ⟨net, hstep, hends, hrest⟩ : ∃ net, s.net.step (.deliver p.other) =
      .ok (.received result, net) ∧ net.ends = (s.net.put p streams).ends ∧
        net.wire = Function.update s.net.wire p.other rest := by
    refine ⟨({ s.net.put p streams with wire := Function.update s.net.wire p.other rest } :
      Net).pair p.other pkt.src (.received result), ?_, Net.pair_ends _ _ _ _, ?_⟩
    · simp only [Net.step, hwire]
      exact Lib.bind_eq_ok.mpr ⟨_, hact, rfl⟩
    · unfold Net.pair
      cases result with
      | error v => rfl
      | ok newStream => cases newStream <;> rfl
  -- A reachable session answers no frame with a violation.
  obtain ⟨tr, hrun⟩ := id h
  obtain ⟨log, hi⟩ := inv_of_run hc hrun
  have hok := (Net.step_inv hc hi.net hi.starts hstep).2
  have hactor : s.gone (Net.Action.deliver p.other).actor = none := by
    rw [Net.Action.actor, RammuxRole.other_other]
    exact halive
  have hreached := h.act hactor hstep
  cases result with
  | error v => exact absurd rfl (hok v)
  | ok newStream =>
    have hself : net.ends p = streams := by rw [hends, Net.put_ends_self]
    have hreceived : (s.net.ends p).step (.receive pkt.header pkt.data) =
        .ok (.received (.ok newStream), streams) := Lib.bind_eq_ok.mpr ⟨_, hrec, rfl⟩
    refine ⟨newStream, _, rfl, hreached, .of_step hreceived (by simp) hself ?_ rfl rfl, hself,
      ?_, ?_⟩
    · rw [hends, Net.put_ends_other]
    · rw [hrest, Function.update_self]
    · rw [hrest, Function.update_of_ne p.other_ne.symm]

end Session

/-! ## Frames and their streams -/

/-- The stream part of a frame that a stream is the source of, as it is in flight. -/
def OutFrame.packet (f : OutFrame) (r : StreamRef) : Option Packet :=
  (f.header 0).stream.map fun header => ⟨r, header, f.data⟩

/-- What is in flight of frames that were handed to a codec, each with the stream that its stream
part is from. -/
def packets (sent : List (OutFrame × StreamRef)) : List Packet :=
  sent.filterMap fun e => e.1.packet e.2

/-- What is in flight of one more frame. -/
theorem packets_cons (e : OutFrame × StreamRef) (sent : List (OutFrame × StreamRef)) :
    packets (e :: sent) = (e.1.packet e.2).toList ++ packets sent := by
  unfold packets
  rw [List.filterMap_cons]
  cases e.1.packet e.2 <;> rfl

/-- One more frame is handed over, of which nothing was decoded. -/
theorem packets_drop_concat {sent : List (OutFrame × StreamRef)} {n : ℕ} (h : n ≤ sent.length)
    (e : OutFrame × StreamRef) :
    packets ((sent ++ [e]).drop n) = packets (sent.drop n) ++ (e.1.packet e.2).toList := by
  have hlast : packets [e] = (e.1.packet e.2).toList := by
    rw [packets_cons]
    exact List.append_nil _
  rw [List.drop_append_of_le_length h, ← hlast]
  exact List.filterMap_append

/-- One more frame is decoded. -/
theorem packets_drop {sent : List (OutFrame × StreamRef)} {n : ℕ} {e : OutFrame × StreamRef}
    (h : sent[n]? = some e) :
    packets (sent.drop n) = (e.1.packet e.2).toList ++ packets (sent.drop (n + 1)) := by
  obtain ⟨hn, rfl⟩ := List.getElem?_eq_some_iff.mp h
  rw [List.drop_eq_getElem_cons hn, packets_cons]

/-- A frame composed with the update of a stream is the update of the stream in flight. -/
theorem OutFrame.packet_compose (part : Option Pong × Bool) (u : StreamUpdate) (r : StreamRef) :
    (OutFrame.compose part (.ready u)).packet r = some (u.packet r) := rfl

/-- A frame without a stream part puts nothing in flight. -/
theorem OutFrame.packet_compose_pending (part : Option Pong × Bool) (r : StreamRef) :
    (OutFrame.compose part .pending).packet r = none := rfl

/-! ## Where the frames are -/

/-- A session, with the frames that each side handed to its codec. Each has the stream that its
stream part is from. -/
structure Manifest where
  session : Session
  sent : RammuxRole → List (OutFrame × StreamRef)
  /-- How many of the frames of a side the other side has decoded. -/
  decoded : RammuxRole → ℕ

namespace Manifest

variable {config : RammuxRole → RammuxConfig} {p : RammuxRole} {l l' l'' : Manifest}

/-- The frames that a side handed to its codec. -/
def frames (l : Manifest) (p : RammuxRole) : List OutFrame := (l.sent p).map Prod.fst

/-- The frames that are not decoded are those in flight. -/
structure Valid (config : RammuxRole → RammuxConfig) (l : Manifest) : Prop where
  reached : l.session.Reached config
  wire : ∀ p, l.session.net.wire p = packets ((l.sent p).drop (l.decoded p))
  decoded_le : ∀ p, l.decoded p ≤ (l.sent p).length
  plain : ∀ p, ∀ f ∈ l.frames p, f.term = false ∧ f.data.length ≤ (config p).frameLimit

/-- What a connection does on its own account leaves the frames of the other connection as they are,
and how many of its own were decoded. -/
structure Moves (p : RammuxRole) (l l' : Manifest) : Prop where
  session : l.session.Moves p l'.session
  sent : l'.sent p.other = l.sent p.other
  decoded : l'.decoded p = l.decoded p

/-- Where nothing happens the manifest stays. -/
theorem Moves.refl (p : RammuxRole) (l : Manifest) : l.Moves p l := ⟨.refl p _, rfl, rfl⟩

/-- What a side does on its own account in two parts is done on its own account. -/
theorem Moves.trans (h : l.Moves p l') (h' : l'.Moves p l'') : l.Moves p l'' :=
  ⟨h.session.trans h'.session, h'.sent.trans h.sent, h'.decoded.trans h.decoded⟩

/-- A side decodes the next frame of the other one. -/
def decode (l : Manifest) (p : RammuxRole) (session : Session) : Manifest :=
  { l with session, decoded := Function.update l.decoded p.other (l.decoded p.other + 1) }

/-- A side hands a frame to its codec. -/
def hand (l : Manifest) (p : RammuxRole) (session : Session) (e : OutFrame × StreamRef) :
    Manifest :=
  { l with session, sent := Function.update l.sent p (l.sent p ++ [e]) }

/-- Decoding a frame is something that a side does on its own account. -/
theorem decode_moves {s : Session} (h : l.session.Moves p s) : l.Moves p (l.decode p s) :=
  ⟨h, rfl, Function.update_of_ne p.other_ne.symm _ _⟩

/-- Handing a frame to the codec is something that a side does on its own account. -/
theorem hand_moves {s : Session} (h : l.session.Moves p s) (e : OutFrame × StreamRef) :
    l.Moves p (l.hand p s e) :=
  ⟨h, Function.update_of_ne p.other_ne _ _, rfl⟩

/-- One more frame of the peer is decoded. -/
theorem decode_decoded (l : Manifest) (p : RammuxRole) (s : Session) :
    (l.decode p s).decoded p.other = l.decoded p.other + 1 := Function.update_self _ _ _

/-- One more frame is handed to the codec. -/
theorem hand_sent (l : Manifest) (p : RammuxRole) (s : Session) (e : OutFrame × StreamRef) :
    (l.hand p s e).sent p = l.sent p ++ [e] := Function.update_self _ _ _

/-- The other side is handed nothing. -/
theorem hand_sent_other (l : Manifest) (p : RammuxRole) (s : Session) (e : OutFrame × StreamRef) :
    (l.hand p s e).sent p.other = l.sent p.other := Function.update_of_ne p.other_ne _ _

/-- The frames that were handed over are those before and the new one. -/
theorem hand_frames (l : Manifest) (p : RammuxRole) (s : Session) (e : OutFrame × StreamRef) :
    (l.hand p s e).frames p = l.frames p ++ [e.1] := by
  rw [frames, hand_sent, List.map_append]
  rfl

/-- What leaves the frames in flight as they are. -/
theorem Valid.put {s : Session} (h : l.Valid config) (hreached : s.Reached config)
    (hwire : ∀ p, s.net.wire p = l.session.net.wire p) : ({ l with session := s }).Valid config :=
  ⟨hreached, fun p => (hwire p).trans (h.wire p), h.decoded_le, h.plain⟩

/-- A manifest stays valid when the next frame is decoded, and the session takes what it carries. -/
theorem Valid.decode {s : Session} {e : OutFrame × StreamRef} (h : l.Valid config)
    (hreached : s.Reached config) (hmoves : l.session.Moves p s)
    (he : (l.sent p.other)[l.decoded p.other]? = some e)
    (hother : s.net.wire p.other = packets ((l.sent p.other).drop (l.decoded p.other + 1)))
    (hself : s.net.wire p = l.session.net.wire p) : (l.decode p s).Valid config where
  reached := hreached
  wire q := by
    rcases RammuxRole.eq_or_eq_other p q with rfl | rfl
    · rw [(decode_moves hmoves).decoded]
      exact hself.trans (h.wire q)
    · rw [decode_decoded]
      exact hother
  decoded_le q := by
    rcases RammuxRole.eq_or_eq_other p q with rfl | rfl
    · rw [(decode_moves hmoves).decoded]
      exact h.decoded_le q
    · rw [decode_decoded]
      exact (List.getElem?_eq_some_iff.mp he).1
  plain := h.plain

/-- A manifest stays valid when a frame is handed over, and the session sends what it carries. -/
theorem Valid.hand {s : Session} {e : OutFrame × StreamRef} (h : l.Valid config)
    (hreached : s.Reached config)
    (hself : s.net.wire p = l.session.net.wire p ++ (e.1.packet e.2).toList)
    (hother : s.net.wire p.other = l.session.net.wire p.other)
    (hplain : e.1.term = false ∧ e.1.data.length ≤ (config p).frameLimit) :
    (l.hand p s e).Valid config where
  reached := hreached
  wire q := by
    rcases RammuxRole.eq_or_eq_other p q with rfl | rfl
    · rw [hand_sent]
      calc s.net.wire q
        _ = packets ((l.sent q).drop (l.decoded q)) ++ (e.1.packet e.2).toList := by
          rw [hself, h.wire]
        _ = packets ((l.sent q ++ [e]).drop (l.decoded q)) :=
          (packets_drop_concat (h.decoded_le q) e).symm
    · rw [hand_sent_other]
      exact hother.trans (h.wire _)
  decoded_le q := by
    rcases RammuxRole.eq_or_eq_other p q with rfl | rfl
    · rw [hand_sent, List.length_append]
      exact (h.decoded_le q).trans (Nat.le_add_right _ _)
    · rw [hand_sent_other]
      exact h.decoded_le _
  plain q f hf := by
    rcases RammuxRole.eq_or_eq_other p q with rfl | rfl
    · rw [hand_frames] at hf
      rcases List.mem_append.mp hf with hf | hf
      · exact h.plain q f hf
      · rw [List.mem_singleton.mp hf]
        exact hplain
    · rw [frames, hand_sent_other] at hf
      exact h.plain _ f hf

/-- How many of the bytes that the application wrote to a stream wait to be sent. -/
def waits (l : Manifest) (p : RammuxRole) (r : StreamRef) : ℕ :=
  ((l.session.net.ends p).state r).outbound.unsent.length

/-- What the application wrote to a stream. -/
def written (l : Manifest) (p : RammuxRole) (r : StreamRef) : Bytes :=
  (l.session.log p r).writes.written

/-- A stream goes on: what was written stays written, and what was sent stays sent. -/
structure GoesOn (p : RammuxRole) (l l' : Manifest) : Prop where
  next : (l.session.net.ends p).next ≤ (l'.session.net.ends p).next
  written : ∀ r, l.written p r <+: l'.written p r
  waits : ∀ r < (l.session.net.ends p).next,
    l'.waits p r + (l.written p r).length ≤ l.waits p r + (l'.written p r).length

/-- A stream goes on where nothing happens. -/
theorem GoesOn.refl (p : RammuxRole) (l : Manifest) : l.GoesOn p l :=
  ⟨le_rfl, fun _ => List.prefix_rfl, fun _ _ => le_rfl⟩

/-- What goes on, and goes on from there, goes on. -/
theorem GoesOn.trans (h : l.GoesOn p l') (h' : l'.GoesOn p l'') : l.GoesOn p l'' where
  next := h.next.trans h'.next
  written r := (h.written r).trans (h'.written r)
  waits r hr := by
    have hfirst := h.waits r hr
    have hsecond := h'.waits r (hr.trans_le h.next)
    omega

/-- What a side does leaves the other side's streams and frames as they are. -/
structure Steps (p : RammuxRole) (l l' : Manifest) : Prop where
  ends : l'.session.net.ends p.other = l.session.net.ends p.other
  gone : l'.session.gone p.other = l.session.gone p.other
  log : l'.session.log p.other = l.session.log p.other
  sent : l'.sent p.other = l.sent p.other
  decoded : l'.decoded p = l.decoded p
  goesOn : l.GoesOn p l'

/-- Where nothing happens no step is made. -/
theorem Steps.refl (p : RammuxRole) (l : Manifest) : l.Steps p l :=
  ⟨rfl, rfl, rfl, rfl, rfl, .refl p l⟩

/-- Steps after steps are steps. -/
theorem Steps.trans (h : l.Steps p l') (h' : l'.Steps p l'') : l.Steps p l'' :=
  ⟨h'.ends.trans h.ends, h'.gone.trans h.gone, h'.log.trans h.log, h'.sent.trans h.sent,
    h'.decoded.trans h.decoded, h.goesOn.trans h'.goesOn⟩

/-- What a side does on its own account is some steps of the session. -/
theorem Moves.steps (h : l.Moves p l') : l.Steps p l' where
  ends := h.session.ends
  gone := congrFun h.session.gone _
  log := congrFun h.session.log _
  sent := h.sent
  decoded := h.decoded
  goesOn := by
    have hwritten (r : StreamRef) : l'.written p r = l.written p r := by
      rw [Manifest.written, h.session.log]
      rfl
    refine ⟨h.session.next, fun r => (hwritten r).symm ▸ List.prefix_rfl, fun r hr => ?_⟩
    rw [hwritten r]
    exact Nat.add_le_add_right (h.session.unsent r hr) _

/-- The connection of a side is gone. -/
def abort (l : Manifest) (p : RammuxRole) : Manifest :=
  { l with session := { l.session with
      gone := Function.update l.session.gone p (some (l.session.net.ends p).abort) } }

/-- The abort of a side is a step of the session. -/
theorem abort_steps (l : Manifest) (p : RammuxRole) : l.Steps p (l.abort p) :=
  ⟨rfl, Function.update_of_ne p.other_ne _ _, rfl, rfl, rfl,
    le_rfl, fun _ => List.prefix_rfl, fun _ _ => le_rfl⟩

/-- A side that was aborted is gone, and has left its streams. -/
theorem abort_gone (l : Manifest) (p : RammuxRole) :
    (l.abort p).session.gone p = some (l.session.net.ends p).abort := Function.update_self _ _ _

/-- A manifest stays valid when a running side is aborted. -/
theorem Valid.abort (h : l.Valid config) (halive : l.session.gone p = none) :
    (l.abort p).Valid config := h.put (h.reached.abort halive) fun _ => rfl

/-- What a side does lets the streams of both sides go on. -/
theorem Steps.all_goOn (h : l.Steps p l') (q : RammuxRole) : l.GoesOn q l' := by
  rcases RammuxRole.eq_or_eq_other p q with rfl | rfl
  · exact h.goesOn
  · have hwritten (r : StreamRef) : l'.written p.other r = l.written p.other r := by
      rw [Manifest.written, h.log]
      rfl
    have hwaits (r : StreamRef) : l'.waits p.other r = l.waits p.other r := by
      rw [Manifest.waits, h.ends]
      rfl
    refine ⟨?_, fun r => (hwritten r).symm ▸ List.prefix_rfl, fun r _ => ?_⟩
    · rw [h.ends]
    · rw [hwritten, hwaits]

end Manifest

/-! ## One connection -/

/-- A connection that runs, or just stopped running, and what it handed over. -/
structure Active.Writes (p : RammuxRole) (a : Active) (l : Manifest) : Prop where
  alive : l.session.gone p = none
  streams : l.session.net.ends p = a.streams
  sends : a.codec.Sends (l.frames p)

/-- A running connection. The frames of the other side that it has decoded, with the beginning of
another one, are the bytes that it `read`. -/
structure Active.Plays (config : RammuxRole → RammuxConfig) (p : RammuxRole) (a : Active)
    (l : Manifest)
    (read : Bytes) : Prop extends a.Writes p l where
  limit : a.codec.frameLimit = (config p).frameLimit
  reads : a.codec.ReadsFrames read (l.decoded p.other)

namespace Active

variable {config : RammuxRole → RammuxConfig} {p : RammuxRole} {a a' : Active} {s : Session}
  {l : Manifest} {read : Bytes}

/-- A `PONG` that is processed samples a round trip. -/
theorem observed_reached {f : InboundFrame} (h : s.Reached config) (halive : s.gone p = none)
    (hstreams : s.net.ends p = a.streams) :
    ∃ s', s'.Reached config ∧ s.Moves p s' ∧ s'.net.wire = s.net.wire ∧
      s'.net.ends p = a.observed f := by
  unfold observed
  cases f.header.pong with
  | none => exact ⟨s, h, .refl p s, rfl, hstreams⟩
  | some pong =>
    obtain ⟨s', hreached, hmoves, hwire, hends⟩ := h.observe halive
      (Clock.elapsed (a.codec.clock.micros f.headerAt) pong.tEcho)
    refine ⟨s', hreached, hmoves, hwire, ?_⟩
    rw [hends, hstreams]

/-- Processing the next frame of the peer is receiving it in the session, and it is accepted. -/
theorem process_reached {f : InboundFrame} {frame : OutFrame} {r : StreamRef} {t : UInt32}
    {rest : List Packet} {res : Except ErrorKind Received} (hc : Compatible config)
    (h : s.Reached config) (halive : s.gone p = none) (hstreams : s.net.ends p = a.streams)
    (hwire : s.net.wire p.other = (frame.packet r).toList ++ rest)
    (hheader : f.header = frame.header t) (hdata : f.data = frame.data)
    (hprocess : a.process f = .ok (res, a')) :
    ∃ newStream s', res = .ok (.frame newStream) ∧ s'.Reached config ∧ s.Moves p s' ∧
      s'.net.ends p = a'.streams ∧ s'.net.wire p.other = rest ∧ s'.net.wire p = s.net.wire p ∧
      a'.codec = a.codec := by
  obtain ⟨s₁, hreached, hmoves, hsame, hends⟩ := observed_reached (f := f) h halive hstreams
  have hpart : f.header.stream = (frame.header 0).stream := by
    rw [hheader]
    rfl
  unfold process at hprocess
  rw [hpart] at hprocess
  unfold OutFrame.packet at hwire
  cases hs : (frame.header 0).stream with
  | none =>
    -- Without a stream part, nothing of the frame was in flight.
    rw [hs] at hwire hprocess
    cases hprocess
    exact ⟨none, s₁, rfl, hreached, hmoves, hends, (congrFun hsame _).trans hwire,
      congrFun hsame _, rfl⟩
  | some header =>
    rw [hs] at hwire hprocess
    obtain ⟨⟨result, streams⟩, hreceive, hprocess⟩ := Lib.bind_eq_ok.mp hprocess
    have hwire₁ : s₁.net.wire p.other = ⟨r, header, frame.data⟩ :: rest :=
      (congrFun hsame _).trans hwire
    have halive₁ : s₁.gone p = none := (congrFun hmoves.gone p).trans halive
    rw [← hends, hdata] at hreceive
    obtain ⟨newStream, s₂, rfl, hreached₂, hmoves₂, hends₂, hwire₂, hwire₂'⟩ :=
      hreached.receive hc halive₁ hwire₁ hreceive
    cases hprocess
    exact ⟨newStream, s₂, rfl, hreached₂, hmoves.trans hmoves₂, hends₂, hwire₂,
      hwire₂'.trans (congrFun hsame _), rfl⟩

/-- How a call that receives ends. -/
inductive Heard (config : RammuxRole → RammuxConfig) (p : RammuxRole) (a : Active) (l : Manifest)
    (read : Bytes) : Poll (Except ErrorKind Received) → Prop
  | pending (hplays : a.Plays config p l read) : Heard config p a l read .pending
  | frame {newStream : Option StreamRef} (hplays : a.Plays config p l read) :
      Heard config p a l read (.ready (.ok (.frame newStream)))
  | term (hwrites : a.Writes p l) (hlast : l.decoded p.other = (l.sent p.other).length) :
      Heard config p a l read (.ready (.ok .term))
  | failed {e : IoError} (hwrites : a.Writes p l) :
      Heard config p a l read (.ready (.error (.io e)))

/-- A call that receives takes the next frame of the peer, or waits, or ends with `TERM` or with the
transport. -/
theorem pollReceive_heard {answers : List ReadAnswer} {elapsed : Bool}
    {res : Poll (Except ErrorKind Received)} {frame : Option InboundFrame} (hc : Compatible config)
    (hl : l.Valid config) (hplays : a.Plays config p l read)
    (hin : Incoming (config p).frameLimit (l.frames p.other) (read ++ a.codec.io.inbox.bytes))
    (h : a.pollReceive answers elapsed = .ok (res, frame, a')) :
    ∃ chunk l', a.codec.io.inbox.bytes = chunk ++ a'.codec.io.inbox.bytes ∧
      l'.Valid config ∧ l.Moves p l' ∧ Heard config p a' l' (read ++ chunk) res := by
  obtain ⟨⟨outcome, codec⟩, hnext, h⟩ := Lib.bind_eq_ok.mp h
  rw [← hplays.limit] at hin
  obtain ⟨chunk, hsame, hinbox, hnext⟩ := hplays.reads.pollNext hin hnext
  have hwrites : Writes p { a with codec } l :=
    ⟨hplays.alive, hplays.streams, hplays.sends.congr hsame⟩
  have hlimit : codec.frameLimit = (config p).frameLimit := hsame.frameLimit.trans hplays.limit
  cases hnext with
  | pending hreads =>
    cases h
    exact ⟨chunk, l, hinbox, hl, .refl p l, .pending ⟨hwrites, hlimit, hreads⟩⟩
  | closed =>
    cases h
    exact ⟨chunk, l, hinbox, hl, .refl p l, .failed hwrites⟩
  | failed e =>
    cases h
    exact ⟨chunk, l, hinbox, hl, .refl p l, .failed hwrites⟩
  | term hterm hlast =>
    cases h
    exact ⟨chunk, l, hinbox, hl, .refl p l, .term hwrites (hlast.trans (List.length_map _))⟩
  | @frame f out t hframe hheader hdata hreads =>
    obtain ⟨⟨result, a₁⟩, hprocess, h⟩ := Lib.bind_eq_ok.mp h
    cases h
    -- The frame is the next of those that were handed over, and so the next in flight.
    rw [Manifest.frames, List.getElem?_map, Option.map_eq_some_iff] at hframe
    obtain ⟨e, he, rfl⟩ := hframe
    obtain ⟨newStream, s', rfl, hreached, hmoves, hends, hother, hself, hcodec⟩ :=
      process_reached hc hl.reached hwrites.alive hwrites.streams
        ((hl.wire p.other).trans (packets_drop he)) hheader hdata hprocess
    refine ⟨chunk, l.decode p s', ?_, hl.decode hreached hmoves he hother hself,
      l.decode_moves hmoves,
      .frame ⟨⟨?_, hends, ?_⟩, ?_, ?_⟩⟩
    · rw [hcodec]
      exact hinbox
    · exact (congrFun hmoves.gone p).trans hwrites.alive
    · rw [hcodec]
      exact hwrites.sends
    · rw [hcodec]
      exact hlimit
    · rw [hcodec, Manifest.decode_decoded]
      exact hreads

/-- How a batch ends. -/
inductive BatchHeard (config : RammuxRole → RammuxConfig) (p : RammuxRole) (a : Active)
    (l : Manifest) (read : Bytes) : Batch → Prop
  | failed {e : IoError} (hwrites : a.Writes p l) : BatchHeard config p a l read (.failed (.io e))
  | term (hwrites : a.Writes p l) (hlast : l.decoded p.other = (l.sent p.other).length) :
      BatchHeard config p a l read .term
  | processed {progress : Poll RammuxProgress} (hplays : a.Plays config p l read)
      (hnot : ∀ future, progress ≠ .ready (.downgraded future)) :
      BatchHeard config p a l read (.processed progress)

/-- A batch of frames is heard one after the other. -/
theorem receiveBatch_heard {progress : Poll RammuxProgress} {readings : List ReadTurn}
    {batch : Batch} (hc : Compatible config) (hl : l.Valid config)
    (hplays : a.Plays config p l read)
    (hin : Incoming (config p).frameLimit (l.frames p.other) (read ++ a.codec.io.inbox.bytes))
    (hnot : ∀ future, progress ≠ .ready (.downgraded future))
    (h : a.receiveBatch progress readings = .ok (batch, a')) :
    ∃ chunk l', a.codec.io.inbox.bytes = chunk ++ a'.codec.io.inbox.bytes ∧
      l'.Valid config ∧ l.Moves p l' ∧ BatchHeard config p a' l' (read ++ chunk) batch := by
  -- By induction on the frames that the batch may take.
  induction readings generalizing a l read progress with
  | nil =>
    cases h
    refine ⟨[], l, rfl, hl, .refl p l, .processed ?_ hnot⟩
    rwa [List.append_nil]
  | cons reading readings ih =>
    obtain ⟨⟨res, frame, a₁⟩, hreceive, h⟩ := Lib.bind_eq_ok.mp h
    obtain ⟨chunk, l₁, hinbox, hl₁, hmoves, hheard⟩ := pollReceive_heard hc hl hplays hin hreceive
    cases hheard with
    | pending hplays₁ =>
      cases h
      exact ⟨chunk, l₁, hinbox, hl₁, hmoves, .processed hplays₁ hnot⟩
    | failed hwrites =>
      cases h
      exact ⟨chunk, l₁, hinbox, hl₁, hmoves, .failed hwrites⟩
    | term hwrites hlast =>
      cases h
      exact ⟨chunk, l₁, hinbox, hl₁, hmoves, .term hwrites hlast⟩
    | @frame newStream hplays₁ =>
      cases newStream with
      | some stream =>
        cases h
        refine ⟨chunk, l₁, hinbox, hl₁, hmoves, .processed hplays₁ fun future h => ?_⟩
        cases h
      | none =>
        -- The peer has handed over what it had, and what is left to read is the rest of it.
        have hin₁ : Incoming (config p).frameLimit (l₁.frames p.other)
            (read ++ chunk ++ a₁.codec.io.inbox.bytes) := by
          rw [Manifest.frames, hmoves.sent, List.append_assoc, ← hinbox]
          exact hin
        have hempty (future : Downgraded) : Poll.ready RammuxProgress.empty ≠
            .ready (.downgraded future) := by
          intro h
          cases h
        obtain ⟨chunk', l', hinbox', hl', hmoves', hbatch⟩ := ih hl₁ hplays₁ hin₁ hempty h
        refine ⟨chunk ++ chunk', l', ?_, hl', hmoves.trans hmoves', ?_⟩
        · rw [hinbox, hinbox', List.append_assoc]
        · rwa [← List.append_assoc]

/-- The data of an update of a stream is within the limit. -/
theorem packet_limit {u : StreamUpdate} {r : StreamRef} (hc : Compatible config)
    (hs : s.Reached config) (hu : u.packet r ∈ s.net.wire p) :
    u.data.length ≤ (config p).frameLimit := by
  obtain ⟨tr, hrun⟩ := hs
  obtain ⟨log, hi⟩ := Session.inv_of_run hc hrun
  have hlimit := (hi.net.packets p _ hu).limit
  rwa [(hi.net.sane p).config] at hlimit

/-- A turn of the loop hands over the update of a stream, or none. Sending fails only with the
transport. -/
theorem sendTurn_plays {turn : SendTurn} {res : Except (Poll (Except ErrorKind Unit)) OutFrame}
    (hc : Compatible config) (hl : l.Valid config) (hplays : a.Plays config p l read)
    (h : a.sendTurn turn = .ok (res, a')) :
    ∃ l', l'.Valid config ∧ l.Moves p l' ∧ a'.Plays config p l' read ∧
      a'.codec.io.inbox = a.codec.io.inbox ∧
      ∀ e, res = .error (.ready (.error e)) → ∃ io, e = .io io := by
  obtain ⟨ready, codec, hready, hwrote⟩ := hplays.sends.pollReady turn.attempts
  cases sendTurn_cases h with
  | blocked hready' =>
    cases hready.symm.trans hready'
    refine ⟨l, hl, .refl p l, ⟨⟨hplays.alive, hplays.streams, hwrote.sends⟩, ?_, ?_⟩,
      hwrote.same.inbox, fun e he => hwrote.error e (Except.error.inj he)⟩
    · exact hwrote.same.frameLimit.trans hplays.limit
    · exact hplays.reads.congr hwrote.same
  | @idle _ codec' update streams flushed _ hready' hpoll hempty hflush hres =>
    cases hready.symm.trans hready'
    obtain ⟨flushed, codec', hflush', hwrote'⟩ := hwrote.sends.pollThen [] turn.flush
    cases hflush.symm.trans hflush'
    rw [← hplays.streams] at hpoll
    obtain ⟨s', hreached, hmoves, hends, hother, hupdate⟩ := hl.reached.pollTasks hplays.alive hpoll
    -- With an update there would be something to send.
    have hself : s'.net.wire p = l.session.net.wire p := by
      rcases hupdate with ⟨-, hself⟩ | ⟨u, r, rfl, -⟩
      · exact hself
      · simp [OutFrame.isEmpty, OutFrame.compose] at hempty
    have hwire : ∀ q, s'.net.wire q = l.session.net.wire q := by
      intro q
      rcases RammuxRole.eq_or_eq_other p q with rfl | rfl
      · exact hself
      · exact hother
    have hsame := hwrote.same.trans hwrote'.same
    refine ⟨{ l with session := s' }, hl.put hreached hwire, ⟨hmoves, rfl, rfl⟩,
      ⟨⟨?_, hends, hwrote'.sends⟩, ?_, ?_⟩, hsame.inbox,
      fun e he => hwrote'.error e (hres e (Except.error.inj he))⟩
    · exact (congrFun hmoves.gone p).trans hplays.alive
    · exact hsame.frameLimit.trans hplays.limit
    · exact hplays.reads.congr hsame
  | @handed _ codec' update streams frame hready' hpoll hframe hne hsend =>
    cases hready.symm.trans hready'
    obtain ⟨hsends, hsame, -⟩ := hwrote.sends.startSend hsend
    have hsame := hwrote.same.trans hsame
    rw [← hplays.streams] at hpoll
    obtain ⟨s', hreached, hmoves, hends, hother, hupdate⟩ := hl.reached.pollTasks hplays.alive hpoll
    obtain ⟨r, hself, hlimit⟩ : ∃ r,
        s'.net.wire p = l.session.net.wire p ++ (frame.packet r).toList ∧
          frame.data.length ≤ (config p).frameLimit := by
      subst hframe
      rcases hupdate with ⟨rfl, hself⟩ | ⟨u, r, rfl, hself⟩
      · refine ⟨0, ?_, Nat.zero_le _⟩
        rw [OutFrame.packet_compose_pending, hself]
        exact (List.append_nil _).symm
      · refine ⟨r, ?_, packet_limit hc hreached (hself ▸ List.mem_concat_self)⟩
        rw [OutFrame.packet_compose, hself]
        rfl
    refine ⟨l.hand p s' (frame, r), hl.hand hreached hself hother ⟨?_, hlimit⟩,
      Manifest.hand_moves hmoves _, ⟨⟨?_, hends, ?_⟩, ?_, ?_⟩, hsame.inbox, nofun⟩
    · rw [hframe]
      rfl
    · exact (congrFun hmoves.gone p).trans hplays.alive
    · rw [Manifest.hand_frames]
      exact hsends
    · exact hsame.frameLimit.trans hplays.limit
    · exact hplays.reads.congr hsame

/-- All that a poll sends is sent in the session. -/
theorem pollSend_plays {turns : List SendTurn} {res : Poll (Except ErrorKind Unit)}
    {frames : List OutFrame} (hc : Compatible config) (hl : l.Valid config)
    (hplays : a.Plays config p l read) (h : a.pollSend turns = .ok (res, frames, a')) :
    ∃ l', l'.Valid config ∧ l.Moves p l' ∧ a'.Plays config p l' read ∧
      a'.codec.io.inbox = a.codec.io.inbox ∧ ∀ e, res = .ready (.error e) → ∃ io, e = .io io := by
  -- By induction on the turns of the loop.
  induction turns generalizing a l frames with
  | nil =>
    cases h
    exact ⟨l, hl, .refl p l, hplays, rfl, nofun⟩
  | cons turn turns ih =>
    obtain ⟨⟨result, a₁⟩, hturn, h⟩ := Lib.bind_eq_ok.mp h
    obtain ⟨l₁, hl₁, hmoves, hplays₁, hinbox, herror⟩ := sendTurn_plays hc hl hplays hturn
    cases result with
    | error res' =>
      cases h
      exact ⟨l₁, hl₁, hmoves, hplays₁, hinbox, fun e he => herror e (congrArg Except.error he)⟩
    | ok frame =>
      obtain ⟨⟨res', frames', a₂⟩, hrest, h⟩ := Lib.bind_eq_ok.mp h
      cases h
      obtain ⟨l', hl', hmoves', hplays', hinbox', herror'⟩ := ih hl₁ hplays₁ hrest
      exact ⟨l', hl', hmoves.trans hmoves', hplays', hinbox'.trans hinbox, herror'⟩

end Active

end Rammux
