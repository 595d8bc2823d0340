import Rammux.Connection.Steps
import Rammux.Net.Conservation

/-!
# Closed streams leave nothing behind

Each application closes or drops its halves of a stream when it likes: before the `SYN` is sent,
with data unread, with data that waits for credit, before or after the peer. Once nothing is in
flight and every task waits, all four `FIN_*`s were exchanged, and nothing of the stream is left.

What an application closes stays closed, so its end owes `FIN_READ` until it has sent it, and a task
that waits owes nothing. With nothing in flight the `FIN_READ` was received. It closes the sending
direction there, unsent data or not, and this direction has then sent its `FIN_WRITE`. So it is the
readers that end a stream: what its writers do only decides how early.
-/

namespace Rammux

/-! ## A reader that stopped -/

/-- A direction that `FIN_READ` was received for is closed, so it is idle once it has sent
`FIN_WRITE`. -/
theorem OutboundTraffic.Idle.finSent {t : OutboundTraffic} (h : t.Idle)
    (hr : t.finReceived = true) : t.finSent = true := by
  unfold OutboundTraffic.Idle at h
  unfold OutboundTraffic.finReceived OutboundTraffic.finState at hr
  unfold OutboundTraffic.finSent OutboundTraffic.finState
  cases hs : t.state <;> rw [hs] at h hr
  · cases hr
  · cases hr
  · exact h

namespace StreamCtx

variable {c c' : StreamCtx} {me : StreamRef}

/-- Whatever the peer sends, it does not make the application read again. -/
theorem received_not_reading {credit : Option NonZeroU32} {data : Bytes} {flags : ControlFlags}
    {verdict : Except StreamError FinState}
    (h : c.received credit data flags me = .ok (verdict, c'))
    (hr : c.state.inbound.reading = false) : c'.state.inbound.reading = false := by
  refine received_rel (R := fun c c' => c.state.inbound.reading = false →
    c'.state.inbound.reading = false) (fun _ => id) (fun h h' => h' ∘ h) ?_ ?_ ?_ ?_ h hr
  · intro c v c' hx hr
    rcases receivedCredit_split hx with ⟨-, -, rfl⟩ | ⟨k, o, f, wk, -, -, rfl⟩ <;> exact hr
  · intro c v c' hx hr
    obtain ⟨i, p, wk, hd, rfl⟩ := receivedData_split hx
    rcases InboundTraffic.receivedData_cases hd with ⟨-, -, rfl, -⟩ |
      ⟨-, -, ⟨rd, reader, hs, rfl, -⟩, -⟩ | ⟨-, -, -, -, -, rfl, -⟩ | ⟨-, -, -, rfl, -⟩ |
      ⟨-, -, -, -, rfl, -⟩
    · exact hr
    · rw [InboundTraffic.reading, hs] at hr
      cases hr
    all_goals exact hr
  · intro c v c' hx hr
    rcases receivedFinWrite_split hx with ⟨-, -, rfl⟩ | ⟨i, wk, -, hfin, rfl⟩
    · exact hr
    · rcases c.state.inbound.receivedFinWrite_cases me c.wakes with ⟨-, hf⟩ |
        ⟨-, _, _, _, hs, hf⟩ | ⟨-, _, hs, hf⟩ | ⟨-, -, hf⟩ <;> rw [hf] at hfin <;> cases hfin
      · exact hr
      · rw [InboundTraffic.reading, hs] at hr
        cases hr
      · rfl
      · rfl
  · intro c v c' hx hr
    rcases receivedFinRead_split hx with ⟨-, -, rfl⟩ | ⟨o, f, wk, -, -, rfl⟩ <;> exact hr

/-- Nor does anything that the application does itself. -/
theorem app_not_reading {op : AppOp} {res : AppResult} (h : c.app op me = .ok (res, c'))
    (hr : c.state.inbound.reading = false) : c'.state.inbound.reading = false := by
  cases op with
  | pollRead waker =>
    simp only [app, Lib.bind_eq_ok] at h
    obtain ⟨⟨chunk, i, wk⟩, hread, h⟩ := h
    cases h
    rcases InboundTraffic.pollRead_cases hread with ⟨-, -, -, ⟨reader, hs⟩, -⟩ | ⟨-, -, rfl, -⟩ |
      ⟨data, -, ht, -⟩
    · rw [InboundTraffic.reading, hs] at hr
      cases hr
    · exact hr
    · rw [ht.reading] at hr
      cases hr
  | closeReading =>
    cases h
    rcases c.state.inbound.closeReading_cases me c.wakes with ⟨-, hc⟩ | ⟨-, hc⟩ <;> rw [hc]
    · rfl
    · exact hr
  | pollWriteReady waker =>
    cases h
    exact hr
  | write data =>
    cases h
    exact hr
  | pollFlushed waker =>
    cases h
    exact hr
  | closeWriting =>
    cases h
    exact hr

/-- Nor does sending. -/
theorem pollProgress_not_reading {task task' : StreamUpdates} {allowance : ℚ≥0}
    {res : Poll Progress} (h : c.pollProgress task me allowance = .ok (res, task', c'))
    (hr : c.state.inbound.reading = false) : c'.state.inbound.reading = false := by
  obtain ⟨inRes, outRes, rxPool, wk, hin, -, -⟩ := pollProgress_split h
  exact (InboundTraffic.pollUpdate_emits hin).reading.trans hr

end StreamCtx

namespace Streams

variable {s s' : Streams} {a : Action} {o : Output} {r : StreamRef}

/-- A stream that is not read is never read again. -/
theorem step_not_reading (h : s.step a = .ok (o, s')) (hr : r < s.next)
    (hread : (s.state r).inbound.reading = false) : (s'.state r).inbound.reading = false := by
  cases step_stream h hr with
  | other hstate => rw [hstate, hread]
  | app _ _ happ hs =>
    rw [hs, put_state_self]
    exact StreamCtx.app_not_reading happ hread
  | received _ _ _ _ hrec hs =>
    rw [hs]
    exact (congrArg (·.inbound.reading) (put_state_self ..)).trans
      (StreamCtx.received_not_reading hrec hread)
  | polled _ _ hpoll hstate =>
    rw [hstate, Function.update_self]
    exact StreamCtx.pollProgress_not_reading hpoll hread

/-- Closing the reading half closes it. -/
theorem not_reading_of_close {res : AppResult}
    (h : s.step (.app r .closeReading) = .ok (.app res, s')) :
    r < s'.next ∧ (s'.state r).inbound.reading = false := by
  simp only [step] at h
  split_ifs at h with hr
  · cases h
    refine ⟨hr, ?_⟩
    rw [put_state_self]
    rcases (s.state r).inbound.closeReading_cases r s.wakes with ⟨-, hc⟩ | ⟨hread, hc⟩
    · exact (congrArg (fun x => InboundTraffic.reading x.1) hc).trans rfl
    · exact (congrArg (fun x => InboundTraffic.reading x.1) hc).trans hread
  · cases h

/-! ## What is left of a stream -/

/-- Nothing of the stream is left at an endpoint: it is in neither table, it has no task, it waits
for no turn, and it has no share of the pools. -/
structure Gone (s : Streams) (r : StreamRef) : Prop where
  outbound : ∀ key, s.outbound.get key ≠ some r
  inbound : ∀ id, s.inbound.lookup id ≠ some r
  /-- Its ID is free, or a later stream has it. -/
  id : ∀ r', s.lookup (s.ids r) = some r' → r < r'
  task : s.updates r = none
  turn : r ∉ s.flow.turns.queue
  rxShare : (s.state r).inbound.window.borrowed = 0
  txShare : (s.state r).outbound.ledger.window.borrowed = 0

/-- Once the four `FIN_*`s were exchanged, nothing is left. -/
theorem Dead.gone {role : RammuxRole} {config : RammuxConfig} (hd : s.Dead r)
    (hs : s.Sane role config) (hw : s.Wakeful) (hr : r < s.next) : s.Gone r := by
  obtain ⟨⟨hin, hout⟩, -, -⟩ := StreamState.isDead_iff.mp hd
  have htask : s.updates r = none :=
    (hs.tables.task r hr).mpr (StreamState.sent_iff.mpr ⟨hin, hout⟩)
  have hlookup : ∀ id, s.lookup id ≠ some r := fun id h => hs.held.alive id r h hd
  refine ⟨fun key h => ?_, fun id h => ?_, fun r' h => ?_, htask, fun h => hw.queued r h htask,
    ?_, ?_⟩
  · obtain ⟨hkey, hrole⟩ := StreamId.fromSlabIdx_eq_some (hs.tables.get key r h)
    exact hlookup _ (by rw [lookup_own hrole, hkey, h])
  · have hrole := hs.tables.peers id (AList.lookup_isSome.mp (by rw [h]; rfl))
    exact hlookup id (by rw [lookup_peer hrole, h])
  · obtain ⟨hr', hid⟩ := hs.tables.lookup _ r' h
    rcases Nat.lt_trichotomy r r' with hlt | heq | hgt
    · exact hlt
    · rw [← heq] at h
      exact absurd h (hlookup _)
    · exact absurd (hs.tables.older r' r hgt hr hid.symm) (hs.held.alive _ r' h)
  · rw [hs.accounts.in_borrowed hr, (hs.held.wfIn r hr).sent hin, Nat.zero_sub]
  · rw [hs.accounts.out_borrowed hr, hs.accounts.out_dead hr hd, Nat.zero_sub]

end Streams

namespace Net

variable {config : RammuxRole → RammuxConfig} {tr : List (Action × Streams.Output)} {n n' : Net}
  {p : RammuxRole} {r r' : StreamRef}

/-- The application closed or dropped its two halves of the stream. A half that was read to its end,
or that refused a write with `BrokenPipe`, has forgotten the stream, and makes no call when it is
dropped; the call would do nothing there, since such a direction is closed already. -/
structure Closed (tr : List (Action × Streams.Output)) (p : RammuxRole) (r : StreamRef) : Prop where
  reading : (.app p r .closeReading, .app .closed) ∈ tr
  writing : (.app p r .closeWriting, .app .closed) ∈ tr

/-- In one step, a stream that is not read stays so. -/
theorem step_not_reading {a : Action} {o : Streams.Output} (h : n.step a = .ok (o, n'))
    (hr : r < (n.ends p).next) (hread : ((n.ends p).state r).inbound.reading = false) :
    r < (n'.ends p).next ∧ ((n'.ends p).state r).inbound.reading = false := by
  rcases step_ends h p with heq | ⟨-, a', o', hstep⟩
  · rw [heq]
    exact ⟨hr, hread⟩
  · exact ⟨hr.trans_le (Streams.next_le_of_step hstep), Streams.step_not_reading hstep hr hread⟩

/-- What an application closed stays closed. -/
theorem not_reading_of_run (h : (machine config).Run tr n)
    (hclosed : (.app p r .closeReading, .app .closed) ∈ tr) :
    r < (n.ends p).next ∧ ((n.ends p).state r).inbound.reading = false := by
  refine h.invariant (I := fun tr n => (.app p r .closeReading, .app .closed) ∈ tr →
    r < (n.ends p).next ∧ ((n.ends p).state r).inbound.reading = false) nofun ?_ hclosed
  intro tr n a o n' _ ih hstep hclosed
  rcases List.mem_append.mp hclosed with hold | hnew
  · exact step_not_reading hstep (ih hold).1 (ih hold).2
  · cases List.mem_singleton.mp hnew
    obtain ⟨s, hs, rfl⟩ := act_eq_ok.mp hstep
    rw [put_ends_self]
    exact Streams.not_reading_of_close hs

/-- In a quiescent state, a stream that is not read has sent its `FIN_READ`. -/
theorem Quiescent.finRead (hq : n.Quiescent) (hi : n.Inv config) (hw : (n.ends p).Wakeful)
    (hr : r < (n.ends p).next) (hread : ((n.ends p).state r).inbound.reading = false) :
    ((n.ends p).state r).inbound.finSent = true := by
  by_cases hsent : ((n.ends p).state r).finState.sent = true
  · exact (StreamState.sent_iff.mp hsent).1
  · have hidle := (hq.rests hi hw hr (Bool.not_eq_true _ ▸ hsent)).inbound
    rw [InboundTraffic.Idle, hread] at hidle
    exact hidle

/-- In a quiescent state, a direction that `FIN_READ` was received for has sent its `FIN_WRITE`,
whatever was left to send. -/
theorem Quiescent.finWrite (hq : n.Quiescent) (hi : n.Inv config) (hw : (n.ends p).Wakeful)
    (hr : r < (n.ends p).next) (hfin : ((n.ends p).state r).outbound.finReceived = true) :
    ((n.ends p).state r).outbound.finSent = true := by
  by_cases hsent : ((n.ends p).state r).finState.sent = true
  · exact (StreamState.sent_iff.mp hsent).2
  · have hidle := (hq.rests hi hw hr (Bool.not_eq_true _ ▸ hsent)).outbound.idle
    exact hidle.finSent hfin

/-- A stream whose reader stopped is known to the peer: `FIN_READ` reached it, and `SYN` with it or
before it. -/
theorem Quiescent.mate (hq : n.Quiescent) (hi : n.Inv config) (hr : r < (n.ends p).next)
    (hfin : ((n.ends p).state r).inbound.finSent = true) : ∃ r', n.mate p r = some r' := by
  have hback := (hi.link p r hr).back.finRead
  rw [link, hq.sentBy] at hback
  have hfar : (n.farState p r).outbound.finReceived = true := hback.nil.trans hfin
  cases hm : n.mate p r with
  | none =>
    rw [farState, hm] at hfar
    cases hfar
  | some r' => exact ⟨r', rfl⟩

/-- In a quiescent state, a stream that neither application reads is dead at both ends. -/
theorem Quiescent.dead (hq : n.Quiescent) (hi : n.Inv config) (hw : ∀ p, (n.ends p).Wakeful)
    (hm : n.mate p r = some r') (hread : ((n.ends p).state r).inbound.reading = false)
    (hread' : ((n.ends p.other).state r').inbound.reading = false) : (n.ends p).Dead r := by
  have hr := hi.mate_lt p r r' hm
  have hr' := hi.mate_lt' hm
  have hlink := hi.link p r hr
  rw [link_of_mate hm, hq.sentBy, hq.sentBy] at hlink
  -- Each `FIN_READ` is sent, and so received, and so answered by a `FIN_WRITE`, which is received.
  have hfin := hq.finRead hi (hw p) hr hread
  have hfin' := hq.finRead hi (hw p.other) hr' hread'
  have hrec : ((n.ends p).state r).outbound.finReceived = true := hlink.out.finRead.nil.trans hfin'
  have hrec' : ((n.ends p.other).state r').outbound.finReceived = true :=
    hlink.back.finRead.nil.trans hfin
  have hend : ((n.ends p).state r).inbound.ended = true :=
    hlink.back.finWrite.nil.trans (hq.finWrite hi (hw p.other) hr' hrec')
  exact StreamState.isDead_iff.mpr ⟨⟨hfin, hq.finWrite hi (hw p) hr hrec⟩, hend, hrec⟩

/-- No stream is leaked. In a quiescent state, a stream both of whose halves the application closed
is known to the peer; and if the application there closed both halves as well, nothing of the stream
is left at either end. -/
theorem none_leaked (hc : Compatible config) (h : (machine config).Run tr n) (hq : n.Quiescent)
    (hclosed : Closed tr p r) :
    ∃ r', n.mate p r = some r' ∧
      (Closed tr p.other r' → (n.ends p).Gone r ∧ (n.ends p.other).Gone r') := by
  obtain ⟨hi, -⟩ := inv_of_run hc h
  have hw (q : RammuxRole) : (n.ends q).Wakeful := by
    obtain ⟨_, hrun⟩ := ends_of_run h q
    exact Streams.wakeful_of_run hrun
  obtain ⟨hr, hnear⟩ := not_reading_of_run h hclosed.reading
  obtain ⟨r', hm⟩ := hq.mate hi hr (hq.finRead hi (hw p) hr hnear)
  refine ⟨r', hm, fun hclosed' => ?_⟩
  obtain ⟨hr', hfar⟩ := not_reading_of_run h hclosed'.reading
  have hm' := hi.mate_symm p r r' hm
  have hnear' : ((n.ends p.other.other).state r).inbound.reading = false := by
    rw [RammuxRole.other_other, hnear]
  exact ⟨(hq.dead hi hw hm hnear hfar).gone (hi.sane p) (hw p) hr,
    (hq.dead hi hw hm' hfar hnear').gone (hi.sane p.other) (hw p.other) hr'⟩

/-- A stream closed with data behind a full window at one end and data unread at the other. -/
theorem none_leaked_unread : ∃ tr n, (machine fun _ => Streams.tightConfig).Run tr n ∧
    n.Quiescent ∧ (n.ends .client).Gone 0 ∧ (n.ends .server).Gone 0 := by
  have h := Lib.Machine.Run.init (M := machine fun _ => Streams.tightConfig)
    |>.step (a := .open .client 0) rfl
    |>.step (a := .app .client 0 (.write [1, 2, 3, 4, 5, 6])) rfl
    |>.step (a := .app .client 0 .closeWriting) rfl
    |>.step (a := .poll .client 0 0) (by with_unfolding_all rfl)
    |>.step (a := .poll .client 0 0) (by with_unfolding_all rfl)
    |>.step (a := .app .client 0 .closeReading) (by with_unfolding_all rfl)
    |>.step (a := .deliver .client) (by with_unfolding_all rfl)
    |>.step (a := .poll .client 0 0) (by with_unfolding_all rfl)
    |>.step (a := .app .server 0 .closeReading) (o := .app .closed) (by with_unfolding_all rfl)
    |>.step (a := .poll .server 0 0) (by with_unfolding_all rfl)
    |>.step (a := .app .server 0 .closeWriting) (o := .app .closed) (by with_unfolding_all rfl)
    |>.step (a := .poll .server 0 0) (by with_unfolding_all rfl)
    |>.step (a := .deliver .server) (by with_unfolding_all rfl)
    |>.step (a := .deliver .client) (by with_unfolding_all rfl)
    |>.step (a := .deliver .server) (by with_unfolding_all rfl)
    |>.step (a := .poll .client 0 0) (by with_unfolding_all rfl)
    |>.step (a := .deliver .client) (by with_unfolding_all rfl)
  have hq := quiescent_of_lt (inv_of_run compatible_tight h).1 (by rintro (_ | _) <;> rfl)
    (by rintro (_ | _) <;> decide +kernel)
  obtain ⟨r', hm, hgone⟩ := none_leaked compatible_tight h hq (p := .client) (r := 0)
    ⟨by simp, by simp⟩
  have hmate : some r' = some 0 := hm.symm.trans (by with_unfolding_all rfl)
  cases hmate
  exact ⟨_, _, h, hq, hgone ⟨by simp [RammuxRole.other], by simp [RammuxRole.other]⟩⟩

end Net

end Rammux
