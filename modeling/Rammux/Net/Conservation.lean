import Rammux.Net.Compliance

/-!
# No byte is lost, and none is stranded

Between two endpoints, what the sender of a direction counts as unacked is what the receiver counts,
what is in flight, and the credit in flight (`Net.in_flight_conserved`).

When nothing is in flight and no task is scheduled, both ends count the same. A receiver that has
read everything and has nothing to send owes less credit than the threshold, which is within the
base window; so the sender has room in its base window, and has sent all it had, whatever the other
streams hold (`Net.none_stranded`).
-/

namespace Rammux

namespace Net

variable {config : RammuxRole → RammuxConfig} {n n' : Net} {tr : List (Action × Streams.Output)}

/-- What is in flight is conserved. `r` is a stream of `p`, `o` its sending end, and `i` the
receiving end at the peer. Until the receiver sends `FIN_READ`, `o` counts what `i` counts, the data
in flight and the credit in flight; from then on `i` counts nothing, and once `p` received the
`FIN_READ`, neither does `o`. So the sender never counts less than the receiver, and neither do the
two counts of a pool. -/
theorem in_flight_conserved (hc : Compatible config) (h : (machine config).Run tr n) :
    (∀ p r, r < (n.ends p).next →
      let o := ((n.ends p).state r).outbound
      let i := (n.farState p r).inbound
      (i.finSent = false → o.unacked =
        i.window.unacked + dataInFlight (n.sentBy p r) + creditInFlight (n.comingTo p r)) ∧
      (i.finSent = true → i.window.unacked = 0) ∧
      (o.finReceived = true → i.window.unacked = 0 ∧ o.unacked = 0) ∧
      i.window.unacked ≤ o.unacked) ∧
    ∀ p, (n.ends p.other).flow.rxPool.used ≤ (n.ends p).flow.txPool.used ∧
      (n.ends p).flow.txPool.used ≤ (config p).remoteRecvPool := by
  obtain ⟨hi, -⟩ := inv_of_run hc h
  refine ⟨?_, fun p => ⟨?_, ?_⟩⟩
  · intro p r hr
    have hout := (hi.link p r hr).out
    have hsent := hi.far_sent (p := p) (r := r)
    refine ⟨hout.balance, hsent, fun hrec => ?_, hout.unacked_le hsent⟩
    -- What the sender received, the receiver has sent.
    have hclosing := hout.finRead
    simp only [Net.link, hrec] at hclosing
    exact ⟨hsent hclosing.of_closed.1, ((hi.sane p).accounts.wfOut r hr).received hrec⟩
  · have hle := hi.rxUsed_le (p := p.other) hc
    rwa [RammuxRole.other_other] at hle
  · have hle := hi.txUsed_le (p := p.other) hc
    rwa [RammuxRole.other_other, ← hc.pool] at hle

/-- Two bytes were received, read and credited, and one more is in flight: the sender counts three,
the receiver none. -/
theorem in_flight_conserved_crossing : ∃ tr n, (machine fun _ => Streams.tightConfig).Run tr n ∧
    dataInFlight (n.sentBy .client 0) = 1 ∧ creditInFlight (n.comingTo .client 0) = 2 ∧
    ((n.ends .client).state 0).outbound.unacked =
      (n.farState .client 0).inbound.window.unacked + dataInFlight (n.sentBy .client 0) +
        creditInFlight (n.comingTo .client 0) := by
  have h := Lib.Machine.Run.init (M := machine fun _ => Streams.tightConfig)
    |>.step (a := .observe .client 1) rfl
    |>.step (a := .open .client 0) rfl
    |>.step (a := .app .client 0 (.write [1, 2, 3])) rfl
    |>.step (a := .poll .client 0 0) (by with_unfolding_all rfl)
    |>.step (a := .deliver .client) (by with_unfolding_all rfl)
    |>.step (a := .app .server 0 (.pollRead 0)) (by with_unfolding_all rfl)
    |>.step (a := .poll .server 0 0) (by with_unfolding_all rfl)
    |>.step (a := .poll .client 0 3) (by with_unfolding_all rfl)
  refine ⟨_, _, h, by decide +kernel, by decide +kernel, ?_⟩
  exact ((in_flight_conserved compatible_tight h).1 .client 0 (by decide +kernel)).1
    (by decide +kernel)

/-! ## Each endpoint by itself -/

/-- Putting a frame on the wire leaves the endpoints as they are. -/
@[simp] theorem send_ends (n : Net) (p : RammuxRole) (r : StreamRef) (o : Streams.Output) :
    (n.send p r o).ends = n.ends := by
  unfold send
  split <;> rfl

/-- Recording a pair leaves the endpoints as they are. -/
@[simp] theorem pair_ends (n : Net) (p : RammuxRole) (r : StreamRef) (o : Streams.Output) :
    (n.pair p r o).ends = n.ends := by
  unfold pair
  split <;> rfl

/-- What an endpoint does is a step of this endpoint, and nothing to the other. -/
theorem act_ends {p : RammuxRole} {a : Streams.Action} {o : Streams.Output}
    (h : n.act p a = .ok (o, n')) (q : RammuxRole) :
    n'.ends q = n.ends q ∨ q = p ∧ ∃ a o, (n.ends q).step a = .ok (o, n'.ends q) := by
  obtain ⟨s, hstep, rfl⟩ := act_eq_ok.mp h
  rcases p.eq_or_eq_other q with rfl | rfl
  · rw [put_ends_self]
    exact .inr ⟨rfl, a, o, hstep⟩
  · exact .inl (put_ends_other _ _ _)

/-- A step of the two endpoints is a step of one of them. -/
theorem step_ends {a : Action} {o : Streams.Output} (h : n.step a = .ok (o, n')) (q : RammuxRole) :
    n'.ends q = n.ends q ∨ q = a.actor ∧ ∃ a o, (n.ends q).step a = .ok (o, n'.ends q) := by
  cases a with
  | «open» p key => exact act_ends h q
  | app p r op => exact act_ends h q
  | poll p r allowance =>
    simp only [step, Lib.bind_eq_ok] at h
    obtain ⟨⟨o', n₁⟩, hact, h⟩ := h
    cases h
    rw [send_ends]
    exact act_ends hact q
  | observe p rtt => exact act_ends h q
  | deliver p =>
    simp only [step] at h
    split at h
    · cases h
      exact .inl rfl
    · simp only [Lib.bind_eq_ok] at h
      obtain ⟨⟨o', n₁⟩, hact, h⟩ := h
      cases h
      rw [pair_ends]
      exact act_ends hact q

/-- In a run of the two endpoints, each of them makes a run of its own. -/
theorem ends_of_run (h : (machine config).Run tr n) (p : RammuxRole) :
    ∃ tr, (Streams.machine p (config p)).Run tr (n.ends p) := by
  refine h.invariant (I := fun _ n => ∃ tr, (Streams.machine p (config p)).Run tr (n.ends p))
    ⟨[], .init⟩ ?_
  rintro _ n a o n' - ⟨tr, hrun⟩ hstep
  rcases step_ends hstep p with heq | ⟨-, a', o', hstep'⟩
  · rw [heq]
    exact ⟨tr, hrun⟩
  · exact ⟨_, hrun.step hstep'⟩

/-! ## Quiescence -/

/-- Nothing is in flight, and every task returned `Pending` since it was last woken. -/
structure Quiescent (n : Net) : Prop where
  wire : ∀ p, n.wire p = []
  parked : ∀ p r, (n.ends p).updates r ≠ none → (n.ends p).Parked r

/-- Nothing is in flight in a quiescent state. -/
theorem Quiescent.sentBy (h : n.Quiescent) (p : RammuxRole) (r : StreamRef) :
    n.sentBy p r = [] := by
  rw [Net.sentBy, h.wire]
  rfl

/-- A stream that has not sent both of its `FIN_*`s rests. -/
theorem Quiescent.rests {p : RammuxRole} {r : StreamRef} (h : n.Quiescent) (hi : n.Inv config)
    (hw : (n.ends p).Wakeful) (hr : r < (n.ends p).next)
    (hsent : ((n.ends p).state r).finState.sent = false) :
    ((n.ends p).state r).Rests (r ∈ (n.ends p).flow.turns.queue) := by
  refine hw.rests r (h.parked p r fun hnone => ?_)
  rw [((hi.sane p).tables.task r hr).mp hnone] at hsent
  exact Bool.noConfusion hsent

/-- With nothing in flight, the two ends of an open direction count the same, and neither has sent
its `FIN_*`. -/
theorem Quiescent.open_direction {p : RammuxRole} {r r' : StreamRef} (h : n.Quiescent)
    (hi : n.Inv config) (hm : n.mate p r = some r')
    (hread : ((n.ends p).state r).inbound.reading = true)
    (hended : ((n.ends p).state r).inbound.ended = false) :
    ((n.ends p.other).state r').outbound.unacked =
        ((n.ends p).state r).inbound.window.unacked ∧
      ((n.ends p.other).state r').outbound.finSent = false := by
  have hback := (hi.link p r (hi.mate_lt p r r' hm)).back
  rw [link_of_mate hm, h.sentBy, h.sentBy] at hback
  have hbal := hback.balance (InboundTraffic.not_finSent_of_reading hread)
  rw [dataInFlight_nil, creditInFlight_nil] at hbal
  exact ⟨by omega, hback.finWrite.nil.symm.trans hended⟩

/-- In a quiescent state nothing is stranded on a stream whose receiver has read everything. `r` is
a stream of `p` that is open for reading and has nothing to read, and `r'` the sending end at the
peer: it has nothing to send, both count the same, less than the credit threshold, so neither
borrows from its pool; and it does not wait for a turn. -/
theorem none_stranded (hc : Compatible config) (h : (machine config).Run tr n)
    (hq : n.Quiescent) {p : RammuxRole} {r r' : StreamRef} {reader : WakerSlot}
    (hm : n.mate p r = some r') (hopen : ((n.ends p).state r).inbound.state = .open [] reader) :
    ((n.ends p.other).state r').outbound.unsent = [] ∧
      ((n.ends p.other).state r').outbound.unacked =
        ((n.ends p).state r).inbound.window.unacked ∧
      ((n.ends p.other).state r').outbound.unacked <
        creditThreshold (config p).localRecvWindow ∧
      ((n.ends p.other).state r').outbound.ledger.window.borrowed = 0 ∧
      ((n.ends p).state r).inbound.window.borrowed = 0 ∧
      r' ∉ (n.ends p.other).flow.turns.queue := by
  obtain ⟨hi, -⟩ := inv_of_run hc h
  have hr := hi.mate_lt p r r' hm
  have hr' := hi.mate_lt' hm
  obtain ⟨_, hrun⟩ := ends_of_run h p
  obtain ⟨_, hrun'⟩ := ends_of_run h p.other
  have hread : ((n.ends p).state r).inbound.reading = true := by
    rw [InboundTraffic.reading, hopen]
  have hended : ((n.ends p).state r).inbound.ended = false := by
    rw [InboundTraffic.ended, hopen]
  obtain ⟨hcount, hfin⟩ := hq.open_direction hi hm hread hended
  -- The receiver owes all that it counts, and this is below the threshold.
  have hwf := (hi.sane p).held.wfIn r hr
  have hrests := hq.rests hi (Streams.wakeful_of_run hrun) hr (by
    rw [← Bool.not_eq_true, StreamState.sent_iff,
      InboundTraffic.not_finSent_of_reading hread]
    simp)
  have hcredit := hrests.inbound.credit_lt hwf
  rw [(hi.sane p).config] at hcredit
  have hheld := hwf.held hread
  have hempty : ((n.ends p).state r).inbound.bufferedLen = 0 := by
    rw [InboundTraffic.bufferedLen, InboundTraffic.buffered, hopen]
    rfl
  have hlt : ((n.ends p.other).state r').outbound.unacked <
      creditThreshold (config p).localRecvWindow := by omega
  -- So the sender has room in its base window, and would have sent.
  have hbase := hlt.trans_le (creditThreshold_le (config p).localRecvWindow_pos)
  have hwf' := (hi.sane p.other).accounts.wfOut r' hr'
  have hwindow : ((n.ends p.other).state r').outbound.ledger.window.base =
      (config p).localRecvWindow := by
    rw [hwf'.base, (hi.sane p.other).config, hc.window, RammuxRole.other_other]
  have hrests' := hq.rests hi (Streams.wakeful_of_run hrun') hr' (by
    rw [← Bool.not_eq_true, StreamState.sent_iff, hfin]
    simp)
  have hroom : ((n.ends p.other).state r').outbound.ledger.window.baseRoom ≠ 0 := by
    rw [Window.baseRoom, hwindow]
    unfold OutboundTraffic.unacked at hbase
    omega
  refine ⟨hrests'.outbound.idle.unsent.resolve_right hroom, hcount, hlt, ?_, ?_, fun hmem => ?_⟩
  · rw [(hi.sane p.other).accounts.out_borrowed hr', (hi.sane p.other).config, hc.window,
      RammuxRole.other_other]
    omega
  · rw [(hi.sane p).accounts.in_borrowed hr, (hi.sane p).config]
    omega
  · exact hroom (hrests'.outbound.queued hmem).2

/-- To see that the tasks are parked, one looks at the streams that there are. -/
theorem quiescent_of_lt (hi : n.Inv config) (hwire : ∀ p, n.wire p = [])
    (h : ∀ p, ∀ r < (n.ends p).next, (n.ends p).updates r ≠ none →
      ((n.ends p).wakes.updates r).scheduled = false) : n.Quiescent := by
  refine ⟨hwire, fun p r hr => ⟨hr, ?_⟩⟩
  obtain ⟨task, htask⟩ := Option.ne_none_iff_exists'.mp hr
  exact h p r ((hi.sane p).tables.taskId r task htask).1 hr

/-- One stream of the client has filled the pool and waits for more, and its reader is stalled. The
other stream, whose bytes were read, has sent all of them. -/
theorem none_stranded_beside_stalled : ∃ tr n, (machine fun _ => Streams.tightConfig).Run tr n ∧
    n.Quiescent ∧ (n.ends .client).flow.txPool.hasRoom = false ∧
    (n.ends .client).flow.turns.queue = [0] ∧
    ((n.ends .client).state 1).outbound.unsent = [] := by
  have h := Lib.Machine.Run.init (M := machine fun _ => Streams.tightConfig)
    |>.step (a := .observe .client 1) rfl
    |>.step (a := .open .client 0) rfl |>.step (a := .open .client 1) rfl
    |>.step (a := .app .client 0 (.write [1, 2, 3, 4, 5, 6])) rfl
    |>.step (a := .app .client 1 (.write [7, 8, 9])) rfl
    |>.step (a := .poll .client 0 9) (by with_unfolding_all rfl)
    |>.step (a := .poll .client 1 0) (by with_unfolding_all rfl)
    |>.step (a := .deliver .client) (by with_unfolding_all rfl)
    |>.step (a := .deliver .client) (by with_unfolding_all rfl)
    |>.step (a := .app .server 1 (.pollRead 0)) (by with_unfolding_all rfl)
    |>.step (a := .poll .server 1 0) (by with_unfolding_all rfl)
    |>.step (a := .deliver .server) (by with_unfolding_all rfl)
    |>.step (a := .poll .client 1 0) (by with_unfolding_all rfl)
    |>.step (a := .deliver .client) (by with_unfolding_all rfl)
    |>.step (a := .app .server 1 (.pollRead 0)) (by with_unfolding_all rfl)
    |>.step (a := .poll .server 1 0) (by with_unfolding_all rfl)
    |>.step (a := .deliver .server) (by with_unfolding_all rfl)
    |>.step (a := .poll .server 0 0) (by with_unfolding_all rfl)
    |>.step (a := .poll .server 1 0) (by with_unfolding_all rfl)
    |>.step (a := .poll .client 1 0) (by with_unfolding_all rfl)
    |>.step (a := .poll .client 0 9) (by with_unfolding_all rfl)
  have hq := quiescent_of_lt (inv_of_run compatible_tight h).1 (by rintro (_ | _) <;> rfl)
    (by rintro (_ | _) <;> decide +kernel)
  refine ⟨_, _, h, hq, by decide +kernel, by decide +kernel, ?_⟩
  exact (none_stranded compatible_tight h hq (p := .server) (r := 1) (by with_unfolding_all rfl)
    (by with_unfolding_all rfl)).1

end Net

end Rammux
