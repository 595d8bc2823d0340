import Rammux.Connection.Chatter
import Rammux.Connection.Safety
import Rammux.Net.Conservation

/-!
# The endpoints come to rest

Two endpoints do not talk for the sake of talking. What they have left to do is a number (`work`):
the updates that their streams can pay for, the frames in flight, and the streams that those start.
Every frame sent and every frame received takes from it, whatever the order, and only the
applications add to it (`settles`).

From every state, polling the tasks that are scheduled and receiving the frames leads to a state in
which nothing is in flight and no task is scheduled (`comes_to_rest`). What is said about such
states is therefore said about a state that is always within reach.
-/

namespace Rammux

/-- What a frame in flight has left to do: it is received, and a `SYN` starts a stream. -/
def Packet.work (pkt : Packet) : ℕ := 1 + 4 * pkt.header.flags.syn.toNat

/-- An update takes one more than its frame has left to do. -/
theorem StreamUpdate.packet_work (u : StreamUpdate) (r : StreamRef) :
    (u.packet r).work + 1 = u.work := by
  change 1 + 4 * u.flags.syn.toNat + 1 = 2 + 4 * u.flags.syn.toNat
  omega

/-- Whether a step sent a frame or received one, as a number. -/
def Streams.Output.busy : Streams.Output → ℕ
  | .polled (.ready _) | .received _ => 1
  | _ => 0

/-! ## Polls that yield nothing -/

/-- A plan that sends nothing wakes at most one stream, and only if this one leaves the queue. -/
theorem Ledger.Planned.wakes_few {l l' : Ledger} {flow flow' : ConnFlow} {me : StreamRef}
    {allowance : ℚ≥0} {wk wk' : Wakes} {waiting : ℕ}
    (h : l.Planned flow me allowance wk waiting none l' flow' wk') :
    ∃ woken : Finset StreamRef, (∀ r ∉ woken, wk'.updates r = wk.updates r) ∧
      flow'.turns.queue.length + 2 * woken.card ≤ flow.turns.queue.length + 1 := by
  have hpass : ∃ woken : Finset StreamRef,
      (∀ r ∉ woken, (flow.passTurn me wk).2.updates r = wk.updates r) ∧
      (flow.passTurn me wk).1.turns.queue.length + 2 * woken.card ≤
        flow.turns.queue.length + 1 := by
    rw [ConnFlow.passTurn_fst, ConnFlow.passTurn_snd]
    split_ifs with hturn
    · have hlen := List.length_erase_of_mem hturn.1
      have hpos := List.length_pos_of_mem hturn.1
      unfold Turns.wakeFront
      split
      · exact ⟨∅, fun _ _ => rfl, by simp only [Finset.card_empty]; omega⟩
      · next front _ =>
        refine ⟨{front}, fun r hr => ?_, by simp only [Finset.card_singleton]; omega⟩
        exact Function.update_of_ne (by simpa using hr) _ _
    · have hlen := List.length_erase_le (l := flow.turns.queue) (a := me)
      exact ⟨∅, fun _ _ => rfl, by simp only [Finset.card_empty]; omega⟩
  cases h with
  | nothing | exhausted => exact hpass
  | queued =>
    refine ⟨∅, fun _ _ => rfl, ?_⟩
    dsimp only [Turns.join]
    split_ifs
    · simp
    · simp

/-- A poll that yields nothing parks its task, and wakes few others. -/
theorem StreamCtx.pending_wakes_few {c c' : StreamCtx} {task task' : StreamUpdates} {me : StreamRef}
    {allowance : ℚ≥0} (h : c.pollProgress task me allowance = .ok (.pending, task', c')) :
    ∃ woken : Finset StreamRef,
      (∀ r ∉ woken, r ≠ me → c'.wakes.updates r = c.wakes.updates r) ∧
      c'.flow.turns.queue.length + 2 * woken.card ≤ c.flow.turns.queue.length + 1 ∧
      (c'.wakes.updates me).scheduled = false := by
  obtain ⟨inRes, outRes, rxPool, wk, -, hout, ⟨rfl, rfl, -, -, hw⟩ |
    ⟨-, -, -, u, -, -, -, -, hready⟩⟩ := pollProgress_split h
  · obtain ⟨n, wk₁, hplan, hwk, ⟨-, rfl, -⟩ | ⟨chunk, fin, hready, -⟩⟩ :=
      OutboundTraffic.pollUpdate_cases hout
    · obtain ⟨woken, hkept, hqueue⟩ := hplan.wakes_few
      refine ⟨woken, fun r hr hne => ?_, hqueue, ?_⟩
      · rw [hw, ← hkept r hr, ← hwk]
        exact Function.update_of_ne hne _ _
      · rw [hw]
        exact congrArg AtomicWaker.scheduled (Function.update_self me _ wk.updates)
    · cases hready
  · cases hready

namespace Streams

/-- The streams whose tasks the selector will poll. -/
def due (s : Streams) : Finset StreamRef :=
  (Finset.range s.next).filter fun r => (s.updates r).isSome && (s.wakes.updates r).scheduled

/-- How far the tasks are from being all parked: a poll that yields nothing parks its task, and may
put it in the queue of turns, or wake another one when it leaves the queue. -/
def restless (s : Streams) : ℕ := s.flow.turns.queue.length + 2 * s.due.card

/-- A poll that yields nothing brings the tasks closer to being all parked. -/
theorem pending_restless {s s' : Streams} {r : StreamRef} {allowance : ℚ≥0} (hr : r ∈ s.due)
    (h : s.pollUpdate r allowance = .ok (.pending, s')) : s'.restless < s.restless := by
  obtain ⟨hlt, hsome⟩ := Finset.mem_filter.mp hr
  obtain ⟨task, c, hpoll, rfl⟩ : ∃ task c,
      (s.ctx r).pollProgress task r allowance = .ok (.pending, task, c) ∧ s' = s.put r c := by
    rcases pollUpdate_eq_ok h with ⟨hnone, -⟩ | ⟨task, task', c, poll, -, hpoll, hres⟩
    · simp [hnone] at hsome
    · rcases hres with ⟨rfl, -, rfl⟩ | ⟨u, fin, -, hready, -⟩ | ⟨u, fin, -, hready, -⟩
      · exact ⟨_, c, (StreamCtx.pollProgress_pending_eq hpoll).2 ▸ hpoll, rfl⟩
      · cases hready
      · cases hready
  obtain ⟨woken, hkept, hqueue, hparked⟩ := StreamCtx.pending_wakes_few hpoll
  change _ ≤ s.flow.turns.queue.length + 1 at hqueue
  -- A task that is due now was due before, or was woken.
  have hdue : (s.put r c).due ⊆ s.due.erase r ∪ woken := by
    intro r' hr'
    obtain ⟨hlt', hsome'⟩ := Finset.mem_filter.mp hr'
    have hne : r' ≠ r := by
      rintro rfl
      have hno : (c.wakes.updates r').scheduled = true := (Bool.and_eq_true_iff.mp hsome').2
      rw [hparked] at hno
      cases hno
    by_cases hw : r' ∈ woken
    · exact Finset.mem_union_right _ hw
    · refine Finset.mem_union_left _ (Finset.mem_erase.mpr ⟨hne, Finset.mem_filter.mpr ⟨hlt', ?_⟩⟩)
      rw [← show c.wakes.updates r' = s.wakes.updates r' from hkept r' hw hne]
      exact hsome'
  have hcard : (s.put r c).due.card ≤ s.due.card - 1 + woken.card := by
    calc (s.put r c).due.card ≤ (s.due.erase r ∪ woken).card := Finset.card_le_card hdue
      _ ≤ (s.due.erase r).card + woken.card := Finset.card_union_le _ _
      _ = s.due.card - 1 + woken.card := by rw [Finset.card_erase_of_mem hr]
  have hpos : 0 < s.due.card := Finset.card_pos.mpr ⟨r, hr⟩
  unfold restless
  change c.flow.turns.queue.length + _ < _
  omega

end Streams

namespace Net

variable {config : RammuxRole → RammuxConfig} {n n' : Net} {p : RammuxRole}
  {tr : List (Action × Streams.Output)} {a : Action} {o : Streams.Output}

/-- Whether a step is one of the applications. -/
def Action.fromApp : Action → Bool
  | .open .. | .app .. => true
  | .poll .. | .observe .. | .deliver _ => false

/-- What an endpoint has left to do, and its frames in flight. -/
def workOf (n : Net) (p : RammuxRole) : ℕ :=
  (n.ends p).workload + ((n.wire p).map Packet.work).sum

/-- What is left to do. -/
def work (n : Net) : ℕ := n.workOf .client + n.workOf .server

/-- The work that is left is that of the two endpoints. -/
theorem work_eq (n : Net) (p : RammuxRole) : n.work = n.workOf p + n.workOf p.other := by
  cases p
  · rfl
  · exact Nat.add_comm _ _

/-- What a step of an endpoint takes and adds, for an endpoint of a run. -/
theorem act_workload (h : (machine config).Run tr n) {b : Streams.Action}
    (hact : n.act p b = .ok (o, n')) (hopen : ∀ key, b ≠ .open key)
    (happ : ∀ r op, b ≠ .app r op) :
    (n'.wire = n.wire ∧ n'.ends p.other = n.ends p.other) ∧
      o.work + (n'.ends p).workload ≤ (n.ends p).workload + b.work := by
  obtain ⟨s, hstep, rfl⟩ := act_eq_ok.mp hact
  obtain ⟨_, hrun⟩ := ends_of_run h p
  have hconfig := (Streams.same_of_run hrun).2
  have hconfig' := (Streams.same_of_run (hrun.step hstep)).2
  refine ⟨⟨rfl, put_ends_other n p s⟩, ?_⟩
  rw [put_ends_self]
  exact Streams.step_workload (Streams.traced_of_run hrun) (Streams.tables_of_run hrun) hstep
    (hconfig'.trans hconfig.symm) hopen happ

/-- Recording a pair leaves the frames in flight. -/
theorem pair_wire (n : Net) (p : RammuxRole) (r : StreamRef) (o : Streams.Output) :
    (n.pair p r o).wire = n.wire := by
  unfold pair
  split <;> rfl

/-- What a poll yields leaves the endpoint, and is in flight. -/
theorem send_work (n : Net) (p : RammuxRole) (r : StreamRef) (res : Poll StreamUpdate) :
    (Streams.Output.polled res).busy + (n.send p r (.polled res)).work ≤
      (Streams.Output.polled res).work + n.work := by
  cases res with
  | pending => exact le_rfl
  | ready u =>
    have hother : (n.send p r (.polled (.ready u))).workOf p.other = n.workOf p.other := by
      change (n.ends p.other).workload + ((Function.update n.wire p _ p.other).map _).sum = _
      rw [Function.update_of_ne p.other_ne]
      rfl
    have hself : (n.send p r (.polled (.ready u))).workOf p = n.workOf p + (u.packet r).work := by
      change (n.ends p).workload + ((Function.update n.wire p _ p).map _).sum = _
      rw [Function.update_self, List.map_append, List.sum_append, List.map_singleton,
        List.sum_singleton, ← Nat.add_assoc]
      rfl
    have hu := u.packet_work r
    rw [work_eq _ p, work_eq n p, hother, hself]
    change 1 + _ ≤ u.work + _
    omega

/-- A step that sends a frame or receives one takes from what is left to do. -/
theorem step_work (h : (machine config).Run tr n) (hstep : n.step a = .ok (o, n'))
    (hquiet : a.fromApp = false) : o.busy + n'.work ≤ n.work := by
  cases a with
  | «open» p key => cases hquiet
  | app p r op => cases hquiet
  | poll p r allowance =>
    obtain ⟨⟨o, n₁⟩, hact, hsend⟩ := Lib.bind_eq_ok.mp hstep
    obtain ⟨s, hpoll, -⟩ := act_eq_ok.mp hact
    obtain ⟨⟨res, s₁⟩, -, hres⟩ := Lib.bind_eq_ok.mp hpoll
    cases hres
    cases hsend
    obtain ⟨⟨hwire, hother⟩, hload⟩ := act_workload h hact (by simp) (by simp)
    -- What was sent is in flight, which is less to do than what it was before.
    have hsent := send_work n₁ p r res
    rw [work_eq n₁ p, workOf, workOf, hwire, hother] at hsent
    change _ ≤ (n.ends p).workload + 0 at hload
    rw [work_eq n p, workOf, workOf]
    omega
  | observe p rtt =>
    obtain ⟨⟨hwire, hother⟩, hload⟩ := act_workload h hstep (by simp) (by simp)
    cases hstep
    change 0 + _ ≤ (n.ends p).workload + 0 at hload
    change 0 + _ ≤ _
    rw [work_eq _ p, work_eq n p]
    unfold workOf
    rw [hwire, hother]
    omega
  | deliver p =>
    simp only [step] at hstep
    split at hstep
    · cases hstep
      exact (Nat.zero_add _).le
    · next pkt rest hw =>
      obtain ⟨⟨o, n₁⟩, hact, hpair⟩ := Lib.bind_eq_ok.mp hstep
      cases hpair
      obtain ⟨⟨hwire, hother⟩, hload⟩ := act_workload h hact (by simp) (by simp)
      rw [RammuxRole.other_other] at hother
      -- The frame was in flight; what it starts is paid for by its `SYN`.
      have hbusy : o.busy ≤ 1 := by
        unfold Streams.Output.busy
        split <;> omega
      rw [work_eq _ p, work_eq n p]
      unfold workOf
      rw [pair_ends, pair_wire]
      dsimp only
      rw [hwire, hother, Function.update_self, Function.update_of_ne p.other_ne, hw, List.map_cons,
        List.sum_cons]
      change _ ≤ (n.ends p.other).workload + 4 * pkt.header.flags.syn.toNat at hload
      unfold Packet.work
      omega

/-- Only the applications keep the endpoints busy: in whatever order the tasks are polled and the
frames are received, no more frames are sent and received than there is work left. -/
theorem settles (h : (machine config).Run tr n)
    {steps : List (Lib.Machine.Taken Net Action Streams.Output)}
    (hpath : (machine config).Path n steps n') (hquiet : ∀ t ∈ steps, t.action.fromApp = false) :
    (steps.map fun t => t.answer.busy).sum + n'.work ≤ n.work := by
  refine hpath.amortised (I := fun n => ∃ tr, (machine config).Run tr n)
    (P := fun a => a.fromApp = false) (f := fun t => t.answer.busy) (p := work) ?_ ⟨tr, h⟩ hquiet
  rintro n a o n' ⟨tr, hrun⟩ hquiet hstep
  exact ⟨⟨_, hrun.step hstep⟩, step_work hrun hstep hquiet⟩

/-- A stream with a byte to send. Its frame is sent and received, and gives the peer a stream, so of
the ten that were left to do eight still are. -/
theorem settles_first : ∃ tr n steps n', (machine fun _ => Streams.tightConfig).Run tr n ∧
    (machine fun _ => Streams.tightConfig).Path n steps n' ∧
    (∀ t ∈ steps, t.action.fromApp = false) ∧ (steps.map fun t => t.answer.busy).sum = 2 ∧
    n.work = 10 ∧ (steps.map fun t => t.answer.busy).sum + n'.work ≤ n.work := by
  have h := Lib.Machine.Run.init (M := machine fun _ => Streams.tightConfig)
    |>.step (a := .open .client 0) rfl
    |>.step (a := .app .client 0 (.write [7])) rfl
  obtain ⟨tr, n, h, steps, n', hpath, hquiet, hbusy, hwork⟩ : ∃ tr n,
      (machine fun _ => Streams.tightConfig).Run tr n ∧ ∃ steps n',
      (machine fun _ => Streams.tightConfig).Path n steps n' ∧
      (∀ t ∈ steps, t.action.fromApp = false) ∧ (steps.map fun t => t.answer.busy).sum = 2 ∧
      n.work = 10 :=
    ⟨_, _, h, _, _, .cons (a := .poll .client 0 0) (by with_unfolding_all rfl) <|
      .cons (a := .deliver .client) (by with_unfolding_all rfl) <| .nil _, by simp [Action.fromApp],
      by with_unfolding_all rfl, by decide +kernel⟩
  exact ⟨tr, n, steps, n', h, hpath, hquiet, hbusy, hwork, settles h hpath hquiet⟩

/-! ## Rest -/

/-- How far the tasks of both endpoints are from being all parked. -/
def restless (n : Net) : ℕ := (n.ends .client).restless + (n.ends .server).restless

/-- How restless the two endpoints are, they are together. -/
theorem restless_eq (n : Net) (p : RammuxRole) :
    n.restless = (n.ends p).restless + (n.ends p.other).restless := by
  cases p
  · rfl
  · exact Nat.add_comm _ _

/-- The steps that are due: to receive a frame that is in flight, and to poll a task that is
scheduled, with any allowance. -/
def Due (n : Net) : Action → Prop
  | .deliver p => n.wire p ≠ []
  | .poll p r _ => r ∈ (n.ends p).due
  | .open .. | .app .. | .observe .. => False

/-- Where nothing is due, the endpoints are at rest. -/
theorem exists_due (h : (machine config).Run tr n) (hq : ¬ n.Quiescent) : ∃ a, n.Due a := by
  by_contra hno
  refine hq ⟨fun p => ?_, fun p r htask => ⟨htask, ?_⟩⟩
  · by_contra hw
    exact hno ⟨.deliver p, hw⟩
  · obtain ⟨_, hrun⟩ := ends_of_run h p
    obtain ⟨task, htask⟩ := Option.ne_none_iff_exists'.mp htask
    have hr := ((Streams.tables_of_run hrun).taskId r task htask).1
    by_contra hscheduled
    refine hno ⟨.poll p r 0, Finset.mem_filter.mpr ⟨Finset.mem_range.mpr hr, ?_⟩⟩
    rw [htask, Bool.not_eq_false _ |>.mp hscheduled]
    rfl

/-- An endpoint never sees a violation. -/
theorem intact_of_run (hc : Compatible config) (h : (machine config).Run tr n) (p : RammuxRole) :
    (n.ends p).Intact p (config p) := by
  refine h.invariant (I := fun _ n => (n.ends p).Intact p (config p)) .init ?_
  intro tr n a o n' hrun hintact hstep
  obtain ⟨hi, hs⟩ := inv_of_run hc hrun
  have hok := (step_inv hc hi hs hstep).2
  have hact (q : RammuxRole) (b : Streams.Action) (n₁ : Net) (hact : n.act q b = .ok (o, n₁)) :
      (n₁.ends p).Intact p (config p) := by
    obtain ⟨s, hs, rfl⟩ := act_eq_ok.mp hact
    rcases q.eq_or_eq_other p with rfl | rfl
    · rw [put_ends_self]
      exact hintact.step hs hok
    · rw [put_ends_other]
      exact hintact
  cases a with
  | «open» q key => exact hact q _ _ hstep
  | app q r op => exact hact q _ _ hstep
  | observe q rtt => exact hact q _ _ hstep
  | poll q r allowance =>
    obtain ⟨⟨o', n₁⟩, hpoll, hsend⟩ := Lib.bind_eq_ok.mp hstep
    cases hsend
    rw [send_ends]
    exact hact q _ _ hpoll
  | deliver q =>
    change n.step (.deliver q) = _ at hstep
    simp only [step] at hstep
    split at hstep
    · cases hstep
      exact hintact
    · obtain ⟨⟨o', n₁⟩, hreceive, hpair⟩ := Lib.bind_eq_ok.mp hstep
      cases hpair
      rw [pair_ends]
      exact hact q.other _ n₁ hreceive

/-- A step that is due is made, and takes from what is left to do; or it is a poll that yields
nothing, and parks its task. -/
theorem Due.step (hdue : n.Due a) (hc : Compatible config) (h : (machine config).Run tr n) :
    ∃ o n', n.step a = .ok (o, n') ∧
      toLex (n'.work, n'.restless) < toLex (n.work, n.restless) := by
  cases a with
  | «open» p key => cases hdue
  | app p r op => cases hdue
  | observe p rtt => cases hdue
  | deliver p =>
    obtain ⟨pkt, rest, hw⟩ := List.exists_cons_of_ne_nil hdue
    obtain ⟨hi, hs⟩ := inv_of_run hc h
    have hw' : n.wire p.other.other = pkt :: rest := by rw [RammuxRole.other_other, hw]
    -- A frame that is in flight is accepted, and is then not in flight any more.
    obtain ⟨-, -, newStream, s, -, -, hreceive, -⟩ := hi.receives hs hc hw'
    have hact : n.act p.other (.receive pkt.header pkt.data) =
        .ok (.received (.ok newStream), n.put p.other s) :=
      act_eq_ok.mpr ⟨s, Lib.bind_eq_ok.mpr ⟨_, hreceive, rfl⟩, rfl⟩
    obtain ⟨n', hstep⟩ : ∃ n', n.step (.deliver p) = .ok (.received (.ok newStream), n') := by
      simp only [step, hw]
      exact ⟨_, Lib.bind_eq_ok.mpr ⟨_, hact, rfl⟩⟩
    have hwork : 1 + n'.work ≤ n.work := step_work h hstep rfl
    exact ⟨_, n', hstep, Prod.Lex.lt_iff.mpr (.inl (by dsimp; omega))⟩
  | poll p r allowance =>
    obtain ⟨update, s, hpoll, -⟩ := (intact_of_run hc h p).pollUpdate_returns r allowance
    have hact : n.act p (.poll r allowance) = .ok (.polled update, n.put p s) :=
      act_eq_ok.mpr ⟨s, Lib.bind_eq_ok.mpr ⟨_, hpoll, rfl⟩, rfl⟩
    have hstep : n.step (.poll p r allowance) =
        .ok (.polled update, (n.put p s).send p r (.polled update)) :=
      Lib.bind_eq_ok.mpr ⟨_, hact, rfl⟩
    have hwork := step_work h hstep rfl
    refine ⟨_, _, hstep, Prod.Lex.lt_iff.mpr ?_⟩
    cases update with
    | ready u =>
      -- The update was left to be sent.
      change 1 + _ ≤ _ at hwork
      exact .inl (by dsimp; omega)
    | pending =>
      -- Nothing is sent; but the task was scheduled, and is parked now.
      change 0 + (n.put p s).work ≤ _ at hwork
      have hless : (n.put p s).restless < n.restless := by
        rw [restless_eq _ p, restless_eq n p, put_ends_self, put_ends_other]
        exact Nat.add_lt_add_right (Streams.pending_restless hdue hpoll) _
      rcases (Nat.zero_add _ ▸ hwork).lt_or_eq with hlt | heq
      · exact .inl hlt
      · exact .inr ⟨heq, hless⟩

/-- Whatever the order in which tasks are polled and frames are received, and whatever the
allowances are, two endpoints that are left alone come to rest: nothing is in flight, and every task
is parked. -/
theorem comes_to_rest (hc : Compatible config) (h : (machine config).Run tr n)
    {pick : List (Lib.Machine.Taken Net Action Streams.Output) → Net → Action}
    (hpick : ∀ steps tr m, (machine config).Run tr m → ¬ m.Quiescent → m.Due (pick steps m)) :
    ∃ steps n', (machine config).Path n steps n' ∧ Lib.Machine.Obeys pick [] steps ∧
      n'.Quiescent := by
  obtain ⟨steps, n', hpath, hobeys, -, hrest⟩ := Lib.Machine.Path.exists_rest (M := machine config)
    (I := fun n => ∃ tr, (machine config).Run tr n) (R := Quiescent)
    (fun n => toLex (n.work, n.restless)) pick (fun steps n ⟨tr, hrun⟩ hq => by
      obtain ⟨o, n', hstep, hlt⟩ := (hpick steps tr n hrun hq).step hc hrun
      exact ⟨o, n', hstep, ⟨_, hrun.step hstep⟩, hlt⟩) [] ⟨tr, h⟩
  exact ⟨steps, n', hpath, hobeys, hrest⟩

/-- A stream with data that was not sent yet comes to rest, for some order of the steps. -/
theorem comes_to_rest_unsent : ∃ tr n pick, (machine fun _ => Streams.tightConfig).Run tr n ∧
    ((n.ends .client).state 0).outbound.unsent = [1, 2, 3] ∧
    (∀ steps tr m, (machine fun _ => Streams.tightConfig).Run tr m → ¬ m.Quiescent →
      m.Due (pick steps m)) ∧
    ∃ steps n', (machine fun _ => Streams.tightConfig).Path n steps n' ∧
      Lib.Machine.Obeys pick [] steps ∧ n'.Quiescent := by
  classical
  have h := Lib.Machine.Run.init (M := machine fun _ => Streams.tightConfig)
    |>.step (a := .open .client 0) rfl
    |>.step (a := .app .client 0 (.write [1, 2, 3])) rfl
  -- The steps are picked by choice among those that are due.
  have hpick : ∀ (steps : List (Lib.Machine.Taken Net Action Streams.Output)) tr m,
      (machine fun _ => Streams.tightConfig).Run tr m → ¬ m.Quiescent →
      m.Due (if hdue : ∃ a, m.Due a then hdue.choose else .deliver .client) := by
    intro steps tr m hrun hq
    rw [dif_pos (exists_due hrun hq)]
    exact (exists_due hrun hq).choose_spec
  exact ⟨_, _, _, h, by with_unfolding_all rfl, hpick, comes_to_rest compatible_tight h hpick⟩

end Net

end Rammux
