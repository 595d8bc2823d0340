import Rammux.Connection.Flushing

/-!
# What a stream has left to send

An update of a stream costs something that the application put in. Each one carries data, a `FIN_*`,
or at least a threshold of credit: data was written, a `FIN_*` is sent once in either direction, and
credit is for bytes that the application read. `StreamState.toSend` counts what a stream can still
pay for, in bytes of credit, so that an update takes at least a threshold of it, and nothing that
the peer does adds to it.

So a peer cannot make an endpoint talk: whatever it sends, the updates of a stream are bounded by
the bytes that were written to the stream and read from it.
-/

namespace Rammux

/-- The bytes that the application wrote. -/
def AppOp.wrote : AppOp → AppResult → ℕ
  | .write data, .written (.ok ()) => data.length
  | _, _ => 0

namespace InboundTraffic

/-- What the direction can still send, in bytes of credit: the credit, and `FIN_READ`. -/
def toSend (t : InboundTraffic) : ℕ := t.creditThreshold * (!t.finSent).toNat + t.credit

/-- An update takes at least a threshold of what there is to send. -/
theorem pollUpdate_toSend {t t' : InboundTraffic} {pool pool' : Pool} {res : Poll (UInt32 × Bool)}
    (hth : t.creditThreshold < 2^32) (h : t.pollUpdate pool = .ok (res, t', pool')) :
    t'.creditThreshold = t.creditThreshold ∧
      (if res = .pending then 0 else t.creditThreshold) + t'.toSend ≤ t.toSend := by
  rcases pollUpdate_cases h with ⟨rfl, -, rfl, -⟩ |
    ⟨credit, rfl, hreading, hle, hcredit, -, rfl, -⟩ |
    ⟨rfl, -, hopen, rfl, -⟩
  · exact ⟨rfl, by simp⟩
  · have hopen := not_finSent_of_reading hreading
    have hkept : InboundTraffic.finSent { t with credit := t.credit - credit.toNat, window := {
        t.window with unacked := t.window.unacked - credit.toNat } } = t.finSent := rfl
    refine ⟨rfl, ?_⟩
    rw [if_neg (by simp), toSend, toSend, hkept]
    dsimp only
    omega
  · refine ⟨rfl, ?_⟩
    rw [if_neg (by simp), toSend, toSend, hopen]
    simp [InboundTraffic.finSent, finState]

end InboundTraffic

namespace OutboundTraffic

/-- The updates that the direction can still send: a byte in each, and `FIN_WRITE`. -/
def toSend (t : OutboundTraffic) : ℕ := t.unsent.length + (!t.finSent).toNat

/-- An update takes something from what the direction can still send. -/
theorem pollUpdate_toSend {t t' : OutboundTraffic} {flow flow' : ConnFlow} {me : StreamRef}
    {allowance : ℚ≥0} {wk wk' : Wakes} {res : Poll (Bytes × Bool)}
    (h : t.pollUpdate flow me allowance wk = .ok (res, t', flow', wk')) :
    (if res = .pending then 0 else 1) + t'.toSend ≤ t.toSend := by
  obtain ⟨n, wk₁, -, -, ⟨rfl, -, rfl, -⟩ | ⟨chunk, fin, rfl, hsends⟩⟩ := pollUpdate_cases h
  · simp
  · have hlen : t.unsent.length = chunk.length + t'.unsent.length := by
      rw [hsends.unsent, List.length_append]
    rw [if_neg (by simp), toSend, toSend, hsends.notSent, hsends.finSent]
    rcases hsends.something with hchunk | rfl
    · have hpos := List.length_pos_iff.mpr hchunk
      have hfin : (!fin).toNat ≤ (!false).toNat := by cases fin <;> decide
      omega
    · simp only [Bool.not_true, Bool.not_false, Bool.toNat_true, Bool.toNat_false]
      omega

end OutboundTraffic

/-- What a stream can still send, in bytes of credit. -/
def StreamState.toSend (t : StreamState) : ℕ :=
  t.inbound.toSend + t.inbound.creditThreshold * t.outbound.toSend

namespace StreamCtx

variable {c c' : StreamCtx} {me : StreamRef}

/-- What the peer sends gives a stream nothing to send. -/
theorem received_toSend {credit : Option NonZeroU32} {data : Bytes} {flags : ControlFlags}
    {verdict : Except StreamError FinState}
    (h : c.received credit data flags me = .ok (verdict, c')) :
    c'.state.toSend ≤ c.state.toSend := by
  obtain ⟨hin, hout⟩ := received_finSent h
  have hunsent : c'.state.outbound.unsent.length ≤ c.state.outbound.unsent.length := by
    rcases received_waiting h with ⟨hkept, -⟩ | ⟨-, -, hclosed⟩
    · exact (Prod.mk.inj hkept).1 ▸ le_rfl
    · rw [OutboundTraffic.unsent_of_finReceived hclosed]
      exact Nat.zero_le _
  unfold StreamState.toSend InboundTraffic.toSend OutboundTraffic.toSend
  rw [hin, hout, received_credit h, received_threshold h]
  gcongr

/-- What waits in a stream grows by what the application writes. -/
theorem app_unsent {op : AppOp} {res : AppResult} (h : c.app op me = .ok (res, c')) :
    c'.state.outbound.unsent.length ≤ c.state.outbound.unsent.length + op.wrote res := by
  cases op with
  | pollRead waker =>
    obtain ⟨⟨chunk, inbound, wakes⟩, -, h⟩ := Lib.bind_eq_ok.mp h
    cases h
    exact Nat.le_add_right _ _
  | closeReading =>
    cases h
    exact Nat.le_add_right _ _
  | pollWriteReady waker =>
    cases h
    exact (OutboundTraffic.pollWriteReady_rewaked c.state.outbound waker).same.2.1 ▸ le_rfl
  | pollFlushed waker =>
    cases h
    exact (OutboundTraffic.pollFlushed_rewaked c.state.outbound waker).same.2.1 ▸ le_rfl
  | closeWriting =>
    cases h
    exact (c.state.outbound.closeWriting_unsent me c.wakes).1 ▸ le_rfl
  | write data =>
    have hwrite := (c.state.outbound.write_unsent data me c.wakes).2
    cases h
    revert hwrite
    rcases hres : (c.state.outbound.write data me c.wakes).1 with e | _
    · cases e with
      | brokenPipe => exact fun hsame => hsame.2 ▸ le_rfl
      | notReady => exact fun hsame => hsame ▸ le_rfl
    · intro hgrows
      dsimp only at hgrows ⊢
      rw [hgrows.2, List.length_append]
      exact le_rfl

/-- The application gives a stream to send what it writes, and the credit for what it reads. -/
theorem app_toSend {op : AppOp} {res : AppResult} (h : c.app op me = .ok (res, c')) :
    c'.state.toSend ≤
      c.state.toSend + (c.state.inbound.creditThreshold * op.wrote res + res.readLen) := by
  have hused := app_used h
  have hunsent := Nat.mul_le_mul_left c.state.inbound.creditThreshold (app_unsent h)
  unfold StreamState.toSend InboundTraffic.toSend OutboundTraffic.toSend
  rw [hused.inFinSent, hused.outFinSent, app_credit h, app_threshold h]
  rw [Nat.mul_add] at hunsent ⊢
  rw [Nat.mul_add]
  omega

/-- A poll that yields takes a threshold of what there is to send. -/
theorem pollProgress_toSend {task task' : StreamUpdates} {allowance : ℚ≥0} {res : Poll Progress}
    (hth : c.state.inbound.creditThreshold < 2^32)
    (h : c.pollProgress task me allowance = .ok (res, task', c')) :
    (if res = .pending then 0 else c.state.inbound.creditThreshold) + c'.state.toSend ≤
      c.state.toSend := by
  obtain ⟨inRes, outRes, rxPool, wk, hin, hout, hres⟩ := pollProgress_split h
  obtain ⟨hkept, hin⟩ := InboundTraffic.pollUpdate_toSend hth hin
  have hout := Nat.mul_le_mul_left c.state.inbound.creditThreshold
    (OutboundTraffic.pollUpdate_toSend hout)
  rw [Nat.mul_add] at hout
  unfold StreamState.toSend
  rw [hkept]
  rcases hres with ⟨rfl, rfl, rfl, -⟩ | ⟨hsome, -, -, u, -, -, -, -, rfl⟩
  · simp only [if_true] at hin hout ⊢
    omega
  · -- One of the two directions yields.
    rw [if_neg (by simp)]
    rcases not_and_or.mp hsome with hready | hready
    · rw [if_neg hready] at hin
      omega
    · rw [if_neg hready] at hout
      omega

end StreamCtx

/-- The credit threshold fits in a header. -/
theorem creditThreshold_lt (b : ℕ) : creditThreshold b < 2^32 := by
  unfold creditThreshold creditThresholdMax
  omega

namespace Streams

variable {tr : List (Action × Output)} {s s' : Streams} {a : Action} {o : Output} {r : StreamRef}

/-- The bytes that the application wrote to a stream in an event. -/
def eventWritten (r : StreamRef) : Action × Output → ℕ
  | (.app r' op, .app result) => if r' = r then op.wrote result else 0
  | _ => 0

/-- The bytes that the application ever wrote to a stream. -/
def bytesWritten (tr : List (Action × Output)) (r : StreamRef) : ℕ := (tr.map (eventWritten r)).sum

/-- What a step takes from what a stream has to send, and what it adds. -/
theorem step_toSend (hth : (s.state r).inbound.creditThreshold < 2^32)
    (h : s.step a = .ok (o, s')) (hr : r < s.next) :
    (s.state r).inbound.creditThreshold * (emitted r (a, o)).toList.length +
        (s'.state r).toSend ≤
      (s.state r).toSend + ((s.state r).inbound.creditThreshold * eventWritten r (a, o) +
        eventRead r (a, o)) := by
  cases step_stream h hr with
  | other hstate _ _ _ hpoll =>
    rw [hstate, emitted_of_other hpoll]
    simp
  | app ha ho happ hs =>
    subst ha ho hs
    rw [put_state_self]
    have hle := StreamCtx.app_toSend happ
    simpa [emitted, eventWritten, eventRead, ctx] using hle
  | received ha ho _ _ hrec hs =>
    have hstate := congrArg (fun s => s.state r) hs
    dsimp only at hstate
    rw [hstate, put_state_self, ha]
    have hle := StreamCtx.received_toSend hrec
    simpa [emitted, eventWritten, eventRead, ctx] using hle
  | polled ha _ hpoll hstate _ hres =>
    have hle := StreamCtx.pollProgress_toSend hth hpoll
    rw [hstate, Function.update_self, ha]
    rcases hres with ⟨rfl, rfl, -⟩ | ⟨u, fin, rfl, rfl, -⟩ | ⟨u, fin, rfl, rfl, -⟩
    all_goals simpa [emitted, eventWritten, eventRead, ctx] using hle

/-- A stream that is started has two `FIN_*`s to send. -/
theorem Started.toSend (h : s.Started a o s') :
    (s'.state s.next).toSend ≤ creditThreshold s.config.localRecvWindow * 2 := by
  have hnew : (StreamState.new s.config).toSend = creditThreshold s.config.localRecvWindow * 2 := by
    change creditThreshold s.config.localRecvWindow * 1 + 0 +
      creditThreshold s.config.localRecvWindow * (0 + 1) = _
    omega
  cases h with
  | opened _ _ _ _ _ hstate => exact hstate ▸ hnew.le
  | @accepted header _ _ _ _ _ _ _ _ hrec hs =>
    have hfresh : ((s.accept header.id).ctx s.next).state = StreamState.new s.config :=
      Function.update_self _ _ _
    have hstate := congrArg (fun s' => s'.state s.next) hs
    dsimp only at hstate
    rw [hstate, put_state_self]
    exact (StreamCtx.received_toSend hrec).trans (hfresh ▸ hnew.le)

/-- What a stream can send, now or once it is started. -/
def budget (s : Streams) (r : StreamRef) : ℕ :=
  if r < s.next then (s.state r).toSend else creditThreshold s.config.localRecvWindow * 2

/-- What a step takes from the budget of a stream, and what it adds. -/
theorem step_budget (htraced : Traced tr s) (ht : s.Tables) (h : s.step a = .ok (o, s'))
    (hconfig : s'.config = s.config) :
    creditThreshold s.config.localRecvWindow * (emitted r (a, o)).toList.length + s'.budget r ≤
      s.budget r + (creditThreshold s.config.localRecvWindow * eventWritten r (a, o) +
        eventRead r (a, o)) := by
  rcases Nat.lt_or_ge r s.next with hr | hr
  · have hth := htraced.threshold r hr
    have hle := step_toSend (hth ▸ creditThreshold_lt _) h hr
    rw [hth] at hle
    rw [budget, budget, if_pos hr, if_pos (hr.trans_le (next_le_of_step h))]
    exact hle
  · -- The stream is not there yet: nothing is sent, and the step may start it.
    have hbudget : s'.budget r ≤ s.budget r := by
      rw [budget, budget, if_neg hr.not_gt, hconfig]
      split_ifs with hr'
      · rcases step_next h with hnext | ⟨hnext, hs⟩
        · exact absurd (hnext ▸ hr') hr.not_gt
        · obtain rfl : r = s.next := le_antisymm (Nat.le_of_lt_succ (hr'.trans_eq hnext)) hr
          exact hs.toSend
      · exact le_rfl
    rw [emitted_eq_none h ht hr]
    calc _ = s'.budget r := by simp
      _ ≤ s.budget r := hbudget
      _ ≤ _ := Nat.le_add_right _ _

/-- The updates of a stream, counted over the events. -/
theorem length_updatesOf (tr : List (Action × Output)) (r : StreamRef) :
    (updatesOf tr r).length = (tr.map fun e => (emitted r e).toList.length).sum := by
  rw [updatesOf, List.filterMap_eq_flatMap_toList, List.length_flatMap]

/-- Whatever the peer sends, the updates of a stream are paid for by the application: there is at
most one for each byte written, one for each threshold of bytes read, and one for each `FIN_*`. -/
theorem updates_paid_for {role : RammuxRole} {config : RammuxConfig}
    (h : (machine role config).Run tr s) (r : StreamRef) :
    (updatesOf tr r).length ≤
      bytesWritten tr r + bytesRead tr r / creditThreshold config.localRecvWindow + 2 := by
  have hpos := creditThreshold_pos config.localRecvWindow
  have hpaid := h.amortised
    (f := fun e => creditThreshold config.localRecvWindow * (emitted r e).toList.length)
    (g := fun e => creditThreshold config.localRecvWindow * eventWritten r e + eventRead r e)
    (p := fun s => s.budget r) (by
      intro tr s a o s' hrun hstep
      have hconfig := (same_of_run hrun).2
      have hconfig' := (same_of_run (hrun.step hstep)).2
      rw [← hconfig]
      exact step_budget (traced_of_run hrun) (tables_of_run hrun) hstep
        (hconfig'.trans hconfig.symm))
  have hinit : (machine role config).init.budget r = creditThreshold config.localRecvWindow * 2 :=
    if_neg (Nat.not_lt_zero r)
  rw [List.sum_map_mul_left, List.sum_map_add, List.sum_map_mul_left, ← length_updatesOf,
    ← bytesWritten, ← bytesRead, hinit] at hpaid
  -- In thresholds: what is not paid for by writing and by the `FIN_*`s is paid for by reading.
  have hread : ((updatesOf tr r).length - (bytesWritten tr r + 2)) *
      creditThreshold config.localRecvWindow ≤ bytesRead tr r := by
    rw [Nat.mul_comm, Nat.mul_sub, Nat.mul_add]
    omega
  have hdiv := (Nat.le_div_iff_mul_le hpos).mpr hread
  omega

/-- A stream that writes two bytes in two updates, returns the credit for two bytes at once, and is
closed: six updates are paid for, and four are sent. -/
theorem updates_paid_for_closed : ∃ tr s, (machine .client tightConfig).Run tr s ∧
    (bytesWritten tr 0, bytesRead tr 0, creditThreshold tightConfig.localRecvWindow) = (2, 2, 1) ∧
    (updatesOf tr 0).length = 4 ∧ (updatesOf tr 0).length ≤ bytesWritten tr 0 +
      bytesRead tr 0 / creditThreshold tightConfig.localRecvWindow + 2 := by
  have hrun := Lib.Machine.Run.init (M := machine .client tightConfig)
    |>.step (a := .open 0) (o := .opened (some 0)) rfl
    |>.step (a := .app 0 (.write [7])) (o := .app (.written (.ok ()))) rfl
    |>.step (a := .poll 0 0) (by with_unfolding_all rfl)
    |>.step (a := .app 0 (.write [8])) (o := .app (.written (.ok ()))) (by with_unfolding_all rfl)
    |>.step (a := .poll 0 0) (by with_unfolding_all rfl)
    |>.step (a := .receive ⟨⟨0⟩, {}, none, none⟩ [1, 2]) (by with_unfolding_all rfl)
    |>.step (a := .app 0 (.pollRead 0)) (o := .app (.read (.ready (some [1, 2]))))
      (by with_unfolding_all rfl)
    |>.step (a := .poll 0 0) (by with_unfolding_all rfl)
    |>.step (a := .app 0 .closeReading) (by with_unfolding_all rfl)
    |>.step (a := .app 0 .closeWriting) (by with_unfolding_all rfl)
    |>.step (a := .poll 0 0) (by with_unfolding_all rfl)
  exact ⟨_, _, hrun, by with_unfolding_all rfl, by with_unfolding_all rfl, updates_paid_for hrun 0⟩

end Streams

/-! ## What an endpoint has left to do -/

/-- What an update takes from what its stream has left to do: it is sent, and received, and a `SYN`
stands for the two `FIN_*`s of the stream that it gives the peer. -/
def StreamUpdate.work (u : StreamUpdate) : ℕ := 2 + 4 * u.flags.syn.toNat

namespace Streams

variable {tr : List (Action × Output)} {s s' : Streams} {a : Action} {o : Output} {r : StreamRef}

/-- Whether the `SYN` of a stream is still to be sent, as a number. -/
def unstarted (s : Streams) (r : StreamRef) : ℕ := (s.updates r).elim 0 fun task => task.syn.toNat

/-- The `SYN` of a stream is sent once. -/
theorem step_unstarted (h : s.step a = .ok (o, s')) (hr : r < s.next) :
    ((emitted r (a, o)).elim 0 fun u => u.flags.syn.toNat) + s'.unstarted r ≤ s.unstarted r := by
  unfold unstarted
  cases step_stream h hr with
  | other _ htask _ _ hpoll =>
    rw [htask, emitted_of_other hpoll]
    simp
  | app ha ho _ hs =>
    subst ha ho hs
    exact (Nat.zero_add _).le
  | received ha _ _ _ _ hs =>
    have htask := congrArg (fun s => s.updates r) hs
    dsimp only at htask
    rw [htask, ha]
    exact (Nat.zero_add _).le
  | polled ha htask hpoll _ _ hres =>
    rw [htask, ha]
    rcases hres with ⟨-, rfl, hup⟩ | ⟨u, fin, rfl, rfl, hup⟩ | ⟨u, fin, rfl, rfl, hup⟩
    · rw [hup, htask]
      exact (Nat.zero_add _).le
    · obtain ⟨rfl, u', hu', -, hsyn, -⟩ := StreamCtx.pollProgress_ready hpoll
      obtain rfl : u' = u := by
        split at hu' <;> cases hu'
        rfl
      rw [hup, Function.update_self, emitted, if_pos rfl]
      simp [hsyn]
    · obtain ⟨-, u', hu', -, hsyn, -⟩ := StreamCtx.pollProgress_ready hpoll
      obtain rfl : u' = u := by
        split at hu' <;> cases hu'
        rfl
      rw [hup, Function.update_self, emitted, if_pos rfl]
      simp [hsyn]

/-- What a stream has left to do, for as many updates as it can pay for. -/
def work (s : Streams) (r : StreamRef) : ℕ :=
  2 * ((s.state r).toSend / creditThreshold s.config.localRecvWindow) + 4 * s.unstarted r

/-- The work of a stream is done by its updates, and only the application makes it more. -/
theorem step_work (htraced : Traced tr s) (h : s.step a = .ok (o, s'))
    (hconfig : s'.config = s.config) (hr : r < s.next) (happ : ∀ op, a ≠ .app r op) :
    (emitted r (a, o)).elim 0 StreamUpdate.work + s'.work r ≤ s.work r := by
  have hpos := creditThreshold_pos s.config.localRecvWindow
  have hth := htraced.threshold r hr
  have hsend := step_toSend (hth ▸ creditThreshold_lt _) h hr
  have hsyn := step_unstarted h hr
  have hwritten : eventWritten r (a, o) = 0 := by
    unfold eventWritten
    split
    · next r' op res heq =>
      refine if_neg fun hr' => happ op ?_
      rw [← hr']
      exact (Prod.mk.inj heq).1
    · rfl
  have hread : eventRead r (a, o) = 0 := by
    unfold eventRead
    split
    · next r' op res heq =>
      refine if_neg fun hr' => happ op ?_
      rw [← hr']
      exact (Prod.mk.inj heq).1
    · rfl
  rw [hth, hwritten, hread, Nat.mul_zero, Nat.add_zero] at hsend
  -- In thresholds.
  have hdiv : (emitted r (a, o)).toList.length +
        (s'.state r).toSend / creditThreshold s.config.localRecvWindow ≤
      (s.state r).toSend / creditThreshold s.config.localRecvWindow := by
    rw [← Nat.mul_add_div hpos]
    exact Nat.div_le_div_right hsend
  unfold work
  rw [hconfig]
  cases hu : emitted r (a, o) with
  | none =>
    rw [hu] at hdiv hsyn
    simp only [Option.toList_none, List.length_nil, Option.elim_none] at hdiv hsyn ⊢
    omega
  | some u =>
    rw [hu] at hdiv hsyn
    simp only [Option.toList_some, List.length_singleton, Option.elim_some] at hdiv hsyn ⊢
    unfold StreamUpdate.work
    omega

/-- What all streams of an endpoint have left to do. -/
def workload (s : Streams) : ℕ := ∑ r ∈ Finset.range s.next, s.work r

/-- What a step takes from what an endpoint has left to do. -/
def Output.work : Output → ℕ
  | .polled (.ready u) => u.work
  | _ => 0

/-- What a step gives an endpoint to do: the `FIN_*`s of the stream that the peer starts. -/
def Action.work : Action → ℕ
  | .receive header _ => 4 * header.flags.syn.toNat
  | _ => 0

/-- A stream that the peer starts has two `FIN_*`s to send. -/
theorem Started.work (hs : s.Started a o s') (hconfig : s'.config = s.config)
    (hopen : ∀ key, a ≠ .open key) : s'.work s.next ≤ a.work := by
  have hpos := creditThreshold_pos s.config.localRecvWindow
  have hdiv : (s'.state s.next).toSend / creditThreshold s.config.localRecvWindow ≤ 2 :=
    Nat.div_le_of_le_mul hs.toSend
  obtain ⟨-, -, task, htask, hsyn⟩ := hs.new
  have hunstarted : s'.unstarted s.next = 0 := by
    have hno : task.syn ≠ true := fun ht => by
      obtain ⟨key, heq⟩ := hsyn.mp ht
      exact hopen key (Prod.mk.inj heq).1
    rw [unstarted, htask, Option.elim_some, Bool.not_eq_true _ |>.mp hno]
    rfl
  cases hs with
  | opened ha => exact absurd ha (hopen _)
  | accepted ha _ _ _ hflag =>
    subst ha
    unfold Streams.work Action.work
    dsimp only
    rw [hunstarted, hconfig, hflag, Bool.toNat_true]
    omega

/-- The update of a step is one of a stream that there is. -/
theorem output_work_le (ht : s.Tables) (h : s.step a = .ok (o, s')) :
    o.work ≤ ∑ r ∈ Finset.range s.next, (emitted r (a, o)).elim 0 StreamUpdate.work := by
  cases a with
  | poll r allowance =>
    obtain ⟨⟨res, s₁⟩, hpoll, h⟩ := Lib.bind_eq_ok.mp h
    cases h
    rcases pollUpdate_sends hpoll with ⟨rfl, -⟩ | ⟨u, rfl, hsent⟩
    · exact Nat.zero_le _
    · -- The task that yielded it is one of a stream that there is, so it is a summand.
      obtain ⟨task, htask, -⟩ := hsent.task
      have hr := Finset.mem_range.mpr (ht.taskId r task htask).1
      have hself : (emitted r (.poll r allowance, .polled (.ready u))).elim 0 StreamUpdate.work =
          u.work := by
        rw [emitted, if_pos rfl]
        rfl
      refine hself.ge.trans ?_
      exact Finset.single_le_sum (f := fun r' => (emitted r' (.poll r allowance,
        .polled (.ready u))).elim 0 StreamUpdate.work) (fun _ _ => Nat.zero_le _) hr
  | «open» key =>
    -- Nothing but a poll yields an update.
    simp only [step] at h
    split at h <;> cases h <;> exact Nat.zero_le _
  | receive header data =>
    obtain ⟨⟨res, s₁⟩, -, h⟩ := Lib.bind_eq_ok.mp h
    cases h
    exact Nat.zero_le _
  | app r op =>
    simp only [step] at h
    split at h
    · obtain ⟨⟨res, c⟩, -, h⟩ := Lib.bind_eq_ok.mp h
      cases h
      exact Nat.zero_le _
    · cases h
      exact Nat.zero_le _
  | observe rtt =>
    cases h
    exact Nat.zero_le _

/-- The work of an endpoint is done by its updates. Only its application makes it more, and the peer
by starting streams. -/
theorem step_workload (htraced : Traced tr s) (ht : s.Tables) (h : s.step a = .ok (o, s'))
    (hconfig : s'.config = s.config) (hopen : ∀ key, a ≠ .open key)
    (happ : ∀ r op, a ≠ .app r op) : o.work + s'.workload ≤ s.workload + a.work := by
  have hold : o.work + ∑ r ∈ Finset.range s.next, s'.work r ≤ s.workload := by
    have heach : ∀ r ∈ Finset.range s.next,
        (emitted r (a, o)).elim 0 StreamUpdate.work + s'.work r ≤ s.work r := fun r hr =>
      step_work htraced h hconfig (Finset.mem_range.mp hr) (happ r)
    have hsum := Finset.sum_le_sum heach
    rw [Finset.sum_add_distrib] at hsum
    exact le_trans (Nat.add_le_add_right (output_work_le ht h) _) hsum
  have hnew : s'.workload ≤ ∑ r ∈ Finset.range s.next, s'.work r + a.work := by
    unfold workload
    rcases step_next h with hnext | ⟨hnext, hs⟩
    · rw [hnext]
      exact Nat.le_add_right _ _
    · rw [hnext, Finset.sum_range_succ]
      exact Nat.add_le_add_left (hs.work hconfig hopen) _
  omega

end Streams

end Rammux
