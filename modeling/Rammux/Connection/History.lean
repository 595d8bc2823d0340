import Rammux.Connection.Accounts

/-!
# What the frames of a connection say

The rules of `PROTOCOL.md` are about the frames that the two sides sent each other. `History` is
what these frames say about each stream: the bytes and the credit sent and received, and the
`FIN_*`s. It is computed from the frames of a run and from nothing else; a stream is live from its
start until all four `FIN_*`s are sent and received. `History.Breaks` are the rules, over the
history.

The endpoint keeps much less: a state of each direction, one counter for each, and a counter of the
pool. `History.Remembers` says that it is enough, and `remembers_of_run` that it holds along every
run.
-/

namespace Rammux

/-- What the frames of a live stream say. -/
structure StreamRecord where
  bytesSent : ℕ := 0
  creditReceived : ℕ := 0
  bytesReceived : ℕ := 0
  creditSent : ℕ := 0
  finReadSent : Bool := false
  finWriteSent : Bool := false
  finReadReceived : Bool := false
  finWriteReceived : Bool := false
  deriving DecidableEq, Repr

namespace StreamRecord

/-- All four `FIN_*`s are sent and received. -/
def closed (e : StreamRecord) : Bool :=
  e.finReadSent && e.finWriteSent && e.finReadReceived && e.finWriteReceived

/-- A frame of the peer. -/
def received (e : StreamRecord) (header : StreamHeader) (data : Bytes) : StreamRecord :=
  { e with
    creditReceived := e.creditReceived + creditLen header.credit
    bytesReceived := e.bytesReceived + data.length
    finWriteReceived := e.finWriteReceived || header.flags.finWrite
    finReadReceived := e.finReadReceived || header.flags.finRead }

/-- A frame of ours. -/
def emitted (e : StreamRecord) (u : StreamUpdate) : StreamRecord :=
  { e with
    creditSent := e.creditSent + u.credit.toNat
    bytesSent := e.bytesSent + u.data.length
    finReadSent := e.finReadSent || u.flags.finRead
    finWriteSent := e.finWriteSent || u.flags.finWrite }

/-- What the stream uses of our pool: the bytes received and not credited beyond the base window,
until our `FIN_READ`. -/
def share (window : ℕ) (e : StreamRecord) : ℕ :=
  if e.finReadSent then 0 else e.bytesReceived - e.creditSent - window

end StreamRecord

/-- What the frames of a connection say. -/
structure History where
  /-- The IDs of the streams that were started, and are not closed. -/
  live : Finset StreamId
  records : StreamId → StreamRecord

namespace History

/-- No frame was sent. -/
def empty : History := ⟨∅, fun _ => {}⟩

/-- A stream is started. -/
def started (h : History) (id : StreamId) : History :=
  ⟨insert id h.live, Function.update h.records id {}⟩

/-- A frame of a stream. -/
def changed (h : History) (id : StreamId) (e : StreamRecord) : History :=
  ⟨if e.closed then h.live.erase id else h.live, Function.update h.records id e⟩

/-- The history after `SYN`, if a frame carries it. -/
def syn (h : History) (header : StreamHeader) : History :=
  if header.flags.syn then h.started header.id else h

/-- The history after one more event. -/
def event (role : RammuxRole) (h : History) : Streams.Action × Streams.Output → History
  | (.open key, .opened (some _)) =>
    match StreamId.fromSlabIdx key role with
    | some id => h.started id
    | none => h
  | (.receive header data, .received (.ok _)) =>
    (h.syn header).changed header.id (((h.syn header).records header.id).received header data)
  | (.poll _ _, .polled (.ready u)) => h.changed u.id ((h.records u.id).emitted u)
  | _ => h

/-- What the events of a run say. -/
def ofTrace (role : RammuxRole) (tr : List (Streams.Action × Streams.Output)) : History :=
  tr.foldl (event role) empty

/-! ## The rules -/

/-- `SYN` on an ID of ours, on a live ID, or with as many streams of the peer as it may have; or no
`SYN` on an ID that is not live. -/
def BreaksSyn (h : History) (role : RammuxRole) (config : RammuxConfig) (header : StreamHeader) :
    Prop :=
  if header.flags.syn then
    header.id.initiatedBy = role ∨ header.id ∈ h.live ∨
      config.maxInboundStreams ≤ {id ∈ h.live | id.initiatedBy ≠ role}.card
  else header.id ∉ h.live

/-- `WINDOW` after `FIN_READ`, or with more credit than there are bytes in flight. -/
def BreaksWindow (e : StreamRecord) (header : StreamHeader) : Prop :=
  header.credit ≠ none ∧
    (e.finReadReceived = true ∨ e.bytesSent - e.creditReceived < creditLen header.credit)

/-- `DATA` or `FIN_WRITE` after `FIN_WRITE`, or a second `FIN_READ`. -/
def BreaksFin (e : StreamRecord) (header : StreamHeader) (data : Bytes) : Prop :=
  ((data ≠ [] ∨ header.flags.finWrite = true) ∧ e.finWriteReceived = true) ∨
    (header.flags.finRead = true ∧ e.finReadReceived = true)

/-- `DATA` before our `FIN_READ`, with which the streams use more than our pool. -/
def BreaksPool (h : History) (config : RammuxConfig) (header : StreamHeader) (data : Bytes) :
    Prop :=
  data ≠ [] ∧ (h.records header.id).finReadSent = false ∧
    config.localRecvPool < ∑ id ∈ h.live, (if id = header.id
      then ({ h.records id with
        bytesReceived := (h.records id).bytesReceived + data.length } : StreamRecord)
      else h.records id).share config.localRecvWindow

/-- The frame breaks the rules. `SYN` counts before the other parts. -/
def Breaks (h : History) (role : RammuxRole) (config : RammuxConfig) (header : StreamHeader)
    (data : Bytes) : Prop :=
  h.BreaksSyn role config header ∨ BreaksWindow ((h.syn header).records header.id) header ∨
    BreaksFin ((h.syn header).records header.id) header data ∨
    (h.syn header).BreaksPool config header data

end History

/-! ## The state of a stream is enough -/

/-- The state of a stream agrees with its frames. -/
structure StreamRecord.Agrees (e : StreamRecord) (st : StreamState) : Prop where
  finReadSent : st.inbound.finSent = e.finReadSent
  finWriteSent : st.outbound.finSent = e.finWriteSent
  finReadReceived : st.outbound.finReceived = e.finReadReceived
  finWriteReceived : st.inbound.ended = e.finWriteReceived
  /-- What counts is what was received and not credited. -/
  received : st.inbound.finSent = false → st.inbound.window.unacked + e.creditSent = e.bytesReceived
  /-- What is in flight is what was sent and not credited. -/
  sent : st.outbound.finReceived = false → st.outbound.unacked + e.creditReceived = e.bytesSent

namespace StreamRecord.Agrees

variable {e : StreamRecord} {st st' : StreamState}

/-- A new stream agrees with the empty record. -/
theorem new (config : RammuxConfig) : ({} : StreamRecord).Agrees (StreamState.new config) :=
  ⟨rfl, rfl, rfl, rfl, fun _ => rfl, fun _ => rfl⟩

/-- The stream is dead when all four `FIN_*`s are sent and received. -/
theorem isDead (h : e.Agrees st) : st.finState.isDead = e.closed := by
  rw [Bool.eq_iff_iff, StreamState.isDead_iff, h.finReadSent, h.finWriteSent, h.finReadReceived,
    h.finWriteReceived]
  simp only [closed, Bool.and_eq_true]
  tauto

/-- The application changes nothing that the frames say. -/
theorem used (h : e.Agrees st) (hu : st.Used st') : e.Agrees st' where
  finReadSent := hu.inFinSent.trans h.finReadSent
  finWriteSent := hu.outFinSent.trans h.finWriteSent
  finReadReceived := hu.finReceived.trans h.finReadReceived
  finWriteReceived := hu.ended.trans h.finWriteReceived
  received hf := by
    rw [hu.window]
    exact h.received (hu.inFinSent ▸ hf)
  sent hf := by
    rw [OutboundTraffic.unacked, hu.ledger]
    exact h.sent (hu.finReceived ▸ hf)

/-- A frame of the peer. -/
theorem receive {header : StreamHeader} {data : Bytes} (h : e.Agrees st)
    (hin : st.inbound.Received data header.flags.finWrite st'.inbound)
    (hout : st.outbound.Received (creditLen header.credit) header.flags.finRead st'.outbound) :
    (e.received header data).Agrees st' where
  finReadSent := hin.finSent.trans h.finReadSent
  finWriteSent := hout.finSent.trans h.finWriteSent
  finReadReceived := by rw [hout.finReceived, h.finReadReceived]; rfl
  finWriteReceived := by rw [hin.ended, h.finWriteReceived]; rfl
  received hf := by
    have hf' : st.inbound.finSent = false := hin.finSent.symm.trans hf
    have hsum := h.received hf'
    have hunacked := hin.unacked
    rw [hf'] at hunacked
    simp only [Bool.false_eq_true, if_false] at hunacked
    simp only [StreamRecord.received]
    omega
  sent hf := by
    rw [hout.finReceived, Bool.or_eq_false_iff] at hf
    have hsum := h.sent hf.1
    have hle := hout.credit_le
    have hunacked := hout.unacked
    rw [hf.2] at hunacked
    simp only [Bool.false_eq_true, if_false] at hunacked
    simp only [StreamRecord.received]
    omega

/-- A frame of ours. -/
theorem emit {u : StreamUpdate} (h : e.Agrees st)
    (hcredit : st.inbound.credit ≤ st.inbound.window.unacked)
    (hin : st.inbound.Emits u.credit.toNat u.flags.finRead st'.inbound)
    (hout : st.outbound.Emits u.data u.flags.finWrite st'.outbound) :
    (e.emitted u).Agrees st' where
  finReadSent := by rw [hin.finSent, h.finReadSent]; rfl
  finWriteSent := by rw [hout.finSent, h.finWriteSent]; rfl
  finReadReceived := hout.finReceived.trans h.finReadReceived
  finWriteReceived := hin.ended.trans h.finWriteReceived
  received hf := by
    rw [hin.finSent, Bool.or_eq_false_iff] at hf
    have hsum := h.received hf.1
    have hle := hin.credit_le
    have hunacked := hin.unacked
    rw [hf.2] at hunacked
    simp only [Bool.false_eq_true, if_false] at hunacked
    simp only [StreamRecord.emitted]
    omega
  sent hf := by
    have hsum := h.sent (hout.finReceived.symm.trans hf)
    have hunacked := hout.unacked
    simp only [StreamRecord.emitted]
    omega

end StreamRecord.Agrees

/-! ## The tables are enough -/

/-- The endpoint knows the live streams, and their states agree with their frames. -/
structure History.Remembers (h : History) (s : Streams) : Prop where
  live : ∀ id, id ∈ h.live ↔ s.lookup id ≠ none
  records : ∀ id r, s.lookup id = some r → (h.records id).Agrees (s.state r)

namespace History.Remembers

variable {h : History} {s s' : Streams} {r : StreamRef}

/-- A new connection remembers the empty history. -/
theorem new (role : RammuxRole) (config : RammuxConfig) :
    empty.Remembers (Streams.new role config) := by
  have hnone : ∀ id, (Streams.new role config).lookup id = none := by
    intro id
    unfold Streams.lookup
    split_ifs <;> rfl
  refine ⟨fun id => iff_of_false (Finset.notMem_empty id) (not_not.mpr (hnone id)), ?_⟩
  intro id r hr
  rw [hnone id] at hr
  cases hr

/-- A stream is started. -/
theorem created {id : StreamId} (hm : h.Remembers s) (ht : s.Tables) (hc : s.Created id s') :
    (h.started id).Remembers s' where
  live id' := by
    by_cases hid : id' = id
    · rw [hid, hc.lookup_self]
      exact iff_of_true (Finset.mem_insert_self _ _) (Option.some_ne_none _)
    · rw [hc.lookup_ne id' hid, ← hm.live id']
      exact Finset.mem_insert.trans (or_iff_right hid)
  records id' r hr := by
    by_cases hid : id' = id
    · subst hid
      obtain rfl : s.next = r := Option.some.inj (hc.lookup_self.symm.trans hr)
      rw [hc.new.1]
      simp only [started, Function.update_self]
      exact StreamRecord.Agrees.new _
    · rw [hc.lookup_ne id' hid] at hr
      rw [(hc.old (ht.lookup id' r hr).1).1]
      simp only [started, Function.update_of_ne hid]
      exact hm.records id' r hr

/-- A frame of a live stream. When the last `FIN_*` is sent or received, the stream is removed. -/
theorem touched {failed : Prop} {e : StreamRecord} (hm : h.Remembers s) (ht : s.Tables)
    (hh : s.Held) (htouch : s.Touched r failed s') (hok : ¬ failed)
    (hr : s.lookup (s.ids r) = some r) (he : e.Agrees (s'.state r)) :
    (h.changed (s.ids r) e).Remembers s' := by
  have hself : s'.lookup (s.ids r) = if e.closed then none else some r := by
    split_ifs with hclosed
    · exact htouch.gone hok (he.isDead.trans hclosed) (hh.alive _ _ hr)
    · rcases htouch.lookup (s.ids r) with heq | ⟨-, -, hdead, -⟩
      · rw [heq, hr]
      · exact absurd (he.isDead.symm.trans hdead) hclosed
  have hother : ∀ id, id ≠ s.ids r → s'.lookup id = s.lookup id := fun id hid =>
    (htouch.lookup id).resolve_right fun hgone => hid hgone.1
  refine ⟨fun id => ?_, fun id r' hr' => ?_⟩
  · by_cases hid : id = s.ids r
    · rw [hid, hself]
      simp only [changed]
      split_ifs
      · simp
      · simp [hm.live, hr]
    · rw [hother id hid, ← hm.live id]
      simp only [changed]
      split_ifs
      · exact Finset.mem_erase.trans (and_iff_right hid)
      · rfl
  · by_cases hid : id = s.ids r
    · rw [hid, hself] at hr'
      split_ifs at hr'
      cases hr'
      simp only [changed, hid, Function.update_self]
      exact he
    · rw [hother id hid] at hr'
      have hne : r' ≠ r := fun hr'' => hid (hr'' ▸ (ht.lookup id r' hr').2).symm
      rw [htouch.others r' hne]
      simp only [changed, Function.update_of_ne hid]
      exact hm.records id r' hr'

/-- The endpoint remembers what a step adds to the history. -/
theorem step {a : Streams.Action} {o : Streams.Output} (hm : h.Remembers s) (ht : s.Tables)
    (hh : s.Held) (hstep : s.step a = .ok (o, s')) (hok : Streams.NoViolation (a, o)) :
    (h.event s.role (a, o)).Remembers s' := by
  -- A frame that was handed to a live stream and accepted.
  have hdeliver : ∀ {h : History} {s : Streams} {r header data newStream res s'},
      h.Remembers s → s.Tables → s.Held → s.lookup header.id = some r →
      s.deliver r header data newStream = .ok (res, s') → (∀ v, res ≠ .error v) →
      (h.changed header.id ((h.records header.id).received header data)).Remembers s' := by
    intro h s r header data newStream res s' hm ht hh hr hdel hok
    have hid : header.id = s.ids r := (ht.lookup _ _ hr).2.symm
    obtain ⟨c, verdict, hrec, ⟨e, -, rfl, -⟩ | ⟨fin, rfl, -, hrem⟩⟩ := Streams.deliver_eq_ok hdel
    · exact absurd rfl (hok _)
    obtain ⟨hin, hout, -⟩ := StreamCtx.received_eq_ok hrec
    have hstate : s'.state r = c.state := by
      rw [Streams.removeIfDead_same hrem]
      exact Function.update_self _ _ _
    have hfail : ¬ ∃ v, res = .error v := fun ⟨v, hv⟩ => hok v hv
    have hagrees := (hm.records _ r hr).receive hin hout
    rw [← hstate] at hagrees
    have htouch := Streams.deliver_touched hdel hr hid
    rw [hid] at hr hagrees ⊢
    exact hm.touched ht hh htouch hfail hr hagrees
  cases a with
  | «open» key =>
    simp only [Streams.step] at hstep
    split at hstep
    · next hkey =>
      cases hstep
      rcases Streams.openOutbound_cases hkey with hopen | ⟨id, s₁, hopen, hid, -, hcreated⟩
      · rw [hopen]
        exact hm
      · rw [hopen]
        simp only [event, hid]
        exact hm.created ht hcreated
    · cases hstep
      exact hm
  | receive header data =>
    simp only [Streams.step, Lib.bind_eq_ok] at hstep
    obtain ⟨⟨res, s₁⟩, hrec, hstep⟩ := hstep
    cases hstep
    have hres : ∀ v, res ≠ .error v := fun v hv => hok v (by rw [hv])
    obtain ⟨newStream, rfl⟩ : ∃ newStream, res = .ok newStream := by
      cases res with
      | error v => exact absurd rfl (hres v)
      | ok newStream => exact ⟨newStream, rfl⟩
    rcases Streams.receive_eq_ok hrec with ⟨e, he, -⟩ | ⟨r, hr, hsyn, hdel⟩ |
      ⟨hrole, hvacant, hsyn, -, hdel⟩
    · cases he
    · simp only [event, syn, hsyn, Bool.false_eq_true, if_false]
      exact hdeliver hm ht hh hr hdel hres
    · have hcreated := Streams.accept_created hrole hvacant
      simp only [event, syn, hsyn, if_true]
      exact hdeliver (hm.created ht hcreated) (ht.created hcreated) (hh.created ht hcreated)
        hcreated.lookup_self hdel hres
  | poll r allowance =>
    simp only [Streams.step, Lib.bind_eq_ok] at hstep
    obtain ⟨⟨res, s₁⟩, hpoll, hstep⟩ := hstep
    cases hstep
    rcases Streams.pollUpdate_sends hpoll with ⟨rfl, hs'⟩ | ⟨u, rfl, hsent⟩
    · rw [hs']
      exact ⟨hm.live, hm.records⟩
    · obtain ⟨task, htask, hid, -⟩ := hsent.task
      obtain ⟨hrn, htaskId⟩ := ht.taskId r task htask
      have hr := ht.lookup_of_task htask
      have hagrees := (hm.records _ r hr).emit (hh.wfIn r hrn).credit_le
        hsent.inbound hsent.outbound
      simp only [event, hid, htaskId]
      exact hm.touched ht hh (Streams.pollUpdate_touched hpoll ht hrn) not_false hr hagrees
  | app r op =>
    simp only [Streams.step] at hstep
    split at hstep
    · simp only [Lib.bind_eq_ok] at hstep
      obtain ⟨⟨res, c⟩, happ, hstep⟩ := hstep
      cases hstep
      refine ⟨hm.live, fun id r' hr' => ?_⟩
      have hagrees := hm.records id r' hr'
      by_cases hne : r' = r
      · subst hne
        rw [show (s.put r' c).state r' = c.state from Function.update_self _ _ _]
        exact hagrees.used (StreamCtx.app_used happ)
      · rw [Streams.put_state_of_ne s c hne]
        exact hagrees
    · cases hstep
      exact hm
  | observe rtt =>
    cases hstep
    exact ⟨hm.live, hm.records⟩

end History.Remembers

/-- Along every run without a violation, the endpoint remembers what the frames say. -/
theorem Streams.remembers_of_run {role : RammuxRole} {config : RammuxConfig}
    {tr : List (Action × Output)} {s : Streams} (h : (machine role config).Run tr s)
    (hok : ∀ e ∈ tr, NoViolation e) : (History.ofTrace role tr).Remembers s := by
  revert hok
  refine Lib.Machine.Run.invariant (I := fun tr s => (∀ e ∈ tr, NoViolation e) →
    (History.ofTrace role tr).Remembers s) (fun _ => ?_) ?_ h
  · exact History.Remembers.new role config
  intro tr s a o s' hrun ih hstep hok
  have hbefore : ∀ e ∈ tr, NoViolation e := fun e he => hok e (List.mem_append_left _ he)
  have hlast : NoViolation (a, o) := hok _ (by simp)
  have hsame := same_of_run hrun
  have hnext := (ih hbefore).step (tables_of_run hrun) (held_of_run hrun hbefore) hstep hlast
  rw [hsame.1] at hnext
  rw [History.ofTrace, List.foldl_append]
  exact hnext

end Rammux
