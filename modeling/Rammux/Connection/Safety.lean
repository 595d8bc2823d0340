import Rammux.Connection.Aborted
import Rammux.Connection.Violations
import Rammux.Connection.Handover
import Rammux.Stream.TurnQueue

/-!
# Nothing makes a connection panic

A connection is polled and used in any order, over a transport that gives it any bytes. It never
panics (`Side.never_panics`), because each of its parts can go on from every state that it leaves
behind. While the connection is active its streams reported no violation, and then the pools count
what the windows borrow, and a stream that has something to say has its ID. After that its streams
are only read, and they stay readable.

The same is said of two things that are no panics of the model: a stream that is taken out of the
tables is in them (`Streams.Removes`), and a stream that joins the queue of turns is not in the
queue of another connection (`Turns.InMemory`).
-/

namespace Rammux

namespace Streams

variable {role : RammuxRole} {config : RammuxConfig} {s s' : Streams} {r : StreamRef}

/-- The states of streams that reported no violation. -/
def Intact (role : RammuxRole) (config : RammuxConfig) (s : Streams) : Prop :=
  (machine role config).Reaches NoViolation s

/-- All streams can be read. -/
def Readable (s : Streams) : Prop := ∀ r < s.next, (s.state r).inbound.Readable

/-- Every step without a violation keeps the connection intact. -/
theorem Intact.step {a : Action} {o : Output} (h : s.Intact role config)
    (hstep : s.step a = .ok (o, s')) (hok : NoViolation (a, o)) : s'.Intact role config :=
  Lib.Machine.Reaches.step h hstep hok

/-- An intact connection is in a state that its streams can reach. -/
theorem Intact.reachable (h : s.Intact role config) : s.Reachable role config := by
  obtain ⟨tr, hrun, -⟩ := h
  exact ⟨tr, hrun⟩

/-- The streams of an intact connection can be read. -/
theorem Intact.readable (h : s.Intact role config) : s.Readable := by
  intro r hr
  have hs := sane_of_reaches h
  refine (hs.held.wfIn r hr).readable ?_
  have hlt := hs.rx_lt hr
  omega

/-- Every step leaves all streams readable, whatever its verdict. -/
theorem Readable.step {a : Action} {o : Output} (h : s.Readable) (hstep : s.step a = .ok (o, s')) :
    s'.Readable := by
  intro r hr
  by_cases hold : r < s.next
  · exact step_readable hstep hold (h r hold)
  rcases step_next hstep with hnext | ⟨hnext, hstarted⟩
  · rw [hnext] at hr
    exact absurd hr hold
  · rw [hnext] at hr
    obtain rfl : r = s.next := Nat.le_antisymm (Nat.lt_succ_iff.mp hr) (not_lt.mp hold)
    exact (hstarted.chunks hnext).1

/-- They can still be read after the abort. -/
theorem Readable.abort (h : s.Readable) : s.abort.Readable := by
  intro r hr
  rw [s.abort_names.1] at hr
  exact abort_readable s r (h r hr)

/-- The application uses its streams. -/
theorem Readable.app_returns (h : s.Readable) (r : StreamRef) (op : AppOp) :
    ∃ o s', s.step (.app r op) = .ok (o, s') := by
  by_cases hr : r < s.next
  · obtain ⟨res, hres⟩ := StreamCtx.app_returns (c := s.ctx r) (h r hr) op r
    exact ⟨_, _, (if_pos hr).trans (Lib.bind_eq_ok.mpr ⟨res, hres, rfl⟩)⟩
  · exact ⟨_, _, if_neg hr⟩

/-- A frame with a stream part arrives. -/
theorem Intact.receive_returns (h : s.Intact role config) (header : StreamHeader) {data : Bytes}
    (hlen : data.length < 2^16) : ∃ res s', s.receive header data = .ok (res, s') := by
  obtain ⟨tr, hrun, hok⟩ := h
  obtain ⟨res, s', hreceive, -⟩ := receive_breaks (remembers_of_run hrun hok) (tables_of_run hrun)
    (accounts_of_run hrun) (held_of_run hrun hok) header data hlen
  exact ⟨res, s', hreceive⟩

/-- The task of a stream is polled. What it says comes from a stream that has its ID. -/
theorem Intact.poll_returns (h : s.Intact role config) {task : StreamUpdates} (allowance : ℚ≥0)
    (htask : s.updates r = some task) :
    ∃ poll task' c, (s.ctx r).pollProgress task r allowance = .ok (poll, task', c) ∧
      ∀ progress, poll = .ready progress → ∃ update fin, s.lookup update.id = some r ∧
        (progress = .continue update fin ∨ progress = .break update fin) := by
  have hs := sane_of_reaches h
  obtain ⟨hr, hid⟩ := hs.tables.taskId r task htask
  have hrx := hs.rx_lt hr
  have htx := hs.tx_lt hr
  have hlimit : (s.state r).outbound.ledger.frameLimit < 2^16 := by
    rw [(hs.accounts.wfOut r hr).limit]
    exact s.config.frameLimit_lt
  have hreturns : ∃ res, (s.ctx r).pollProgress task r allowance = .ok res :=
    StreamCtx.pollProgress_returns task r allowance (hs.accounts.in_borrowed_le hr)
      (by simp only [ctx]; omega) (hs.held.wfIn r hr).credit_le (hs.accounts.out_borrowed_le hr)
      (by simp only [ctx]; omega)
  obtain ⟨⟨poll, task', c⟩, hpoll⟩ := hreturns
  refine ⟨poll, task', c, hpoll, ?_⟩
  rintro progress rfl
  obtain ⟨-, update, hprogress, hupdate, -⟩ := StreamCtx.pollProgress_ready hpoll
  refine ⟨update, c.state.finState, ?_, ?_⟩
  · rw [hupdate, hid]
    exact hs.tables.lookup_of_task htask
  · rw [hprogress]
    split_ifs
    · exact .inr rfl
    · exact .inl rfl

/-- An event calls `remove` with an ID, where the tables are those of `t`. -/
inductive Removes (s : Streams) : Action → StreamId → Streams → Prop
  /-- The stream of a frame is closed on both sides. -/
  | received {r : StreamRef} {header : StreamHeader} {data : Bytes} {fin : FinState} {c : StreamCtx}
      (hlookup : s.lookup header.id = some r)
      (h : (s.ctx r).received header.credit data header.flags r = .ok (.ok fin, c))
      (hdead : fin.isDead = true) : Removes s (.receive header data) header.id (s.put r c)
  /-- The stream that a frame starts is closed on both sides. -/
  | accepted {header : StreamHeader} {data : Bytes} {fin : FinState} {c : StreamCtx}
      (hrole : header.id.initiatedBy ≠ s.role) (hvacant : s.lookup header.id = none)
      (h : ((s.accept header.id).ctx s.next).received header.credit data header.flags s.next =
        .ok (.ok fin, c))
      (hdead : fin.isDead = true) :
      Removes s (.receive header data) header.id ((s.accept header.id).put s.next c)
  /-- The stream of a task is closed on both sides. -/
  | polled {r : StreamRef} {allowance : ℚ≥0} {task task' : StreamUpdates} {progress : Progress}
      {update : StreamUpdate} {fin : FinState} {c : StreamCtx} (htask : s.updates r = some task)
      (h : (s.ctx r).pollProgress task r allowance = .ok (.ready progress, task', c))
      (hprogress : progress = .continue update fin ∨ progress = .break update fin)
      (hdead : fin.isDead = true) : Removes s (.poll r allowance) update.id (s.put r c)

/-- A call that may forget a stream. -/
theorem removed_of_gone {t : Streams} {id id' : StreamId} {fin : FinState}
    (h : t.removeIfDead id fin = .ok s') (hlookup : t.lookup id' ≠ none)
    (hgone : s'.lookup id' = none) : id' = id ∧ fin.isDead = true := by
  rcases removeIfDead_eq_ok h with ⟨hdead, hforgets⟩ | ⟨-, rfl⟩
  · refine ⟨?_, hdead⟩
    by_contra hne
    exact hlookup ((hforgets.lookup_ne id' hne).symm.trans hgone)
  · exact absurd hgone hlookup

/-- Whatever leaves the tables is taken out of them in one of these ways. -/
theorem removes_of_step {a : Action} {o : Output} {id : StreamId} (h : s.step a = .ok (o, s'))
    (hlookup : s.lookup id ≠ none) (hgone : s'.lookup id = none) : ∃ t, s.Removes a id t := by
  cases a with
  | «open» key =>
    simp only [step] at h
    split at h
    · next hkey =>
      cases h
      -- Opening a stream takes none out: its ID was in neither table.
      rcases openOutbound_cases hkey with hopen | ⟨id', s', hopen, -, -, hcreated⟩
      · rw [hopen] at hgone
        exact absurd hgone hlookup
      · rw [hopen] at hgone
        have hne : id ≠ id' := by
          rintro rfl
          exact hlookup hcreated.vacant
        exact absurd ((hcreated.lookup_ne id hne).symm.trans hgone) hlookup
    · cases h
      exact absurd hgone hlookup
  | receive header data =>
    obtain ⟨⟨res, s₁⟩, hrec, h⟩ := Lib.bind_eq_ok.mp h
    cases h
    rcases receive_eq_ok hrec with ⟨e, -, rfl⟩ | ⟨r, hr, -, hdel⟩ | ⟨hrole, hvacant, -, -, hdel⟩
    · exact absurd hgone hlookup
    · -- The frame was for a stream that there was, and it was that one which left.
      obtain ⟨c, verdict, hreceived, ⟨e, -, -, rfl⟩ | ⟨fin, rfl, -, hremove⟩⟩ := deliver_eq_ok hdel
      · exact absurd hgone hlookup
      · obtain ⟨rfl, hdead⟩ := removed_of_gone (t := s.put r c) hremove hlookup hgone
        exact ⟨_, .received hr hreceived hdead⟩
    · -- The frame started a stream: only that one could leave, but it was not there before.
      have hcreated := accept_created hrole hvacant
      have hne : id ≠ header.id := by
        rintro rfl
        exact hlookup hvacant
      have hlookup' : (s.accept header.id).lookup id ≠ none := by
        rwa [hcreated.lookup_ne id hne]
      obtain ⟨c, verdict, hreceived, ⟨e, -, -, rfl⟩ | ⟨fin, rfl, -, hremove⟩⟩ := deliver_eq_ok hdel
      · exact absurd hgone hlookup'
      · obtain ⟨rfl, hdead⟩ :=
          removed_of_gone (t := (s.accept header.id).put s.next c) hremove hlookup' hgone
        exact absurd rfl hne
  | poll r allowance =>
    -- A stream leaves with its last frame, or when its task ends.
    obtain ⟨⟨res, s₁⟩, hpoll, h⟩ := Lib.bind_eq_ok.mp h
    cases h
    rcases pollUpdate_eq_ok hpoll with ⟨-, -, rfl⟩ | ⟨task, task', c, poll, htask, hprogress,
      ⟨-, -, rfl⟩ | ⟨u, fin, rfl, -, hremove⟩ | ⟨u, fin, rfl, -, hremove⟩⟩
    · exact absurd hgone hlookup
    · exact absurd hgone hlookup
    · obtain ⟨rfl, hdead⟩ := removed_of_gone (t := s.continued r task' c) hremove hlookup hgone
      exact ⟨_, .polled htask hprogress (.inl rfl) hdead⟩
    · obtain ⟨rfl, hdead⟩ := removed_of_gone (t := s.finished r c) hremove hlookup hgone
      exact ⟨_, .polled htask hprogress (.inr rfl) hdead⟩
  | app r op =>
    simp only [step] at h
    split at h
    · obtain ⟨⟨res, c⟩, -, h⟩ := Lib.bind_eq_ok.mp h
      cases h
      exact absurd hgone hlookup
    · cases h
      exact absurd hgone hlookup
  | observe rtt =>
    cases h
    exact absurd hgone hlookup

/-- What is taken out of the tables is in them. -/
theorem Intact.removes (h : s.Intact role config) {a : Action} {id : StreamId} {t : Streams}
    (hremoves : s.Removes a id t) : t.lookup id ≠ none := by
  cases hremoves with
  | @received r header data fin c hlookup =>
    have hlookup' : (s.put r c).lookup header.id = some r := hlookup
    rw [hlookup']
    exact Option.some_ne_none r
  | @accepted header data fin c hrole hvacant =>
    have hlookup' : ((s.accept header.id).put s.next c).lookup header.id = some s.next :=
      (accept_created hrole hvacant).lookup_self
    rw [hlookup']
    exact Option.some_ne_none s.next
  | @polled r allowance task task' progress update fin c htask hpoll hprogress =>
    obtain ⟨poll, _, _, hpoll', hready⟩ := h.poll_returns allowance htask
    cases hpoll.symm.trans hpoll'
    obtain ⟨update', fin', hlookup, heq⟩ := hready progress rfl
    obtain rfl : update' = update := by
      rcases hprogress with rfl | rfl <;> rcases heq with heq | heq <;> cases heq <;> rfl
    have hlookup' : (s.put r c).lookup update'.id = some r := hlookup
    rw [hlookup']
    exact Option.some_ne_none r

/-- The selector polls the task of a stream. -/
theorem Intact.pollUpdate_returns (h : s.Intact role config) (r : StreamRef) (allowance : ℚ≥0) :
    ∃ update s', s.pollUpdate r allowance = .ok (update, s') ∧ s'.Intact role config := by
  have hreturns : ∃ update s', s.pollUpdate r allowance = .ok (update, s') := by
    unfold pollUpdate
    cases htask : s.updates r with
    | none => exact ⟨_, _, rfl⟩
    | some task =>
      obtain ⟨poll, task', c, hpoll, hready⟩ := h.poll_returns allowance htask
      cases poll with
      | pending => exact ⟨_, _, Lib.bind_eq_ok.mpr ⟨_, hpoll, rfl⟩⟩
      | ready progress =>
        obtain ⟨update, fin, hlookup, rfl | rfl⟩ := hready progress rfl
        · obtain ⟨s', hremove⟩ := removeIfDead_ok (s := s.continued r task' c) fin hlookup
          exact ⟨_, _, Lib.bind_eq_ok.mpr ⟨_, hpoll, Lib.bind_eq_ok.mpr ⟨s', hremove, rfl⟩⟩⟩
        · obtain ⟨s', hremove⟩ := removeIfDead_ok (s := s.finished r c) fin hlookup
          exact ⟨_, _, Lib.bind_eq_ok.mpr ⟨_, hpoll, Lib.bind_eq_ok.mpr ⟨s', hremove, rfl⟩⟩⟩
  obtain ⟨update, s', hpoll⟩ := hreturns
  have hstep : s.step (.poll r allowance) = .ok (.polled update, s') :=
    Lib.bind_eq_ok.mpr ⟨_, hpoll, rfl⟩
  exact ⟨update, s', hpoll, h.step hstep fun v => nofun⟩

/-- The selector polls one task after the other. What it gets may be emitted. -/
theorem Intact.pollTasks_returns (h : s.Intact role config) (polls : List (StreamRef × ℚ≥0)) :
    ∃ update s', s.pollTasks polls = .ok (update, s') ∧ s'.Intact role config := by
  induction polls generalizing s with
  | nil => exact ⟨.pending, s, rfl, h⟩
  | cons poll polls ih =>
    obtain ⟨update, s₁, hone, h₁⟩ := h.pollUpdate_returns poll.1 poll.2
    cases update with
    | pending =>
      obtain ⟨update, s', hrest, h'⟩ := ih h₁
      exact ⟨update, s', Lib.bind_eq_ok.mpr ⟨_, hone, hrest⟩, h'⟩
    | ready update => exact ⟨.ready update, s₁, Lib.bind_eq_ok.mpr ⟨_, hone, rfl⟩, h₁⟩

end Streams

/-! ## The active connection -/

/-- A frame that the connection composes may be sent. -/
theorem OutFrame.compose_legal {config : RammuxConfig} {part : Option Pong × Bool}
    {update : Poll StreamUpdate} (hupdate : ∀ u, update = .ready u → u.Emittable config)
    (hne : (compose part update).isEmpty = false) :
    (compose part update).Legal config.frameLimit := by
  cases update with
  | pending => exact ⟨hne, nofun, nofun, Nat.zero_le _⟩
  | ready u =>
    have hu := hupdate u rfl
    refine ⟨hne, nofun, ?_, hu.limit⟩
    rintro _ ⟨⟩
    refine hu.carries.imp_right (Or.imp_right (Or.imp_right (Or.imp_left fun hcredit => ?_)))
    rintro hzero
    rw [show u.credit = 0 from hzero] at hcredit
    cases hcredit

namespace Active

variable {role : RammuxRole} {config : RammuxConfig} {a a' : Active} {read : Bytes}

/-- A connection that can go on: its codec is between two calls, and its streams reported no
violation. -/
structure Runnable (role : RammuxRole) (config : RammuxConfig) (read : Bytes) (a : Active) : Prop
    where
  limit : a.codec.frameLimit = config.frameLimit
  sends : a.codec.SendsFrames
  reads : a.codec.Reads read
  streams : a.streams.Intact role config

/-- The `PONG` of a frame is a sample of the round trip. -/
theorem observed_intact (h : a.streams.Intact role config) (frame : InboundFrame) :
    (a.observed frame).Intact role config := by
  unfold observed
  cases frame.header.pong with
  | none => exact h
  | some pong => exact h.step (a := .observe _) rfl fun v => nofun

/-- A frame is processed. Unless its stream part breaks the rules, the streams are as good as
before. -/
theorem process_returns (h : a.streams.Intact role config) {frame : InboundFrame}
    (hlen : frame.data.length < 2^16) :
    ∃ res a', a.process frame = .ok (res, a') ∧ a'.streams.Readable ∧
      ((∀ e, res ≠ .error e) → a'.streams.Intact role config) := by
  have hobserved := observed_intact h frame
  unfold process
  cases frame.header.stream with
  | none => exact ⟨_, _, rfl, hobserved.readable, fun _ => hobserved⟩
  | some part =>
    obtain ⟨res, streams, hreceive⟩ := hobserved.receive_returns part hlen
    have hstep : (a.observed frame).step (.receive part frame.data) =
        .ok (.received res, streams) := Lib.bind_eq_ok.mpr ⟨_, hreceive, rfl⟩
    have hread := hobserved.readable.step hstep
    cases res with
    | error violation =>
      exact ⟨_, _, Lib.bind_eq_ok.mpr ⟨_, hreceive, rfl⟩, hread, fun hne => absurd rfl (hne _)⟩
    | ok newStream =>
      exact ⟨_, _, Lib.bind_eq_ok.mpr ⟨_, hreceive, rfl⟩, hread,
        fun _ => hobserved.step hstep fun v => nofun⟩

/-- A call that receives. -/
theorem pollReceive_returns (h : a.Runnable role config read) (answers : List ReadAnswer)
    (elapsed : Bool) :
    ∃ res frame a', a.pollReceive answers elapsed = .ok (res, frame, a') ∧ a'.streams.Readable ∧
      ((∀ e, res ≠ .ready (.error e)) → a'.streams.Intact role config) := by
  obtain ⟨outcome, codec, chunk, hnext, htook⟩ := h.reads.pollNext answers elapsed
  match outcome with
  | .pending =>
    exact ⟨_, _, _, Lib.bind_eq_ok.mpr ⟨_, hnext, rfl⟩, h.streams.readable, fun _ => h.streams⟩
  | .ready none =>
    exact ⟨_, _, _, Lib.bind_eq_ok.mpr ⟨_, hnext, rfl⟩, h.streams.readable, fun _ => h.streams⟩
  | .ready (some (.error e)) =>
    exact ⟨_, _, _, Lib.bind_eq_ok.mpr ⟨_, hnext, rfl⟩, h.streams.readable, fun _ => h.streams⟩
  | .ready (some (.ok .terminate)) =>
    exact ⟨_, _, _, Lib.bind_eq_ok.mpr ⟨_, hnext, rfl⟩, h.streams.readable, fun _ => h.streams⟩
  | .ready (some (.ok (.frame frame))) =>
    -- The payload is within the limit, which fits in its field.
    have hlen : frame.data.length < 2^16 := by
      have hle := (htook.frame frame rfl).2
      rw [h.limit] at hle
      exact hle.trans_lt config.frameLimit_lt
    obtain ⟨res, a', hprocess, hread, hintact⟩ :=
      process_returns (a := { a with codec }) h.streams hlen
    refine ⟨_, _, _, Lib.bind_eq_ok.mpr ⟨_, hnext, Lib.bind_eq_ok.mpr ⟨_, hprocess, rfl⟩⟩,
      hread, ?_⟩
    intro hne
    exact hintact fun e he => hne e (congrArg Poll.ready he)

/-- A batch of inbound frames. By induction on the calls that receive. -/
theorem receiveBatch_returns (h : a.Runnable role config read) (progress : Poll RammuxProgress)
    (readings : List ReadTurn) :
    ∃ batch a', a.receiveBatch progress readings = .ok (batch, a') ∧ a'.streams.Readable ∧
      ((∃ progress, batch = .processed progress) → a'.streams.Intact role config) := by
  induction readings generalizing a read progress with
  | nil => exact ⟨_, _, rfl, h.streams.readable, fun _ => h.streams⟩
  | cons reading readings ih =>
    obtain ⟨res, frame, a₁, hreceive, hread, hintact⟩ :=
      pollReceive_returns h reading.answers reading.elapsed
    obtain ⟨chunk, hadvances, hsends, hcodec⟩ := pollReceive_codec h.sends h.reads hreceive
    match res with
    | .pending =>
      exact ⟨_, _, Lib.bind_eq_ok.mpr ⟨_, hreceive, rfl⟩, hread, fun _ => hintact nofun⟩
    | .ready (.error e) =>
      exact ⟨_, _, Lib.bind_eq_ok.mpr ⟨_, hreceive, rfl⟩, hread, fun ⟨_, h⟩ => nomatch h⟩
    | .ready (.ok .term) =>
      exact ⟨_, _, Lib.bind_eq_ok.mpr ⟨_, hreceive, rfl⟩, hread, fun ⟨_, h⟩ => nomatch h⟩
    | .ready (.ok (.frame (some stream))) =>
      exact ⟨_, _, Lib.bind_eq_ok.mpr ⟨_, hreceive, rfl⟩, hread, fun _ => hintact nofun⟩
    | .ready (.ok (.frame none)) =>
      have hreads : a₁.codec.Reads (read ++ chunk) := by
        rcases hcodec with ⟨_, h, -⟩ | ⟨h, -⟩ | ⟨-, -, hreads⟩
        · cases h
        · cases h
        · exact hreads
      have h₁ : a₁.Runnable role config (read ++ chunk) :=
        ⟨hadvances.frameLimit.trans h.limit, hsends, hreads, hintact nofun⟩
      obtain ⟨batch, a', hrest, hread', hintact'⟩ := ih h₁ (.ready .empty)
      exact ⟨batch, a', Lib.bind_eq_ok.mpr ⟨_, hreceive, hrest⟩, hread', hintact'⟩

/-- A turn of the loop that sends. A frame is started only when none is pending. -/
theorem sendTurn_returns (h : a.Runnable role config read) (turn : SendTurn) :
    ∃ res a', a.sendTurn turn = .ok (res, a') ∧ a'.streams.Intact role config := by
  obtain ⟨frames, -, hsends⟩ := h.sends
  obtain ⟨ready, codec, hready, hwrote⟩ := hsends.pollReady turn.attempts
  match ready with
  | .pending => exact ⟨_, _, Lib.bind_eq_ok.mpr ⟨_, hready, rfl⟩, h.streams⟩
  | .ready (.error e) => exact ⟨_, _, Lib.bind_eq_ok.mpr ⟨_, hready, rfl⟩, h.streams⟩
  | .ready (.ok ()) =>
    obtain ⟨update, streams, hpoll, hintact⟩ := h.streams.pollTasks_returns turn.polls
    obtain ⟨-, hemittable⟩ := h.streams.reachable.pollTasks hpoll
    by_cases hempty :
        (OutFrame.compose (a.pings.takeFramePart turn.elapsed).1 update).isEmpty = true
    · obtain ⟨flushed, codec', hflush, -⟩ := hwrote.sends.pollThen [] turn.flush
      have hidle : ∃ res a', a.sendTurn turn = .ok (res, a') ∧ a'.streams = streams := by
        match flushed with
        | .pending => exact ⟨_, _, Lib.bind_eq_ok.mpr ⟨_, hready, Lib.bind_eq_ok.mpr ⟨_, hpoll,
            (if_pos hempty).trans (Lib.bind_eq_ok.mpr ⟨_, hflush, rfl⟩)⟩⟩, rfl⟩
        | .ready (.ok ()) =>
          exact ⟨_, _, Lib.bind_eq_ok.mpr ⟨_, hready, Lib.bind_eq_ok.mpr ⟨_, hpoll,
            (if_pos hempty).trans (Lib.bind_eq_ok.mpr ⟨_, hflush, rfl⟩)⟩⟩, rfl⟩
        | .ready (.error e) => exact ⟨_, _, Lib.bind_eq_ok.mpr ⟨_, hready, Lib.bind_eq_ok.mpr
            ⟨_, hpoll, (if_pos hempty).trans (Lib.bind_eq_ok.mpr ⟨_, hflush, rfl⟩)⟩⟩, rfl⟩
      obtain ⟨res, a', hturn, hstreams⟩ := hidle
      exact ⟨res, a', hturn, hstreams ▸ hintact⟩
    · have hlegal := OutFrame.compose_legal hemittable (Bool.eq_false_iff.mpr hempty)
      obtain ⟨codec', hsend⟩ :=
        RammuxCodec.startSend_ok hlegal config.frameLimit_lt (hwrote.pending (.inr rfl))
      exact ⟨_, _, Lib.bind_eq_ok.mpr ⟨_, hready, Lib.bind_eq_ok.mpr ⟨_, hpoll,
        (if_neg hempty).trans (Lib.bind_eq_ok.mpr ⟨_, hsend, rfl⟩)⟩⟩, hintact⟩

/-- Sending does not panic. -/
theorem pollSend_returns (h : a.Runnable role config read) (turns : List SendTurn) :
    ∃ res frames a', a.pollSend turns = .ok (res, frames, a') ∧ a'.streams.Intact role config := by
  -- By induction on the turns of the loop.
  induction turns generalizing a with
  | nil => exact ⟨_, _, _, rfl, h.streams⟩
  | cons turn turns ih =>
    obtain ⟨res, a₁, hturn, hintact⟩ := sendTurn_returns h turn
    cases res with
    | error res => exact ⟨_, _, _, Lib.bind_eq_ok.mpr ⟨_, hturn, rfl⟩, hintact⟩
    | ok frame =>
      obtain ⟨hruns, -⟩ := sendTurn_codec h.sends h.reads hturn
      have hreads := hruns.reads
      rw [List.append_nil] at hreads
      obtain ⟨res, frames, a', hrest, h'⟩ :=
        ih ⟨hruns.advances.frameLimit.trans h.limit, hruns.sends, hreads, hintact⟩
      exact ⟨_, _, _, Lib.bind_eq_ok.mpr ⟨_, hturn, Lib.bind_eq_ok.mpr ⟨_, hrest, rfl⟩⟩, h'⟩

end Active

/-! ## The downgrade -/

namespace Downgraded

variable {d d' : Downgraded} {c : RammuxCodec} {read : Bytes}

/-- The reader of the future does not panic. -/
theorem pollRecoverReader_returns (hcodec : d.codec = some c) (hreceiving : d.Receiving c read)
    (readings : List ReadTurn) : ∃ r, d.pollRecoverReader readings = .ok r := by
  -- By induction on the calls that read.
  induction readings generalizing d c read with
  | nil =>
    unfold pollRecoverReader
    rw [hcodec]
    split_ifs <;> exact ⟨_, rfl⟩
  | cons reading readings ih =>
    unfold pollRecoverReader
    rw [hcodec]
    by_cases hterm : d.termReceived = true
    · exact ⟨_, if_pos hterm⟩
    rw [if_neg hterm]
    rw [Receiving, if_neg hterm] at hreceiving
    obtain ⟨outcome, c₁, chunk, hnext, htook⟩ :=
      hreceiving.pollNext reading.answers reading.elapsed
    rcases outcome with _ | _ | e | f | _
    · exact ⟨_, Lib.bind_eq_ok.mpr ⟨_, hnext, rfl⟩⟩
    · exact ⟨_, Lib.bind_eq_ok.mpr ⟨_, hnext, rfl⟩⟩
    · exact ⟨_, Lib.bind_eq_ok.mpr ⟨_, hnext, rfl⟩⟩
    · -- A frame: the reader goes on.
      have hreceiving₁ : Receiving { d with codec := some c₁ } c₁ (read ++ chunk) := by
        rw [Receiving, if_neg hterm]
        exact (htook.frame f rfl).1
      obtain ⟨r, hrest⟩ := ih rfl hreceiving₁
      exact ⟨r, Lib.bind_eq_ok.mpr ⟨_, hnext, hrest⟩⟩
    · exact ⟨_, Lib.bind_eq_ok.mpr ⟨_, hnext, rfl⟩⟩

/-- `TERM` is started only when no frame is pending. -/
theorem writerTurn_returns (hsending : d.Sending c) (turn : WriteTurn) :
    ∃ r, d.writerTurn c turn = .ok r := by
  obtain ⟨frames, hsends⟩ : ∃ frames, c.Sends frames := by
    unfold Sending at hsending
    split at hsending
    · obtain ⟨frames, -, hsends⟩ := hsending
      exact ⟨frames, hsends⟩
    · obtain ⟨frames, -, hsends⟩ := hsending
      exact ⟨_, hsends⟩
    all_goals
      obtain ⟨⟨frames, -, hsends⟩, -⟩ := hsending
      exact ⟨_, hsends⟩
  unfold writerTurn
  split
  · obtain ⟨ready, c₁, hready, hwrote⟩ := hsends.pollReady turn.attempts
    match ready with
    | .pending => exact ⟨_, Lib.bind_eq_ok.mpr ⟨_, hready, rfl⟩⟩
    | .ready (.error e) => exact ⟨_, Lib.bind_eq_ok.mpr ⟨_, hready, rfl⟩⟩
    | .ready (.ok ()) =>
      obtain ⟨c₂, hsend⟩ := RammuxCodec.startSend_ok (OutFrame.legal_terminate 0) (by decide)
        (hwrote.pending (.inr rfl))
      exact ⟨_, Lib.bind_eq_ok.mpr ⟨_, hready, Lib.bind_eq_ok.mpr ⟨_, hsend, rfl⟩⟩⟩
  · obtain ⟨flushed, c₁, hflush, -⟩ := hsends.pollThen turn.attempts turn.answer
    have heq : (if d.withShutdown then c.pollClose turn.attempts turn.answer
        else c.pollFlush turn.attempts turn.answer) = .ok (flushed, c₁) := (ite_self _).trans hflush
    match flushed with
    | .pending => exact ⟨_, Lib.bind_eq_ok.mpr ⟨_, heq, rfl⟩⟩
    | .ready (.error e) => exact ⟨_, Lib.bind_eq_ok.mpr ⟨_, heq, rfl⟩⟩
    | .ready (.ok ()) => exact ⟨_, Lib.bind_eq_ok.mpr ⟨_, heq, rfl⟩⟩

/-- Nor does its writer. -/
theorem pollRecoverWriter_returns (hcodec : d.codec = some c) (hsending : d.Sending c)
    (turns : List WriteTurn) : ∃ r, d.pollRecoverWriter turns = .ok r := by
  -- By induction on the turns of the loop.
  induction turns generalizing d c with
  | nil =>
    unfold pollRecoverWriter
    rw [hcodec]
    exact ⟨_, rfl⟩
  | cons turn turns ih =>
    unfold pollRecoverWriter
    rw [hcodec]
    by_cases hrecovered : d.writerRecovered = true
    · exact ⟨_, if_pos hrecovered⟩
    obtain ⟨⟨res, d₁⟩, hturn⟩ := writerTurn_returns hsending turn
    obtain ⟨c₁, hcodec₁, -, -, hsending₁, -⟩ := writerTurn_codec hsending hturn
    cases res with
    | some res => exact ⟨_, (if_neg hrecovered).trans (Lib.bind_eq_ok.mpr ⟨_, hturn, rfl⟩)⟩
    | none =>
      obtain ⟨r, hrest⟩ := ih hcodec₁ hsending₁
      exact ⟨r, (if_neg hrecovered).trans (Lib.bind_eq_ok.mpr ⟨_, hturn, hrest⟩)⟩

/-- A future that has not resolved can be polled. -/
theorem poll_returns (hcodec : d.codec = some c) (hsending : d.Sending c)
    (hreceiving : d.Receiving c read) (readings : List ReadTurn) (turns : List WriteTurn) :
    ∃ r, d.poll readings turns = .ok r := by
  obtain ⟨⟨reader, d₁⟩, hreader⟩ := pollRecoverReader_returns hcodec hreceiving readings
  obtain ⟨c₁, chunk, hcodec₁, -, hsending₁, -⟩ :=
    pollRecoverReader_codec hcodec hsending hreceiving hreader
  obtain ⟨⟨writer, d₂⟩, hwriter⟩ := pollRecoverWriter_returns hcodec₁ hsending₁ turns
  obtain ⟨c₂, hcodec₂, -⟩ := pollRecoverWriter_codec hcodec₁ hsending₁ hwriter
  match reader with
  | .ready (.error e) => exact ⟨_, Lib.bind_eq_ok.mpr ⟨_, hreader, rfl⟩⟩
  | .pending =>
    match writer with
    | .pending => exact ⟨_, Lib.bind_eq_ok.mpr ⟨_, hreader, Lib.bind_eq_ok.mpr ⟨_, hwriter, rfl⟩⟩⟩
    | .ready (.ok ()) =>
      exact ⟨_, Lib.bind_eq_ok.mpr ⟨_, hreader, Lib.bind_eq_ok.mpr ⟨_, hwriter, rfl⟩⟩⟩
    | .ready (.error e) =>
      exact ⟨_, Lib.bind_eq_ok.mpr ⟨_, hreader, Lib.bind_eq_ok.mpr ⟨_, hwriter, rfl⟩⟩⟩
  | .ready (.ok ()) =>
    match writer with
    | .pending => exact ⟨_, Lib.bind_eq_ok.mpr ⟨_, hreader, Lib.bind_eq_ok.mpr ⟨_, hwriter, rfl⟩⟩⟩
    | .ready (.error e) =>
      exact ⟨_, Lib.bind_eq_ok.mpr ⟨_, hreader, Lib.bind_eq_ok.mpr ⟨_, hwriter, rfl⟩⟩⟩
    | .ready (.ok ()) =>
      refine ⟨(.ready (.ok c₂.io), { d₂ with codec := none }), Lib.bind_eq_ok.mpr ⟨_, hreader,
        Lib.bind_eq_ok.mpr ⟨_, hwriter, ?_⟩⟩⟩
      dsimp only
      rw [hcodec₂]
      rfl

end Downgraded

/-! ## The connection as a whole -/

/-- The streams of a connection can be read, and reported no violation while it is active. -/
structure ConnState.Usable (role : RammuxRole) (config : RammuxConfig) (conn : ConnState) :
    Prop where
  readable : conn.streams.Readable
  intact : ∀ a, conn = .active a → a.streams.Intact role config

namespace ConnState

variable {role : RammuxRole} {config : RammuxConfig} {a : Active} {conn : ConnState}

/-- A running connection with intact streams can be used. -/
theorem usable_of_intact (h : a.streams.Intact role config) :
    (ConnState.active a).Usable role config := by
  refine ⟨h.readable, ?_⟩
  rintro _ ⟨⟩
  exact h

/-- A connection that stops leaves its streams to their readers. -/
theorem usable_of_stopped (h : conn.streams.Readable) (hstopped : ∀ a, conn ≠ .active a) :
    conn.Usable role config := ⟨h, fun a ha => absurd ha (hstopped a)⟩

/-- An active connection is polled. -/
theorem pollProgress_returns {read : Bytes} (h : a.Runnable role config read)
    (readings : List ReadTurn) (turns : List SendTurn) :
    ∃ res conn, (ConnState.active a).pollProgress readings turns = .ok (res, conn) ∧
      conn.Usable role config := by
  have hpending (future : Downgraded) :
      Poll.pending ≠ .ready (RammuxProgress.downgraded future) := by
    intro h
    cases h
  obtain ⟨batch, a₁, hbatch, hread, hintact⟩ :=
    Active.receiveBatch_returns h .pending (readings.take inboundBatch)
  obtain ⟨chunk, hadvances, hsends, hcodec⟩ :=
    Active.receiveBatch_codec h.sends h.reads hpending hbatch
  cases batch with
  | failed e =>
    -- A failure is no misuse, so the connection is gone.
    have he : e.isMisuse = false := by
      rcases hcodec with ⟨_, heq, he⟩ | ⟨heq, -⟩ | ⟨_, heq, -⟩
      · cases heq
        exact he
      · cases heq
      · cases heq
    refine ⟨_, if e.isMisuse then .active a₁ else (ConnState.active a₁).fail, Lib.bind_eq_ok.mpr
      ⟨(.ready (.error e), .active a₁), Lib.bind_eq_ok.mpr ⟨_, hbatch, rfl⟩, rfl⟩, ?_⟩
    rw [he]
    exact usable_of_stopped hread.abort fun _ => ConnState.noConfusion
  | term =>
    refine ⟨_, _, Lib.bind_eq_ok.mpr ⟨_, Lib.bind_eq_ok.mpr ⟨_, hbatch, rfl⟩, rfl⟩, ?_⟩
    exact usable_of_stopped hread.abort fun _ => ConnState.noConfusion
  | processed progress =>
    have hreads : a₁.codec.Reads (read ++ chunk) := by
      rcases hcodec with ⟨_, heq, -⟩ | ⟨heq, -⟩ | ⟨_, -, -, hreads⟩
      · cases heq
      · cases heq
      · exact hreads
    have h₁ : a₁.Runnable role config (read ++ chunk) :=
      ⟨hadvances.frameLimit.trans h.limit, hsends, hreads, hintact ⟨_, rfl⟩⟩
    obtain ⟨sent, frames, a₂, hsend, hintact₂⟩ := Active.pollSend_returns h₁ turns
    obtain ⟨-, herror⟩ := Active.pollSend_codec hsends hreads hsend
    match sent with
    | .ready (.error e) =>
      refine ⟨_, if e.isMisuse then .active a₂ else (ConnState.active a₂).fail, Lib.bind_eq_ok.mpr
        ⟨(.ready (.error e), .active a₂), Lib.bind_eq_ok.mpr ⟨_, hbatch, Lib.bind_eq_ok.mpr
          ⟨_, hsend, rfl⟩⟩, rfl⟩, ?_⟩
      rw [herror e rfl]
      exact usable_of_stopped hintact₂.readable.abort fun _ => ConnState.noConfusion
    | .pending =>
      cases progress <;> exact ⟨_, _, Lib.bind_eq_ok.mpr ⟨_, Lib.bind_eq_ok.mpr ⟨_, hbatch,
        Lib.bind_eq_ok.mpr ⟨_, hsend, rfl⟩⟩, rfl⟩, usable_of_intact hintact₂⟩
    | .ready (.ok ()) =>
      cases progress <;> exact ⟨_, _, Lib.bind_eq_ok.mpr ⟨_, Lib.bind_eq_ok.mpr ⟨_, hbatch,
        Lib.bind_eq_ok.mpr ⟨_, hsend, rfl⟩⟩, rfl⟩, usable_of_intact hintact₂⟩

/-- The application starts a stream, in a slot that is vacant. -/
theorem Usable.tryStartOutbound (h : conn.Usable role config) {key : ℕ}
    (hkey : conn.streams.outbound.Vacant key) :
    (conn.tryStartOutbound key).2.Usable role config := by
  cases conn with
  | active a =>
    have hstep : a.streams.step (.open key) =
        .ok (.opened (a.streams.openOutbound key).1, (a.streams.openOutbound key).2) := if_pos hkey
    exact usable_of_intact ((h.intact a rfl).step hstep fun v => nofun)
  | poisoned io streams => exact h
  | downgraded streams => exact h

/-- The application uses a stream, whatever became of the connection. -/
theorem Usable.app (h : conn.Usable role config) {r : StreamRef} {op : AppOp} {o : Streams.Output}
    {streams : Streams} (hstep : conn.streams.step (.app r op) = .ok (o, streams)) :
    (conn.putStreams streams).Usable role config := by
  have hread := h.readable.step hstep
  cases conn with
  | active a =>
    refine usable_of_intact (a := { a with streams }) ((h.intact a rfl).step hstep fun v hv => ?_)
    obtain rfl : o = .received (.error v) := hv
    obtain ⟨header, data, ha, -⟩ := Streams.step_received hstep
    cases ha
  | poisoned io streams => exact usable_of_stopped hread fun _ => ConnState.noConfusion
  | downgraded streams => exact usable_of_stopped hread fun _ => ConnState.noConfusion

/-- The application starts the downgrade. -/
theorem Usable.downgrade (h : conn.Usable role config) (termReceived : Bool) :
    (conn.downgrade termReceived).2.Usable role config := by
  cases conn with
  | active a => exact usable_of_stopped h.readable.abort fun _ => ConnState.noConfusion
  | poisoned io streams => exact h
  | downgraded streams => exact h

end ConnState

namespace Side

variable {role : RammuxRole} {config : RammuxConfig} {clock : Clock} {s s' : Side}

/-- What happens to a side. -/
inductive Event where
  /-- Bytes arrive at the transport, from whoever has the other end. -/
  | arrive (bytes : Bytes)
  /-- The transport comes to its end. -/
  | eof
  | act (a : Action)

/-- What happens, and what the application gets. -/
def happen (self : Side) : Event → Except Panic (Answer × Side)
  | .arrive bytes =>
    if self.io.any fun io => io.inbox.eof then .ok (.none, self)
    else
      .ok (.none, self.mapIo fun io =>
        { io with inbox := { io.inbox with bytes := io.inbox.bytes ++ bytes } })
  | .eof => .ok (.none, self.mapIo fun io => { io with inbox := { io.inbox with eof := true } })
  | .act a => self.step a

/-- A side, from the start of its connection. -/
def machine (role : RammuxRole) (config : RammuxConfig) (clock : Clock) :
    Lib.Machine Panic Side Event Answer :=
  ⟨.new ⟨⟨[], false⟩, []⟩ role config clock, happen⟩

/-- A side on which anything may happen. -/
structure Safe (role : RammuxRole) (config : RammuxConfig) (s : Side) : Prop where
  holds : ∃ read raw, s.Holds config.frameLimit read raw
  usable : s.conn.Usable role config

/-- A new side is safe. -/
theorem safe_new (role : RammuxRole) (config : RammuxConfig) (clock : Clock) :
    (machine role config clock).init.Safe role config where
  holds := by
    refine ⟨[], [], .active rfl ⟨[], nofun, ?_⟩ ⟨[], [], rfl, nofun, DecoderState.holds_default _⟩⟩
    exact ⟨[], [], [], .nil, rfl, .inl ⟨rfl, rfl, rfl⟩⟩
  usable := ConnState.usable_of_intact .init

/-- Whatever the application does on a safe side, it gets an answer. -/
theorem Safe.step_returns (h : s.Safe role config) (a : Action) :
    ∃ o s', s.step a = .ok (o, s') ∧ s'.conn.Usable role config := by
  obtain ⟨⟨read, raw, hholds⟩, husable⟩ := h
  cases a with
  | progress readings turns =>
    cases hholds with
    | @active a hlimit hsends hreads =>
      obtain ⟨res, conn, hpoll, husable'⟩ := ConnState.pollProgress_returns
        ⟨hlimit, hsends, hreads, husable.intact _ rfl⟩ readings turns
      have hanswer : ∃ recovery, step ⟨.active a, .none⟩ (.progress readings turns) =
          .ok (.progressed res, ⟨conn, recovery⟩) := by
        match res with
        | .pending => exact ⟨_, Lib.bind_eq_ok.mpr ⟨_, hpoll, rfl⟩⟩
        | .ready (.error e) => exact ⟨_, Lib.bind_eq_ok.mpr ⟨_, hpoll, rfl⟩⟩
        | .ready (.ok (.downgraded future)) => exact ⟨_, Lib.bind_eq_ok.mpr ⟨_, hpoll, rfl⟩⟩
        | .ready (.ok (.inbound stream)) => exact ⟨_, Lib.bind_eq_ok.mpr ⟨_, hpoll, rfl⟩⟩
        | .ready (.ok .empty) => exact ⟨_, Lib.bind_eq_ok.mpr ⟨_, hpoll, rfl⟩⟩
      obtain ⟨recovery, hstep⟩ := hanswer
      exact ⟨_, _, hstep, husable'⟩
    -- A connection that stopped answers with an error.
    | _ => exact ⟨_, _, rfl, husable⟩
  | «open» key =>
    by_cases hkey : s.conn.streams.outbound.Vacant key
    · exact ⟨_, _, if_pos hkey, husable.tryStartOutbound hkey⟩
    · exact ⟨_, _, if_neg hkey, husable⟩
  | app r op =>
    obtain ⟨o, streams, hstep⟩ := husable.readable.app_returns r op
    exact ⟨_, _, Lib.bind_eq_ok.mpr ⟨_, hstep, rfl⟩, husable.app hstep⟩
  | downgrade =>
    have husable' := husable.downgrade false
    cases hholds with
    | _ => exact ⟨_, _, rfl, husable'⟩
  | withShutdown =>
    cases hholds with
    | _ => exact ⟨_, _, rfl, husable⟩
  | recover readings turns =>
    cases hholds with
    | @polling future codec streams hcodec hlimit hsending hreceiving =>
      obtain ⟨⟨res, future'⟩, hpoll⟩ :=
        Downgraded.poll_returns hcodec hsending hreceiving readings turns
      match res with
      | .pending => exact ⟨_, _, Lib.bind_eq_ok.mpr ⟨_, hpoll, rfl⟩, husable⟩
      | .ready (.ok io) => exact ⟨_, _, Lib.bind_eq_ok.mpr ⟨_, hpoll, rfl⟩, husable⟩
      | .ready (.error e) => exact ⟨_, _, Lib.bind_eq_ok.mpr ⟨_, hpoll, rfl⟩, husable⟩
    | _ => exact ⟨_, _, rfl, husable⟩

/-- What happens to the transport does not concern the streams. -/
theorem usable_mapIo (h : s.conn.Usable role config) (f : Transport → Transport) :
    (s.mapIo f).conn.Usable role config := by
  obtain ⟨conn, recovery⟩ := s
  cases recovery with
  | none =>
    cases conn with
    | active a =>
      exact ConnState.usable_of_intact
        (a := { a with codec := { a.codec with io := f a.codec.io } })
        (h.intact a rfl)
    | poisoned io streams =>
      exact ConnState.usable_of_stopped h.readable fun _ => ConnState.noConfusion
    | downgraded streams => exact h
  | polling future => exact h
  | recovered io => exact h
  | failed future => exact h

/-- Anything may happen on a safe side, and leaves it safe. -/
theorem Safe.happen (h : s.Safe role config) (e : Event) :
    ∃ o s', s.happen e = .ok (o, s') ∧ s'.Safe role config := by
  obtain ⟨read, raw, hholds⟩ := h.holds
  cases e with
  | arrive bytes =>
    by_cases heof : (s.io.any fun io => io.inbox.eof) = true
    · exact ⟨_, s, if_pos heof, h⟩
    · exact ⟨_, _, if_neg heof, ⟨read, raw, hholds.mapIo fun _ => rfl⟩, usable_mapIo h.usable _⟩
  | eof => exact ⟨_, _, rfl, ⟨read, raw, hholds.mapIo fun _ => rfl⟩, usable_mapIo h.usable _⟩
  | act a =>
    obtain ⟨o, s', hstep, husable⟩ := h.step_returns a
    obtain ⟨chunk, hholds', -⟩ := step_holds hholds hstep
    exact ⟨o, s', hstep, ⟨_, _, hholds'⟩, husable⟩

/-- Every run leaves a side safe. -/
theorem safe_of_run {tr : List (Event × Answer)} (h : (machine role config clock).Run tr s) :
    s.Safe role config := by
  refine Lib.Machine.Run.invariant (I := fun _ s => s.Safe role config)
    (safe_new role config clock) ?_ h
  intro tr s e o s' _ hs hstep
  obtain ⟨o', s'', hstep', hs'⟩ := hs.happen e
  cases hstep.symm.trans hstep'
  exact hs'

/-- Nothing that a peer sends and nothing that an application does makes a connection panic, at any
point of any run. Whatever the next event of its streams is, it takes no stream out of the tables
that is not there; and a stream that joins the queue of turns or leaves it is not found in the queue
of another connection. -/
theorem never_panics {tr : List (Event × Answer)} (h : (machine role config clock).Run tr s) :
    (∀ e, ∃ o s', s.happen e = .ok (o, s')) ∧
      (∀ conn, s.conn = .active conn → ∀ a id t, conn.streams.Removes a id t → t.lookup id ≠ none) ∧
      ∀ i p r, s.conn.streams.flow.turns.InMemory i p →
        (∃ new p', p.step (.pushBack i (i, r)) = .ok (.flag new, p') ∧
          (s.conn.streams.flow.turns.join r).InMemory i p') ∧
        ∃ p', p.step (.remove i (i, r)) = .ok (.flag (s.conn.streams.flow.turns.leave r).1, p') ∧
          (s.conn.streams.flow.turns.leave r).2.InMemory i p' := by
  have hsafe := safe_of_run h
  refine ⟨fun e => ?_, fun conn hconn a id t => ?_, fun i p r hmemory => ?_⟩
  · obtain ⟨o, s', hstep, -⟩ := hsafe.happen e
    exact ⟨o, s', hstep⟩
  · exact (hsafe.usable.intact conn hconn).removes
  · exact ⟨⟨_, hmemory.join r⟩, hmemory.leave r⟩

/-- A hostile peer sends more than the window and the pool have room for, and the connection fails.
Its streams can still be used. -/
theorem never_panics_hostile : ∃ tr s p, (machine .server Streams.tightConfig ⟨0⟩).Run tr s ∧
    (s.conn matches .poisoned ..) = true ∧ s.conn.streams.flow.turns.InMemory 1 p ∧
    (∀ e, ∃ o s', s.happen e = .ok (o, s')) ∧
    ∃ new p', p.step (.pushBack 1 (1, 0)) = .ok (.flag new, p') := by
  have h := Lib.Machine.Run.init (M := machine .server Streams.tightConfig ⟨0⟩)
    |>.step (a := .arrive [0, 0x11, 0, 0, 0, 5, 1, 2, 3, 4, 5, 0, 0x10, 0, 0, 0, 1, 6])
      (by with_unfolding_all rfl)
    |>.step (a := .act (.progress [⟨[.take 9 0, .take 9 0, .take 9 0], false⟩] []))
      (by with_unfolding_all rfl)
    |>.step (a := .act (.progress [⟨[.take 9 0, .take 9 0, .take 9 0], false⟩] []))
      (by with_unfolding_all rfl)
  have hnew := Turns.inMemory_new (i := 1) (Lib.Machine.Run.init (M := PinLists.machine _))
    (by decide) nofun rfl rfl
  obtain ⟨hreturns, -, hqueue⟩ := never_panics h
  obtain ⟨⟨new, p', hjoin, -⟩, -⟩ := hqueue 1 _ 0 hnew
  exact ⟨_, _, _, h, by with_unfolding_all rfl, hnew, hreturns, new, p', hjoin⟩

end Side

end Rammux
