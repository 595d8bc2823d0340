import Rammux.Net.Carrier

/-!
# Two connections over bytes are a session

`Carrier.lean` follows one running connection through a session. Here both sides are put together,
with what becomes of them: a side can fail, be downgraded, wait for the `TERM` of its peer, and hand
the transport back to the application. Whatever it is by then, what it wrote and will write is the
frames that its connection handed over, and then perhaps `TERM` and what the application writes
(`Side.Handed`). That is all that the other side relies on.

`Wired.Carries` relates the two sides and the session. Every step of one of the sides is some steps
of the session (`Carries.step`), so every run over bytes is a run over frames
(`Wired.carries_of_run`).
-/

namespace Rammux

/-! ## The future fails only with the transport -/

namespace Downgraded

variable {d d' : Downgraded} {c : RammuxCodec} {read : Bytes} {frames : List OutFrame}
  {e : ErrorKind}

/-- Frames that come after the downgrade are skipped, and the peer handed them over in order. -/
theorem pollRecoverReader_io {readings : List ReadTurn} (hcodec : d.codec = some c)
    (hreceiving : d.Receiving c read)
    (hin : Incoming c.frameLimit frames (read ++ c.io.inbox.bytes))
    (h : d.pollRecoverReader readings = .ok (.ready (.error e), d')) : ∃ io, e = .io io := by
  induction readings generalizing d c read with
  | nil =>
    unfold pollRecoverReader at h
    rw [hcodec] at h
    split_ifs at h <;> cases h
  | cons reading readings ih =>
    unfold pollRecoverReader at h
    rw [hcodec] at h
    split_ifs at h with hterm
    · cases h
    rw [Receiving, if_neg hterm] at hreceiving
    obtain ⟨k, hreads⟩ := hreceiving.readsFrames
    obtain ⟨⟨outcome, c₁⟩, hnext, h⟩ := Lib.bind_eq_ok.mp h
    obtain ⟨chunk, hsame, hinbox, hnext⟩ := hreads.pollNext hin hnext
    cases hnext with
    | pending => cases h
    | closed =>
      -- The transport ends without `TERM`, which is reported as an error of it.
      cases h
      exact ⟨_, rfl⟩
    | failed io =>
      cases h
      exact ⟨io, rfl⟩
    | term => cases h
    | frame _ _ _ hreads₁ =>
      have hreceiving₁ : Receiving { d with codec := some c₁ } c₁ (read ++ chunk) := by
        rw [Receiving, if_neg hterm]
        exact hreads₁.reads
      have hin₁ : Incoming c₁.frameLimit frames (read ++ chunk ++ c₁.io.inbox.bytes) := by
        rw [hsame.frameLimit, List.append_assoc, ← hinbox]
        exact hin
      exact ih rfl hreceiving₁ hin₁ h

/-- So a poll of the future fails only with the transport. -/
theorem poll_io {readings : List ReadTurn} {turns : List WriteTurn} (hcodec : d.codec = some c)
    (hhands : d.Hands c frames) (hreceiving : d.Receiving c read) {theirs : List OutFrame}
    (hin : Incoming c.frameLimit theirs (read ++ c.io.inbox.bytes))
    (h : d.poll readings turns = .ok (.ready (.error e), d')) : ∃ io, e = .io io := by
  obtain ⟨c', chunk, -, hcases⟩ := poll_hands hcodec hhands hreceiving h
  rcases hcases with ⟨hres, -⟩ | ⟨hres, -⟩ | ⟨e', hres, -, -, hreader | hio⟩
  · cases hres
  · cases hres
  · cases hres
    exact pollRecoverReader_io hcodec hreceiving hin hreader
  · cases hres
    exact hio

end Downgraded

/-! ## A side that stopped -/

namespace Side

variable {limit : ℕ} {read raw : Bytes} {frames : List OutFrame} {s s' : Side}

/-- What a side that stopped wrote, and what it will write: the frames that its connection handed
over, then perhaps `TERM`, and then what the application writes. -/
inductive Handed (frames : List OutFrame) : Side → Prop
  | poisoned {io : Transport} {streams : Streams} {strs : List Bytes}
      (hstrs : List.Forall₂ OutFrame.Encoded frames strs)
      (hout : io.out.map Prod.fst <+: strs.flatten) : Handed frames ⟨.poisoned io streams, .none⟩
  | polling {future : Downgraded} {codec : RammuxCodec} {streams : Streams}
      (hcodec : future.codec = some codec) (hhands : future.Hands codec frames) :
      Handed frames ⟨.downgraded streams, .polling future⟩
  | failed {future : Downgraded} {codec : RammuxCodec} {streams : Streams}
      (hcodec : future.codec = some codec) (hhands : future.Hands codec frames) :
      Handed frames ⟨.downgraded streams, .failed future⟩
  | recovered {io : Transport} {streams : Streams} {strs : List Bytes} {raw : Bytes}
      (hstrs : List.Forall₂ OutFrame.Encoded frames strs)
      (hout : io.out.map Prod.fst = strs.flatten ++ term ++ raw) :
      Handed frames ⟨.downgraded streams, .recovered io⟩

/-- What begins with the frames that were handed over, and may go on with `TERM`. -/
def Begins (frames : List OutFrame) (bytes : Bytes) : Prop :=
  ∃ strs tail, List.Forall₂ OutFrame.Encoded frames strs ∧
    (tail = [] ∨ ∃ raw, tail = term ++ raw) ∧ bytes <+: strs.flatten ++ tail

/-- What a codec wrote begins the encodings of the frames that it was handed. -/
theorem begins_of_sends {c : RammuxCodec} (h : c.Sends frames) :
    Begins frames (c.io.out.map Prod.fst) := by
  obtain ⟨strs, hstrs, hbegins, -⟩ := h.encodings
  refine ⟨strs, [], hstrs, .inl rfl, ?_⟩
  rwa [List.append_nil]

/-- So does what the codec of a downgrade future wrote. -/
theorem begins_of_hands {d : Downgraded} {c : RammuxCodec} (h : d.Hands c frames) :
    Begins frames (c.io.out.map Prod.fst) := by
  have hterm (h : c.Sends (frames ++ [.terminate])) : Begins frames (c.io.out.map Prod.fst) := by
    obtain ⟨strs, hstrs, hbegins, -⟩ := encodings_term h
    exact ⟨strs, term, hstrs, .inr ⟨[], (List.append_nil _).symm⟩, hbegins⟩
  unfold Downgraded.Hands at h
  cases hsent : d.termSent <;> rw [hsent] at h
  · exact begins_of_sends h
  · exact hterm h
  · exact hterm h.1
  · exact hterm h.1

/-- So does what a side wrote that has stopped. -/
theorem Handed.begins (h : s.Handed frames) : Begins frames s.written := by
  cases h with
  | poisoned hstrs hout =>
    refine ⟨_, [], hstrs, .inl rfl, ?_⟩
    rw [List.append_nil]
    exact hout
  | polling hcodec hhands =>
    rw [written_of_io (io_of_future (.inl rfl) hcodec)]
    exact begins_of_hands hhands
  | failed hcodec hhands =>
    rw [written_of_io (io_of_future (.inr rfl) hcodec)]
    exact begins_of_hands hhands
  | @recovered io streams strs raw hstrs hout =>
    refine ⟨strs, term ++ raw, hstrs, .inr ⟨raw, rfl⟩, ?_⟩
    rw [written_of_io (io_of_recovered rfl), hout, List.append_assoc]

/-- A side that has stopped is not running. -/
theorem Handed.not_active (h : s.Handed frames) (a : Active) : s.conn ≠ .active a := by
  cases h <;> exact ConnState.noConfusion

/-- The application uses its streams. -/
theorem Handed.putStreams (h : s.Handed frames) (streams : Streams) :
    Handed frames { s with conn := s.conn.putStreams streams } ∧
      (s.conn.putStreams streams).streams = streams := by
  cases h with
  | poisoned hstrs hout => exact ⟨.poisoned hstrs hout, rfl⟩
  | polling hcodec hhands => exact ⟨.polling hcodec hhands, rfl⟩
  | failed hcodec hhands => exact ⟨.failed hcodec hhands, rfl⟩
  | recovered hstrs hout => exact ⟨.recovered hstrs hout, rfl⟩

/-- The future goes on with what the connection left. -/
theorem Handed.recover {readings : List ReadTurn} {turns : List WriteTurn} {o : Answer}
    (h : s.Handed frames) (hholds : s.Holds limit read raw)
    (hstep : s.step (.recover readings turns) = .ok (o, s')) :
    s'.Handed frames ∧ s'.conn = s.conn := by
  cases h with
  | poisoned hstrs hout =>
    cases hstep
    exact ⟨.poisoned hstrs hout, rfl⟩
  | failed hcodec hhands =>
    cases hstep
    exact ⟨.failed hcodec hhands, rfl⟩
  | recovered hstrs hout =>
    cases hstep
    exact ⟨.recovered hstrs hout, rfl⟩
  | @polling future codec streams hcodec hhands =>
    cases hholds with
    | polling hcodec' _ _ hreceiving =>
      cases hcodec.symm.trans hcodec'
      obtain ⟨⟨res, future'⟩, hpoll, hstep⟩ := Lib.bind_eq_ok.mp hstep
      obtain ⟨c', chunk, -, hcases⟩ := Downgraded.poll_hands hcodec hhands hreceiving hpoll
      rcases hcases with ⟨rfl, hcodec', hhands', -⟩ | ⟨rfl, hsends, hnone, -⟩ |
        ⟨e, rfl, hcodec', hhands', -⟩
      · cases hstep
        exact ⟨.polling hcodec' hhands', rfl⟩
      · cases hstep
        obtain ⟨strs, hstrs, -, hwhole⟩ := encodings_term hsends
        have hout : c'.io.out.map Prod.fst = strs.flatten ++ term ++ [] := by
          rw [List.append_nil]
          exact hwhole hnone
        exact ⟨.recovered hstrs hout, rfl⟩
      · cases hstep
        exact ⟨.failed hcodec' hhands', rfl⟩

/-- What is not the application's use of its streams leaves them as they are. -/
theorem Handed.step {a : Action} {o : Answer} (h : s.Handed frames)
    (hholds : s.Holds limit read raw) (happ : ∀ r op, a ≠ .app r op)
    (hstep : s.step a = .ok (o, s')) : s'.Handed frames ∧ s'.conn = s.conn := by
  have hsame (heq : s' = s) : s'.Handed frames ∧ s'.conn = s.conn := by
    subst heq
    exact ⟨h, rfl⟩
  cases a with
  | app r op => exact absurd rfl (happ r op)
  | progress readings turns => exact hsame (step_of_stopped h.not_active rfl hstep)
  | «open» key => exact hsame (step_of_stopped h.not_active rfl hstep)
  | downgrade => exact hsame (step_of_stopped h.not_active rfl hstep)
  | recover readings turns => exact h.recover hholds hstep
  | withShutdown =>
    cases h with
    | poisoned hstrs hout =>
      cases hstep
      exact ⟨.poisoned hstrs hout, rfl⟩
    | failed hcodec hhands =>
      cases hstep
      exact ⟨.failed hcodec hhands, rfl⟩
    | recovered hstrs hout =>
      cases hstep
      exact ⟨.recovered hstrs hout, rfl⟩
    | polling hcodec hhands =>
      cases hstep
      exact ⟨.polling hcodec hhands, rfl⟩

/-- What is done to what there is to read does not touch what was written. -/
theorem Handed.mapIo (h : s.Handed frames) {f : Transport → Transport}
    (hf : ∀ io, (f io).out = io.out) :
    (s.mapIo f).Handed frames ∧ (s.mapIo f).conn.streams = s.conn.streams := by
  have hsame (c : RammuxCodec) : c.SameWriter { c with io := f c.io } := ⟨hf c.io, rfl, rfl, rfl⟩
  cases h with
  | poisoned hstrs hout =>
    refine ⟨.poisoned hstrs ?_, rfl⟩
    rwa [hf]
  | @polling future codec streams hcodec hhands =>
    exact ⟨.polling (congrArg (Option.map _) hcodec) (hhands.congr (hsame codec) rfl), rfl⟩
  | @failed future codec streams hcodec hhands =>
    exact ⟨.failed (congrArg (Option.map _) hcodec) (hhands.congr (hsame codec) rfl), rfl⟩
  | @recovered io streams strs raw hstrs hout =>
    rw [← hf] at hout
    exact ⟨.recovered hstrs hout, rfl⟩

/-- The application writes to the transport that it got back. -/
theorem Handed.write {io : Transport} (h : s.Handed frames) (hio : s.recovery = .recovered io)
    (data : Bytes) (now : Instant) :
    (s.mapIo fun io => { io with out := io.out ++ data.map fun b => (b, now) }).Handed frames := by
  cases h with
  | poisoned => cases hio
  | polling => cases hio
  | failed => cases hio
  | @recovered io streams strs raw hstrs hout =>
    have hdata : (data.map fun b => (b, now)).map Prod.fst = data := by
      rw [List.map_map]
      exact List.map_id data
    have hout' : (io.out ++ data.map fun b => (b, now)).map Prod.fst =
        strs.flatten ++ term ++ (raw ++ data) := by
      rw [List.map_append, hout, hdata, List.append_assoc]
    exact .recovered hstrs hout'

/-- The error of its connection, or of the downgrade, that an application is answered with. What a
stream answers a write with is not one. -/
def Answer.error : Answer → Option ErrorKind
  | .progressed (.ready (.error e)) => some e
  | .opened (.error e) => some e
  | .downgraded (.error e) => some e
  | .recovered (.ready (.error e)) => some e
  | _ => Option.none

/-- The error says that the connection was not to be used any more, or it comes from
the transport. -/
def Answer.Excused (o : Answer) : Prop :=
  ∀ e, o.error = some e → e.isMisuse = true ∨ ∃ io, e = .io io

/-- Whether the answer says that the other side began the downgrade. -/
def Answer.isTerm : Answer → Bool
  | .progressed (.ready (.ok (.downgraded _))) => true
  | _ => false

/-- The logs after what an application did on its side. -/
def logged (log : RammuxRole → StreamRef → AppLog) (p : RammuxRole) (a : Action) (o : Answer) :
    RammuxRole → StreamRef → AppLog :=
  match a, o with
  | .app r op, .app output => logAfter log (.app p r op) output
  | _, _ => log

/-- What an application did on its side was something in the session. If it was told of the
downgrade, then its connection stopped with every frame of the other side received. -/
structure Did (config : RammuxRole → RammuxConfig) (p : RammuxRole) (l : Manifest) (a : Action)
    (o : Answer) (l' : Manifest) : Prop where
  valid : l'.Valid config
  steps : l.Steps p l'
  log : l'.session.log = logged l.session.log p a o
  excused : o.Excused
  drained : o.isTerm = true → ∃ l₀, l₀.Valid config ∧ l.Steps p l₀ ∧ l₀.session.gone p = none ∧
    l₀.session.net.wire p.other = [] ∧ l' = l₀.abort p

variable {config : RammuxRole → RammuxConfig} {p : RammuxRole} {l l' : Manifest}

/-- A side plays its part in the session with a connection that runs, or has stopped. -/
inductive Stands (config : RammuxRole → RammuxConfig) (p : RammuxRole) (l : Manifest)
    (read : Bytes) : Side → Prop
  | active {a : Active} (hplays : a.Plays config p l read) :
      Stands config p l read ⟨.active a, .none⟩
  | stopped {s : Side} (hgone : l.session.gone p = some s.conn.streams)
      (hids : s.conn.streams.ids = (l.session.net.ends p).ids)
      (hhanded : s.Handed (l.frames p)) : Stands config p l read s

/-- What a side has written, the other side can rely on. -/
theorem Stands.begins (h : s.Stands config p l read) : Begins (l.frames p) s.written := by
  cases h with
  | active hplays => exact begins_of_sends hplays.sends
  | stopped _ _ hhanded => exact hhanded.begins

/-- The other side stands where it stood. -/
theorem Stands.other (h : s.Stands config p.other l read) (hsteps : l.Steps p l') :
    s.Stands config p.other l' read := by
  have hframes : l'.frames p.other = l.frames p.other := congrArg (List.map Prod.fst) hsteps.sent
  cases h with
  | active hplays =>
    refine .active ⟨⟨hsteps.gone.trans hplays.alive, hsteps.ends.trans hplays.streams, ?_⟩,
      hplays.limit, ?_⟩
    · rw [hframes]
      exact hplays.sends
    · have hreads := hplays.reads
      rw [RammuxRole.other_other] at hreads ⊢
      rwa [hsteps.decoded]
  | stopped hgone hids hhanded =>
    refine .stopped (hsteps.gone.trans hgone) ?_ ?_
    · rwa [hsteps.ends]
    · rwa [hframes]

/-- A connection that stops leaves its streams aborted. -/
theorem Stands.of_abort {a : Active} (hwrites : a.Writes p l)
    (hs : s.conn.streams = a.streams.abort) (hhanded : s.Handed (l.frames p)) :
    s.Stands config p (l.abort p) read := by
  refine .stopped ?_ ?_ hhanded
  · rw [Manifest.abort_gone, hwrites.streams, hs]
  · rw [hs, a.streams.abort_names.2.2, ← hwrites.streams]
    rfl

/-- A poll of the connection goes on, unless the transport fails or `TERM` comes. -/
theorem progress_stands {a : Active} {readings : List ReadTurn} {turns : List SendTurn} {o : Answer}
    (hc : Compatible config) (hl : l.Valid config) (hplays : a.Plays config p l read)
    (hin : Incoming (config p).frameLimit (l.frames p.other) (read ++ a.codec.io.inbox.bytes))
    (h : step ⟨.active a, .none⟩ (.progress readings turns) = .ok (o, s')) :
    ∃ chunk l', a.codec.io.inbox.bytes = chunk ++ s'.unread ∧
      Did config p l (.progress readings turns) o l' ∧ s'.Stands config p l' (read ++ chunk) := by
  obtain ⟨⟨res, conn⟩, hpoll, h⟩ := Lib.bind_eq_ok.mp h
  have hpending (future : Downgraded) :
      Poll.pending ≠ .ready (RammuxProgress.downgraded future) := by
    intro h
    cases h
  have hexcused (e : IoError) : (Answer.progressed (.ready (.error (.io e)))).Excused := by
    intro e' he
    cases he
    exact .inr ⟨e, rfl⟩
  -- A connection that fails leaves what it handed over.
  have hfail {a' : Active} {l' : Manifest} {read : Bytes} (hwrites : a'.Writes p l') :
      Stands config p (l'.abort p) read ⟨(ConnState.active a').fail, .none⟩ := by
    obtain ⟨strs, hstrs, hbegins, -⟩ := hwrites.sends.encodings
    exact .of_abort hwrites rfl (.poisoned hstrs hbegins)
  cases ConnState.pollProgress_cases hpoll with
  | failed hbatch =>
    obtain ⟨chunk, l₁, hinbox, hl₁, hmoves, hheard⟩ :=
      Active.receiveBatch_heard hc hl hplays hin hpending hbatch
    cases hheard with
    | failed hwrites =>
      cases h
      exact ⟨chunk, l₁.abort p, hinbox, ⟨hl₁.abort hwrites.alive,
        hmoves.steps.trans (l₁.abort_steps p), hmoves.session.log, hexcused _, nofun⟩,
          hfail hwrites⟩
  | term hbatch =>
    obtain ⟨chunk, l₁, hinbox, hl₁, hmoves, hheard⟩ :=
      Active.receiveBatch_heard hc hl hplays hin hpending hbatch
    cases hheard with
    | term hwrites hlast =>
      cases h
      have hdrained : l₁.session.net.wire p.other = [] := by
        rw [hl₁.wire p.other, hlast, List.drop_length]
        rfl
      exact ⟨chunk, l₁.abort p, hinbox, ⟨hl₁.abort hwrites.alive,
        hmoves.steps.trans (l₁.abort_steps p), hmoves.session.log, nofun,
        fun _ => ⟨l₁, hl₁, hmoves.steps, hwrites.alive, hdrained, rfl⟩⟩,
        .of_abort hwrites rfl (.polling rfl hwrites.sends)⟩
  | stuck hbatch hsend =>
    obtain ⟨chunk, l₁, hinbox, hl₁, hmoves, hheard⟩ :=
      Active.receiveBatch_heard hc hl hplays hin hpending hbatch
    cases hheard with
    | processed hplays₁ hnot =>
      obtain ⟨l₂, hl₂, hmoves₂, hplays₂, hinbox₂, hio⟩ := Active.pollSend_plays hc hl₁ hplays₁ hsend
      obtain ⟨io, rfl⟩ := hio _ rfl
      cases h
      refine ⟨chunk, l₂.abort p, ?_, ⟨hl₂.abort hplays₂.alive,
        (hmoves.trans hmoves₂).steps.trans (l₂.abort_steps p), (hmoves.trans hmoves₂).session.log,
        hexcused io, nofun⟩, hfail hplays₂.toWrites⟩
      rw [hinbox, ← hinbox₂]
      rfl
  | @sent a₁ a' progress sent frames hbatch hsend =>
    obtain ⟨chunk, l₁, hinbox, hl₁, hmoves, hheard⟩ :=
      Active.receiveBatch_heard hc hl hplays hin hpending hbatch
    cases hheard with
    | processed hplays₁ hnot =>
      obtain ⟨l₂, hl₂, hmoves₂, hplays₂, hinbox₂, -⟩ := Active.pollSend_plays hc hl₁ hplays₁ hsend
      obtain ⟨rfl, hno, hterm⟩ :
          s' = ⟨.active a', .none⟩ ∧ o.error = Option.none ∧ o.isTerm = false := by
        match progress with
        | .pending =>
          cases h
          exact ⟨rfl, rfl, rfl⟩
        | .ready .empty =>
          cases h
          exact ⟨rfl, rfl, rfl⟩
        | .ready (.inbound stream) =>
          cases h
          exact ⟨rfl, rfl, rfl⟩
        | .ready (.downgraded future) => exact absurd rfl (hnot future)
      refine ⟨chunk, l₂, ?_, ⟨hl₂, (hmoves.trans hmoves₂).steps, (hmoves.trans hmoves₂).session.log,
        fun e he => ?_, fun ht => Bool.noConfusion (hterm.symm.trans ht)⟩, .active hplays₂⟩
      · rw [hinbox, ← hinbox₂]
        rfl
      · rw [hno] at he
        cases he

/-- The application of a running connection starts a stream, or uses one. -/
theorem Stands.use {a : Active} (act : Net.Action) {sa : Streams.Action} {output : Streams.Output}
    {streams : Streams} (hl : l.Valid config) (hplays : a.Plays config p l read)
    (hactor : act.actor = p) (hact : l.session.net.step act = l.session.net.act p sa)
    (h : a.streams.step sa = .ok (output, streams))
    (hwaits : ∀ r < a.streams.next,
      (streams.state r).outbound.unsent.length + (l.session.log p r).writes.written.length ≤
        (a.streams.state r).outbound.unsent.length +
          (logAfter l.session.log act output p r).writes.written.length) :
    ∃ l', l'.Valid config ∧ l.Steps p l' ∧ l'.session.log = logAfter l.session.log act output ∧
      Stands config p l' read ⟨.active { a with streams }, .none⟩ := by
  rw [← hplays.streams] at h hwaits
  have hstep : l.session.net.step act = .ok (output, l.session.net.put p streams) :=
    hact.trans (Net.act_eq_ok.mpr ⟨streams, h, rfl⟩)
  have hreached := hl.reached.act (hactor.symm ▸ hplays.alive) hstep
  have hself : (l.session.net.put p streams).ends p = streams := Net.put_ends_self _ _ _
  refine ⟨{ l with session := _ }, hl.put hreached fun _ => rfl, ⟨?_, rfl, ?_, rfl, rfl, ?_⟩, rfl,
    .active ⟨⟨hplays.alive, hself, hplays.sends⟩, hplays.limit, hplays.reads⟩⟩
  · exact Net.put_ends_other _ _ _
  · exact Session.logAfter_of_ne (hactor.symm ▸ p.other_ne)
  · refine ⟨?_, fun r => logAfter_written _ act output p r, fun r hr => ?_⟩
    · rw [hself]
      exact Streams.next_le_of_step h
    · have hsame : (((l.session.net.put p streams).ends p).state r).outbound.unsent =
          (streams.state r).outbound.unsent := by rw [hself]
      exact (congrArg (List.length · + _) hsame).le.trans (hwaits r hr)

/-- Whatever the application of a running connection does is something in the session. -/
theorem Stands.step_active {a : Active} {act : Action} {o : Answer} (hc : Compatible config)
    (hl : l.Valid config) (hplays : a.Plays config p l read)
    (hin : Incoming (config p).frameLimit (l.frames p.other) (read ++ a.codec.io.inbox.bytes))
    (h : step ⟨.active a, .none⟩ act = .ok (o, s')) :
    ∃ chunk l', a.codec.io.inbox.bytes = chunk ++ s'.unread ∧ Did config p l act o l' ∧
      s'.Stands config p l' (read ++ chunk) := by
  have hstay : Stands config p l (read ++ []) ⟨.active a, .none⟩ := by
    rw [List.append_nil]
    exact .active hplays
  have hnone : Answer.none.Excused := by
    intro e he
    cases he
  cases act with
  | progress readings turns => exact progress_stands hc hl hplays hin h
  | withShutdown =>
    -- There is no future yet, neither to configure nor to poll.
    cases h
    exact ⟨[], l, rfl, ⟨hl, .refl p l, rfl, hnone, nofun⟩, hstay⟩
  | recover readings turns =>
    cases h
    exact ⟨[], l, rfl, ⟨hl, .refl p l, rfl, hnone, nofun⟩, hstay⟩
  | «open» key =>
    -- A key that is not vacant is none that the slab can give.
    by_cases hkey : a.streams.outbound.Vacant key
    · have hopen : a.streams.step (.open key) =
          .ok (.opened (a.streams.openOutbound key).1, (a.streams.openOutbound key).2) :=
            if_pos hkey
      obtain ⟨l', hl', hsteps, hlog, hstands⟩ :=
        Stands.use (.open p key) hl hplays rfl rfl hopen fun r hr =>
          Nat.add_le_add_right (Streams.unsent_le hopen hr (by simp)) _
      cases (show step ⟨.active a, .none⟩ (.open key) = _ from if_pos hkey).symm.trans h
      refine ⟨[], l', rfl, ⟨hl', hsteps, hlog, fun e he => ?_, nofun⟩, ?_⟩
      · cases he
      · rw [List.append_nil]
        exact hstands
    · cases (show step ⟨.active a, .none⟩ (.open key) = _ from if_neg hkey).symm.trans h
      exact ⟨[], l, rfl, ⟨hl, .refl p l, rfl, hnone, nofun⟩, hstay⟩
  | app r op =>
    obtain ⟨⟨output, streams⟩, happ, h⟩ := Lib.bind_eq_ok.mp h
    cases h
    obtain ⟨l', hl', hsteps, hlog, hstands⟩ :=
      Stands.use (.app p r op) hl hplays rfl rfl happ fun r' hr' =>
        Streams.waits_le happ hr' l.session.log p
    refine ⟨[], l', rfl, ⟨hl', hsteps, hlog, fun e he => ?_, nofun⟩, ?_⟩
    · cases he
    · rw [List.append_nil]
      exact hstands
  | downgrade =>
    -- The streams are aborted, and the codec goes to the future with all that it was handed.
    cases h
    refine ⟨[], l.abort p, rfl,
      ⟨hl.abort hplays.alive, l.abort_steps p, rfl, fun e he => ?_, nofun⟩,
      .of_abort hplays.toWrites rfl (.polling rfl hplays.sends)⟩
    cases he

/-- What was to be read begins with what was read. -/
theorem Advances.unread {chunk : Bytes} (h : s.Advances s' chunk) :
    s.unread = chunk ++ s'.unread := by
  obtain ⟨io, io', hio, hio', hinbox, -⟩ := h
  rw [unread_of_io hio, unread_of_io hio', hinbox]

/-- What a side that stopped answers. -/
theorem Handed.excused {a : Action} {o : Answer} (h : s.Handed frames)
    (hholds : s.Holds limit read raw)
    (hin : (∀ io, s.recovery ≠ .recovered io) →
      ∃ theirs, Incoming limit theirs (read ++ s.unread))
    (hstep : s.step a = .ok (o, s')) : o.Excused ∧ o.isTerm = false := by
  -- The answer is no error, or the caller's own mistake, except where the future is polled.
  have hno (ho : o.error = Option.none) (hterm : o.isTerm = false) :
      o.Excused ∧ o.isTerm = false := by
    refine ⟨fun e he => ?_, hterm⟩
    rw [ho] at he
    cases he
  have hmisuse {e : ErrorKind} (ho : o.error = some e) (he : e.isMisuse = true)
      (hterm : o.isTerm = false) : o.Excused ∧ o.isTerm = false := by
    refine ⟨fun e' he' => ?_, hterm⟩
    rw [ho] at he'
    cases he'
    exact .inl he
  cases a with
  | app r op =>
    obtain ⟨⟨output, streams⟩, -, hstep⟩ := Lib.bind_eq_ok.mp hstep
    cases hstep
    exact hno rfl rfl
  | progress readings turns => cases h <;> cases hstep <;> exact hmisuse rfl rfl rfl
  | downgrade => cases h <;> cases hstep <;> exact hmisuse rfl rfl rfl
  | «open» key =>
    by_cases hkey : s.conn.streams.outbound.Vacant key
    · cases (show s.step (.open key) = _ from if_pos hkey).symm.trans hstep
      cases h <;> exact hmisuse rfl rfl rfl
    · cases (show s.step (.open key) = _ from if_neg hkey).symm.trans hstep
      exact hno rfl rfl
  | withShutdown => cases h <;> cases hstep <;> exact hno rfl rfl
  | recover readings turns =>
    cases h with
    | poisoned =>
      cases hstep
      exact hno rfl rfl
    | failed =>
      cases hstep
      exact hno rfl rfl
    | recovered =>
      cases hstep
      exact hno rfl rfl
    | @polling future codec streams hcodec hhands =>
      -- Only here anything is read: the bytes are those of frames, so nothing but I/O fails.
      cases hholds with
      | polling hcodec' hlimit _ hreceiving =>
        cases hcodec.symm.trans hcodec'
        obtain ⟨theirs, hin⟩ := hin nofun
        rw [unread_of_io (io_of_future (.inl rfl) hcodec), ← hlimit] at hin
        obtain ⟨⟨res, future'⟩, hpoll, hstep⟩ := Lib.bind_eq_ok.mp hstep
        rcases res with _ | e | io
        · cases hstep
          exact hno rfl rfl
        · cases hstep
          refine ⟨fun e' he => ?_, rfl⟩
          cases he
          exact .inr (Downgraded.poll_io hcodec hhands hreceiving hin hpoll)
        · cases hstep
          exact hno rfl rfl

/-- Whatever an application does on its side is something in the session. -/
theorem Stands.step {a : Action} {o : Answer} (hc : Compatible config) (hl : l.Valid config)
    (hs : s.Stands config p l read) (hholds : s.Holds (config p).frameLimit read raw)
    (hin : (∀ io, s.recovery ≠ .recovered io) →
      Incoming (config p).frameLimit (l.frames p.other) (read ++ s.unread))
    (h : s.step a = .ok (o, s')) :
    ∃ chunk l', s.unread = chunk ++ s'.unread ∧ Did config p l a o l' ∧
      s'.Stands config p l' (read ++ chunk) := by
  cases hs with
  -- A running side, and one that has stopped, of which only the streams are left.
  | active hplays => exact step_active hc hl hplays (hin nofun) h
  | stopped hgone hids hhanded =>
    obtain ⟨chunk, -, hadvances⟩ := step_holds hholds h
    obtain ⟨hexcused, hterm⟩ := hhanded.excused hholds (fun hnot => ⟨_, hin hnot⟩) h
    have hdrained {P : Prop} : o.isTerm = true → P :=
      fun ht => Bool.noConfusion (hterm.symm.trans ht)
    -- The application may still use its streams; nothing else reaches the session.
    by_cases happ : ∃ r op, a = .app r op
    · obtain ⟨r, op, rfl⟩ := happ
      obtain ⟨⟨output, streams⟩, happ, h⟩ := Lib.bind_eq_ok.mp h
      cases h
      have hreached := hl.reached.app_gone hgone happ
      obtain ⟨hhanded', hstreams⟩ := hhanded.putStreams streams
      refine ⟨chunk, { l with session := _ }, hadvances.unread, ⟨hl.put hreached fun _ => rfl,
        ⟨rfl, Function.update_of_ne p.other_ne _ _, Session.logAfter_of_ne p.other_ne, rfl, rfl,
          le_rfl, fun r' => logAfter_written _ _ _ p r', fun r' _ => ?_⟩, rfl, hexcused, hdrained⟩,
        .stopped ?_ ?_ hhanded'⟩
      · exact Nat.add_le_add_left (logAfter_written _ (.app p r op) output p r').length_le _
      · exact (Function.update_self _ _ _).trans (congrArg some hstreams.symm)
      · exact (congrArg Streams.ids hstreams).trans ((Streams.app_names happ).2.2.trans hids)
    · have hnot : ∀ r op, a ≠ .app r op := by
        intro r op ha
        exact happ ⟨r, op, ha⟩
      obtain ⟨hhanded', hconn⟩ := hhanded.step hholds hnot h
      have hlog : logged l.session.log p a o = l.session.log := by
        cases a with
        | app r op => exact absurd rfl (hnot r op)
        | _ => rfl
      refine ⟨chunk, l, hadvances.unread, ⟨hl, .refl p l, hlog.symm, hexcused, hdrained⟩,
        .stopped ?_ ?_ hhanded'⟩
      · rw [hconn]
        exact hgone
      · rw [hconn]
        exact hids

/-- What arrives, and what is read behind the connection's back, changes nothing in the session. -/
theorem Stands.mapIo (h : s.Stands config p l read) {f : Transport → Transport}
    (hf : ∀ io, (f io).out = io.out) : (s.mapIo f).Stands config p l read := by
  cases h with
  | active hplays =>
    exact .active ⟨⟨hplays.alive, hplays.streams, hplays.sends.congr ⟨hf _, rfl, rfl, rfl⟩⟩,
      hplays.limit, hplays.reads⟩
  | stopped hgone hids hhanded =>
    obtain ⟨hhanded', hstreams⟩ := hhanded.mapIo hf
    refine .stopped ?_ ?_ hhanded'
    · rw [hstreams]
      exact hgone
    · rw [hstreams]
      exact hids

/-- The application writes to the transport that it got back. -/
theorem Stands.write {io : Transport} (h : s.Stands config p l read)
    (hio : s.recovery = .recovered io) (data : Bytes) (now : Instant) :
    (s.mapIo fun io => { io with out := io.out ++ data.map fun b => (b, now) }).Stands
      config p l read := by
  cases h with
  | active => cases hio
  | stopped hgone hids hhanded =>
    cases hhanded with
    | recovered hstrs hout =>
      exact .stopped hgone hids ((Handed.recovered hstrs hout).write hio data now)
    | _ => cases hio

end Side

/-! ## Both sides -/

namespace Wired

variable {config : RammuxRole → RammuxConfig} {clock : RammuxRole → Clock} {w w' : Wired}
  {p : RammuxRole} {l l' : Manifest}

/-- A step over bytes. -/
abbrev Step := Lib.Machine.Taken Wired Action Side.Answer

/-- Two sides and the session that they are. -/
structure Carries (config : RammuxRole → RammuxConfig) (w : Wired) (l : Manifest) : Prop where
  valid : l.Valid config
  inv : w.Inv config
  stands : ∀ p, (w.sides p).Stands config p l (w.read p)

/-- The logs after an event. -/
def logged (log : RammuxRole → StreamRef → AppLog) (a : Action) (o : Side.Answer) :
    RammuxRole → StreamRef → AppLog :=
  match a with
  | .act p a => Side.logged log p a o
  | _ => log

/-- What the applications did with their streams, and what came of it. -/
def appLog (tr : List (Action × Side.Answer)) : RammuxRole → StreamRef → AppLog :=
  tr.foldl (fun log e => logged log e.1 e.2) fun _ _ => {}

/-- The log after one more event. -/
theorem appLog_snoc (tr : List (Action × Side.Answer)) (e : Action × Side.Answer) :
    appLog (tr ++ [e]) = logged (appLog tr) e.1 e.2 := List.foldl_concat _ _ _ _

/-- Two new sides are a new session. -/
theorem carries_new (config : RammuxRole → RammuxConfig) (clock : RammuxRole → Clock) :
    (new config clock).Carries config ⟨Session.new config, fun _ => [], fun _ => 0⟩ where
  valid := ⟨Session.reached_new config, fun _ => rfl, fun _ => le_rfl, nofun⟩
  inv := inv_new config clock
  stands p := by
    refine .active ⟨⟨rfl, rfl, ?_⟩, rfl, ⟨[], [], rfl, rfl, nofun, DecoderState.holds_default _⟩⟩
    exact ⟨[], [], [], .nil, rfl, .inl ⟨rfl, rfl, rfl⟩⟩

/-- What arrived at a side and was not given to its application is the beginning of what the other
side handed over. -/
theorem Carries.incoming (hc : Compatible config) (h : w.Carries config l)
    (hnot : ∀ io, (w.sides p).recovery ≠ .recovered io) :
    Incoming (config p).frameLimit (l.frames p.other) (w.read p ++ w.unread p) where
  begins := by
    obtain ⟨strs, tail, hstrs, htail, hbegins⟩ := (h.stands p.other).begins
    have hfifo := h.inv.fifo_other p
    rw [h.inv.raw p hnot, List.append_nil] at hfifo
    refine ⟨strs, tail, hstrs, htail, ?_⟩
    rw [← hfifo]
    exact (List.take_prefix _ _).trans hbegins
  plain := by
    rw [hc.frameLimit p]
    exact h.valid.plain p.other

/-- One of the sides does something, and the other stands where it stood. -/
theorem Carries.move (h : w.Carries config l) (hinv : w'.Inv config) (hl : l'.Valid config)
    (hsteps : l.Steps p l') (hself : (w'.sides p).Stands config p l' (w'.read p))
    (hsides : w'.sides p.other = w.sides p.other) (hread : w'.read p.other = w.read p.other) :
    w'.Carries config l' where
  valid := hl
  inv := hinv
  stands q := by
    rcases RammuxRole.eq_or_eq_other p q with rfl | rfl
    · exact hself
    · rw [hsides, hread]
      exact (h.stands p.other).other hsteps

/-- The application acts on a side. -/
theorem Carries.act {a : Side.Action} {o : Side.Answer} (hc : Compatible config)
    (h : w.Carries config l) (hstep : w.step (.act p a) = .ok (o, w')) :
    ∃ l', w'.Carries config l' ∧ Side.Did config p l a o l' := by
  have hinv := h.inv.act hstep
  obtain ⟨⟨o', side⟩, hside, hstep⟩ := Lib.bind_eq_ok.mp hstep
  cases hstep
  obtain ⟨chunk, l', hunread, hdid, hstands⟩ :=
    (h.stands p).step hc h.valid (h.inv.holds p) (h.incoming hc) hside
  have htook : (w.unread p).take ((w.unread p).length - side.unread.length) = chunk := by
    rw [unread, hunread, List.length_append, Nat.add_sub_cancel, List.take_left]
  refine ⟨l', h.move (p := p) hinv hdid.valid hdid.steps ?_ ?_ ?_, hdid⟩
  · change (Function.update w.sides p side p).Stands config p l' (Function.update w.read p _ p)
    rw [Function.update_self, Function.update_self, htook]
    exact hstands
  · exact Function.update_of_ne p.other_ne _ _
  · exact Function.update_of_ne p.other_ne _ _

/-- What happens to the transport of a side is nothing in the session. -/
theorem Carries.mapIo {f : Transport → Transport} (h : w.Carries config l)
    (hinv : w'.Inv config) (hsides : w'.sides = Function.update w.sides p ((w.sides p).mapIo f))
    (hread : w'.read = w.read)
    (hself : ((w.sides p).mapIo f).Stands config p l (w.read p)) : w'.Carries config l := by
  refine h.move (p := p) hinv h.valid (.refl p l) ?_ ?_ (congrFun hread _)
  · rw [hsides, hread, Function.update_self]
    exact hself
  · rw [hsides]
    exact Function.update_of_ne p.other_ne _ _

/-- Every step over bytes is some steps of the session, and every error has an excuse. -/
theorem Carries.step {a : Action} {o : Side.Answer} (hc : Compatible config)
    (h : w.Carries config l) (hstep : w.step a = .ok (o, w')) :
    ∃ l', w'.Carries config l' ∧ l'.session.log = logged l.session.log a o ∧ o.Excused ∧
      ∀ q, l.GoesOn q l' := by
  have hnone : Side.Answer.none.Excused := by
    intro e he
    cases he
  cases a with
  | act p a =>
    obtain ⟨l', hcarries, hdid⟩ := h.act hc hstep
    exact ⟨l', hcarries, hdid.log, hdid.excused, hdid.steps.all_goOn⟩
  | deliver p n =>
    -- The rest is between a transport and its peer: no side has done anything.
    have hinv := h.inv.deliver hstep
    simp only [Wired.step] at hstep
    split_ifs at hstep
    · cases hstep
      exact ⟨l, h, rfl, hnone, fun q => .refl q l⟩
    · cases hstep
      exact ⟨l, h.mapIo hinv rfl rfl ((h.stands p).mapIo fun _ => rfl), rfl, hnone,
        fun q => .refl q l⟩
  | eof p =>
    have hinv := h.inv.eof hstep
    cases hstep
    exact ⟨l, h.mapIo hinv rfl rfl ((h.stands p).mapIo fun _ => rfl), rfl, hnone,
        fun q => .refl q l⟩
  | read p n =>
    have hinv := h.inv.read hstep
    simp only [Wired.step] at hstep
    split at hstep
    · cases hstep
      exact ⟨l, h.mapIo hinv rfl rfl ((h.stands p).mapIo fun _ => rfl), rfl, hnone,
        fun q => .refl q l⟩
    · cases hstep
      exact ⟨l, h, rfl, hnone, fun q => .refl q l⟩
  | write p data now =>
    have hinv := h.inv.write hstep
    simp only [Wired.step] at hstep
    split at hstep
    · next io hio =>
      cases hstep
      exact ⟨l, h.mapIo hinv rfl rfl ((h.stands p).write hio data now), rfl, hnone,
        fun q => .refl q l⟩
    · cases hstep
      exact ⟨l, h, rfl, hnone, fun q => .refl q l⟩

/-- Every run over bytes is a run over frames, in which the applications do the same. -/
theorem carries_of_run {tr : List (Action × Side.Answer)} (hc : Compatible config)
    (h : (machine config clock).Run tr w) :
    ∃ l, w.Carries config l ∧ l.session.log = appLog tr ∧ ∀ e ∈ tr, e.2.Excused := by
  refine h.invariant
    (I := fun tr w => ∃ l, w.Carries config l ∧ l.session.log = appLog tr ∧ ∀ e ∈ tr, e.2.Excused)
    ⟨_, carries_new config clock, rfl, fun e he => absurd he List.not_mem_nil⟩ ?_
  rintro tr w a o w' - ⟨l, hcarries, hlog, hexcused⟩ hstep
  obtain ⟨l', hcarries', hlog', ho, -⟩ := hcarries.step hc hstep
  refine ⟨l', hcarries', ?_, fun e he => ?_⟩
  · rw [hlog', hlog, appLog_snoc]
  · rcases List.mem_append.mp he with he | he
    · exact hexcused e he
    · rw [List.mem_singleton.mp he]
      exact ho

/-- The same from any state on. -/
theorem Carries.path {tr : List (Action × Side.Answer)} {steps : List Step}
    (hc : Compatible config) (h : w.Carries config l) (hlog : l.session.log = appLog tr)
    (hpath : (machine config clock).Path w steps w') :
    ∃ l', w'.Carries config l' ∧ l'.session.log = appLog (tr ++ steps.map Lib.Machine.Taken.event) ∧
      ∀ q, l.GoesOn q l' := by
  induction hpath generalizing l tr with
  | nil w =>
    refine ⟨l, h, ?_, fun q => .refl q l⟩
    rw [List.map_nil, List.append_nil]
    exact hlog
  | @cons w w₁ w' a o steps hstep _ ih =>
    obtain ⟨l₁, h₁, hlog₁, -, hgoes⟩ := h.step hc hstep
    have hlog₁' : l₁.session.log = appLog (tr ++ [(a, o)]) := by rw [hlog₁, hlog, appLog_snoc]
    obtain ⟨l', h', hlog', hgoes'⟩ := ih h₁ hlog₁'
    refine ⟨l', h', ?_, fun q => (hgoes q).trans (hgoes' q)⟩
    rw [hlog', List.append_assoc]
    rfl

end Wired

end Rammux
