import Rammux.Lib.Lists
import Rammux.Connection.Endpoint

/-!
# What the application has after the connection

Every chunk that arrives for a stream is read, or held until it is (`step_chunks`): over a whole
run, the chunks that arrived are the chunks that were read, followed by those that are held
(`Leaves`). This holds after violations as well, because they also end in an abort. The abort keeps
what is held, and after it the application reads the held chunks one by one, and then the end of the
stream (`Abandoned`).
-/

namespace Rammux

namespace Streams

variable {s s' : Streams} {a : Action} {o : Output} {r : StreamRef}

/-- The chunks that a step brings to a stream. -/
def arrived (s s' : Streams) (r : StreamRef) : Action → Output → List Bytes
  | .receive header data, .received result =>
    if s.addressee s' header = some r then
      match result with
      | .ok _ => InboundTraffic.chunks data
      | .error v => if v.error.afterData then InboundTraffic.chunks data else []
    else []
  | _, _ => []

/-- The chunk that the application reads from a stream in a step. -/
def readOf (r : StreamRef) : Action → Output → List Bytes
  | .app r' (.pollRead _), .app (.read (.ready (some data))) => if r' = r then [data] else []
  | _, _ => []

/-- What the answer to a frame says about its data is what the stream said. -/
theorem arrived_of_verdict {header : StreamHeader} {data : Bytes} {res : Option StreamRef}
    {verdict : Except StreamError FinState} (h : s.addressee s' header = some r) :
    s.arrived s' r (.receive header data) (.received (answer header.id res verdict)) =
      StreamCtx.brought data verdict := by
  cases verdict with
  | error e => simp only [arrived, answer, if_pos h, StreamCtx.brought]
  | ok fin => simp only [arrived, answer, if_pos h, StreamCtx.brought]

/-- What is for another stream brings nothing to this one. -/
theorem arrived_eq_nil
    (hrec : ∀ header data, a = .receive header data → s.addressee s' header ≠ some r) :
    s.arrived s' r a o = [] := by
  unfold arrived
  split
  · exact if_neg (hrec _ _ rfl)
  · rfl

/-- What is not about a stream reads nothing from it. -/
theorem readOf_eq_nil (happ : ∀ op, a ≠ .app r op) : readOf r a o = [] := by
  unfold readOf
  split
  · next r' w data =>
    refine if_neg fun heq => happ (.pollRead w) ?_
    rw [heq]
  · rfl

/-- A step leaves a stream readable, whatever its verdict. -/
theorem step_readable (h : s.step a = .ok (o, s')) (hr : r < s.next)
    (hread : (s.state r).inbound.Readable) : (s'.state r).inbound.Readable := by
  cases step_stream h hr with
  | other hstate =>
    rw [hstate]
    exact hread
  | @app op res c ha ho happ hs =>
    rw [hs, put_state_self]
    cases op with
    | pollRead waker =>
      obtain ⟨⟨chunk, i, wk⟩, hpoll, happ⟩ := Lib.bind_eq_ok.mp happ
      cases happ
      exact hread.pollRead hpoll
    | closeReading =>
      cases happ
      exact hread.closeReading _ _
    | _ =>
      rw [(StreamCtx.app_kept happ).2.1 rfl]
      exact hread
  | received ha ho hlookup hsyn hrec hs =>
    rw [hs]
    refine (congrArg (fun st => InboundTraffic.Readable st.inbound) (put_state_self _ _ _)).mpr ?_
    exact StreamCtx.received_readable hrec hread
  | polled ha htask hpoll hstate hwoken hres =>
    obtain ⟨inRes, outRes, rxPool, wk, hin, -⟩ := StreamCtx.pollProgress_split hpoll
    rw [hstate, Function.update_self]
    exact hread.pollUpdate hin

/-- Unless the application closes reading, what a stream holds and what arrives is what is read and
what it holds then. -/
theorem step_chunks (h : s.step a = .ok (o, s')) (hr : r < s.next)
    (hopen : a ≠ .app r .closeReading) (hu : (s.state r).inbound.Unclosed) :
    (s'.state r).inbound.Unclosed ∧ (s.state r).inbound.buffered ++ s.arrived s' r a o =
      readOf r a o ++ (s'.state r).inbound.buffered := by
  cases step_stream h hr with
  | other hstate htask hwoken happ hpoll hrec =>
    -- A frame for another stream, or for one that it starts, brings this one nothing.
    have harrived : s.arrived s' r a o = [] := by
      refine arrived_eq_nil fun header data ha hto => ?_
      unfold addressee at hto
      split at hto
      · split at hto
        · exact hr.ne (Option.some.inj hto).symm
        · cases hto
      · next hsyn => exact hrec header data ha (by simpa using hsyn) hto
    rw [hstate, harrived, readOf_eq_nil happ, List.append_nil]
    exact ⟨hu, rfl⟩
  | @app op res c ha ho happ hs =>
    have harrived : s.arrived s' r a o = [] := arrived_eq_nil fun _ _ heq => by
      rw [ha] at heq
      cases heq
    have hkept (hwriter : op.ofReader = false) : (s'.state r).inbound = (s.state r).inbound := by
      rw [hs, put_state_self]
      exact (StreamCtx.app_kept happ).2.1 hwriter
    rw [harrived, List.append_nil]
    cases op with
    | pollRead waker =>
      -- What is read was the first chunk.
      obtain ⟨⟨chunk, i, wk⟩, hpoll, happ⟩ := Lib.bind_eq_ok.mp happ
      cases happ
      obtain ⟨hu', hb⟩ := hu.pollRead hpoll
      rw [hs, put_state_self, ha, ho]
      refine ⟨hu', hb.trans ?_⟩
      rcases chunk with _ | _ | data <;> simp [readOf]
    | closeReading => exact absurd ha hopen
    | _ =>
      rw [hkept rfl, ha]
      exact ⟨hu, rfl⟩
  | received ha ho hlookup hsyn hrec hs =>
    have hstate := congrArg (fun s => s.state r) hs
    simp only [put_state_self] at hstate
    obtain ⟨hu', hb⟩ := StreamCtx.received_unclosed hrec hu
    have hto : s.addressee s' _ = some r := (if_neg (by rw [hsyn]; decide)).trans hlookup
    rw [hstate, ha, ho, arrived_of_verdict hto]
    exact ⟨hu', hb.symm⟩
  | polled ha htask hpoll hstate hwoken hres =>
    obtain ⟨inRes, outRes, rxPool, wk, hin, -⟩ := StreamCtx.pollProgress_split hpoll
    -- The task sends credit at most, and leaves the chunks.
    obtain ⟨hu', hb⟩ := hu.pollUpdate hin
    rw [hstate, Function.update_self, ha, hb]
    exact ⟨hu', List.append_nil _⟩

/-- A stream that is started holds what its first frame brings. -/
theorem Started.chunks (h : s.Started a o s') (hnext : s'.next = s.next + 1) :
    (s'.state s.next).inbound.Readable ∧ (s'.state s.next).inbound.Unclosed ∧
      s.arrived s' s.next a o = readOf s.next a o ++ (s'.state s.next).inbound.buffered := by
  have hnew := InboundTraffic.readable_new s.config.localRecvWindow
  cases h with
  | opened ha ho hid hrole hids hstate =>
    rw [hstate, ha]
    exact ⟨hnew, .inl rfl, rfl⟩
  | @accepted header data verdict c ha ho hrole hvacant hsyn hrec hs =>
    have hfresh : ((s.accept header.id).ctx s.next).state = StreamState.new s.config :=
      Function.update_self _ _ _
    have hstate : s'.state s.next = c.state := by
      rw [hs]
      exact put_state_self _ _ _
    have hto : s.addressee s' header = some s.next := by
      have hlt : s.next < s'.next := by
        rw [hnext]
        exact Nat.lt_succ_self _
      rw [addressee, if_pos hsyn, if_pos hlt]
    have hread := StreamCtx.received_readable hrec (by rw [hfresh]; exact hnew)
    obtain ⟨hu, hb⟩ := StreamCtx.received_unclosed hrec (by rw [hfresh]; exact .inl rfl)
    rw [hfresh] at hb
    rw [hstate, ha, ho, arrived_of_verdict hto]
    exact ⟨hread, hu, hb.symm⟩

/-- Nothing arrives for a stream that there is not, and nothing is read from it. -/
theorem fresh_chunks (ht : s.Tables) (h : s.step a = .ok (o, s')) (hr : s'.next ≤ r) :
    s.arrived s' r a o = [] ∧ readOf r a o = [] := by
  have hle : s.next ≤ r := (next_le_of_step h).trans hr
  constructor
  · refine arrived_eq_nil fun header data ha hto => ?_
    unfold addressee at hto
    split at hto
    · split at hto
      · next hlt =>
        rw [Option.some.inj hto] at hlt
        exact absurd hr (Nat.not_le_of_lt hlt)
      · cases hto
    · exact absurd hle (Nat.not_le_of_lt (ht.lookup _ _ hto).1)
  · unfold readOf
    split
    · next r' w data =>
      refine if_neg fun heq => ?_
      subst heq
      simp only [step, if_neg (Nat.not_lt_of_le hle)] at h
      cases h
    · rfl

end Streams

namespace Endpoint

variable {role : RammuxRole} {config : RammuxConfig} {e e' : Endpoint} {r : StreamRef}

/-- A step of an endpoint, with the states around it. -/
abbrev Step := Lib.Machine.Taken Endpoint Action Streams.Output

/-- The chunks that a step brings to a stream. -/
def arrived (r : StreamRef) (t : Step) : List Bytes :=
  match t.action with
  | .act a => t.source.streams.arrived t.target.streams r a t.answer
  | .abort => []

/-- The chunk that the application reads from a stream in a step. -/
def readOf (r : StreamRef) (t : Step) : List Bytes :=
  match t.action with
  | .act a => Streams.readOf r a t.answer
  | .abort => []

/-- The application closes reading in none of the steps. -/
def KeepsReading (r : StreamRef) (steps : List Step) : Prop :=
  ∀ t ∈ steps, t.action ≠ .act (.app r .closeReading)

/-- What an endpoint has of the data that it received, as long as it has a connection. -/
structure Leaves (steps : List Step) (s : Streams) : Prop where
  tables : s.Tables
  readable : ∀ r < s.next, (s.state r).inbound.Readable
  /-- What arrived was read, or is held. -/
  held : ∀ r < s.next, KeepsReading r steps → (s.state r).inbound.Unclosed ∧
    steps.flatMap (arrived r) = steps.flatMap (readOf r) ++ (s.state r).inbound.buffered
  fresh : ∀ r, s.next ≤ r → steps.flatMap (arrived r) = [] ∧ steps.flatMap (readOf r) = []

/-- Whoever keeps reading over some steps does so before the last one and in the last one. -/
theorem KeepsReading.of_append {steps : List Step} {t : Step} (h : KeepsReading r (steps ++ [t])) :
    KeepsReading r steps ∧ t.action ≠ .act (.app r .closeReading) :=
  ⟨fun t' ht' => h t' (List.mem_append_left _ ht'), h t (by simp)⟩

/-- Nothing has arrived before the first step. -/
theorem leaves_new (role : RammuxRole) (config : RammuxConfig) :
    Leaves [] (Streams.new role config) where
  tables := Streams.tables_new role config
  readable _ hr := absurd hr (Nat.not_lt_zero _)
  held _ hr := absurd hr (Nat.not_lt_zero _)
  fresh _ _ := ⟨rfl, rfl⟩

/-- Every step of the streams keeps it. -/
theorem Leaves.step {steps : List Step} {s s' : Streams} {b : Streams.Action} {o : Streams.Output}
    {t : Step} (h : Leaves steps s) (hstep : s.step b = .ok (o, s'))
    (harrived : ∀ r, arrived r t = s.arrived s' r b o)
    (hread : ∀ r, readOf r t = Streams.readOf r b o)
    (haction : t.action = .act b) : Leaves (steps ++ [t]) s' := by
  have hflat (f : Step → List Bytes) : (steps ++ [t]).flatMap f = steps.flatMap f ++ f t := by
    rw [List.flatMap_append, List.flatMap_singleton]
  -- A stream that there was, and one that the step started.
  have hold : ∀ r < s.next, KeepsReading r (steps ++ [t]) → (s'.state r).inbound.Unclosed ∧
      (steps ++ [t]).flatMap (arrived r) =
        (steps ++ [t]).flatMap (readOf r) ++ (s'.state r).inbound.buffered := by
    intro r hr hkeeps
    obtain ⟨hkeeps, hlast⟩ := hkeeps.of_append
    obtain ⟨hu, hheld⟩ := h.held r hr hkeeps
    have hopen : b ≠ .app r .closeReading := by
      rintro rfl
      exact hlast haction
    obtain ⟨hu', hchunks⟩ := Streams.step_chunks hstep hr hopen hu
    refine ⟨hu', Lib.flatMap_concat_eq hheld ?_⟩
    rw [harrived, hread]
    exact hchunks
  have hnew : s'.next = s.next + 1 → s.Started b o s' → (s'.state s.next).inbound.Readable ∧
      (s'.state s.next).inbound.Unclosed ∧ (steps ++ [t]).flatMap (arrived s.next) =
        (steps ++ [t]).flatMap (readOf s.next) ++ (s'.state s.next).inbound.buffered := by
    intro hnext hstarted
    obtain ⟨hreadable, hu, hchunks⟩ := hstarted.chunks hnext
    obtain ⟨hnone, hnone'⟩ := h.fresh s.next (Nat.le_refl _)
    refine ⟨hreadable, hu, ?_⟩
    rw [hflat, hflat, hnone, hnone', harrived, hread]
    exact hchunks
  have hsplit : ∀ r < s'.next, r < s.next ∨ (r = s.next ∧ s'.next = s.next + 1 ∧
      s.Started b o s') := by
    intro r hr
    rcases Streams.step_next hstep with hnext | ⟨hnext, hstarted⟩
    · exact .inl (hnext ▸ hr)
    · rcases Nat.lt_succ_iff_lt_or_eq.mp (hnext ▸ hr) with hr | hr
      · exact .inl hr
      · exact .inr ⟨hr, hnext, hstarted⟩
  refine ⟨Streams.step_tables h.tables hstep, fun r hr => ?_, fun r hr hkeeps => ?_, fun r hr => ?_⟩
  · rcases hsplit r hr with hr | ⟨rfl, hnext, hstarted⟩
    · exact Streams.step_readable hstep hr (h.readable r hr)
    · exact (hnew hnext hstarted).1
  · rcases hsplit r hr with hr | ⟨rfl, hnext, hstarted⟩
    · exact hold r hr hkeeps
    · exact (hnew hnext hstarted).2
  · obtain ⟨hnone, hnone'⟩ := h.fresh r ((Streams.next_le_of_step hstep).trans hr)
    obtain ⟨harr, hrd⟩ := Streams.fresh_chunks h.tables hstep hr
    rw [hflat, hflat, hnone, hnone', harrived, hread, harr, hrd]
    exact ⟨rfl, rfl⟩

/-- A step that does nothing keeps it. -/
theorem Leaves.idle {steps : List Step} {s : Streams} {t : Step} (h : Leaves steps s)
    (harrived : ∀ r, arrived r t = []) (hread : ∀ r, readOf r t = []) :
    Leaves (steps ++ [t]) s := by
  have hflat (r : StreamRef) : (steps ++ [t]).flatMap (arrived r) = steps.flatMap (arrived r) ∧
      (steps ++ [t]).flatMap (readOf r) = steps.flatMap (readOf r) := by
    simp [harrived, hread]
  refine ⟨h.tables, h.readable, fun r hr hkeeps => ?_, fun r hr => ?_⟩
  · rw [(hflat r).1, (hflat r).2]
    exact h.held r hr hkeeps.of_append.1
  · rw [(hflat r).1, (hflat r).2]
    exact h.fresh r hr

/-- It holds as long as there is a connection. -/
theorem leaves_of_path {steps : List Step}
    (h : (machine role config).Path (machine role config).init steps e) (halive : e.gone = false) :
    Leaves steps e.streams := by
  have hinv := Lib.Machine.Path.invariant
    (I := fun steps (e : Endpoint) => e.gone = false → Leaves steps e.streams) ?_ h []
    fun _ => leaves_new role config
  · exact hinv halive
  intro steps e a o e' hleaves hstep halive'
  rcases step_cases hstep with ⟨b, s', rfl, -, hb, rfl⟩ | ⟨-, -, -, rfl⟩ | ⟨rfl, rfl, happ⟩
  · exact (hleaves halive').step hb (fun _ => rfl) (fun _ => rfl) rfl
  · cases halive'
  · refine (hleaves halive').idle (fun r => ?_) fun r => ?_
    · cases a with
      | act b => cases b <;> rfl
      | abort => rfl
    · cases a with
      | act b => exact Streams.readOf_eq_nil fun op hop => happ r op (by rw [hop])
      | abort => rfl

/-! ## After the abort -/

/-- Whether the application polls a stream for data in a step. -/
def polls (r : StreamRef) (t : Step) : Bool :=
  match t.action with
  | .act (.app r' (.pollRead _)) => r' = r
  | _ => false

/-- What the application has of a stream that was aborted: the chunks that it did not read before,
without those that it read since. -/
structure Abandoned (r : StreamRef) (unread : List Bytes) (steps : List Step) (e : Endpoint) :
    Prop where
  gone : e.gone = true
  lt : r < e.streams.next
  writing : (e.streams.state r).outbound.writing = false
  held : KeepsReading r steps → (e.streams.state r).inbound.Readable ∧
    (e.streams.state r).inbound.ended = true ∧
    (e.streams.state r).inbound.buffered = unread.drop (steps.countP (polls r))

variable {unread : List Bytes} {steps : List Step} {a : Action} {o : Streams.Output}

/-- What is not about the stream keeps it. -/
theorem Abandoned.other (h : Abandoned r unread steps e) {t : Step} (hgone : e'.gone = true)
    (hlt : r < e'.streams.next) (hstate : e'.streams.state r = e.streams.state r)
    (hpolls : polls r t = false) : Abandoned r unread (steps ++ [t]) e' := by
  refine ⟨hgone, hlt, by rw [hstate]; exact h.writing, fun hkeeps => ?_⟩
  rw [hstate, List.countP_append, List.countP_singleton, if_neg (by rw [hpolls]; decide)]
  exact h.held hkeeps.of_append.1

/-- Every step keeps it. -/
theorem Abandoned.step (h : Abandoned r unread steps e) (hstep : e.step a = .ok (o, e')) :
    Abandoned r unread (steps ++ [⟨e, a, o, e'⟩]) e' := by
  rcases step_cases hstep with ⟨b, s', rfl, hcan, hb, rfl⟩ | ⟨-, -, halive, -⟩ | ⟨-, rfl, happ⟩
  · -- There is no connection, so the application did it.
    have happ : ∃ r' op, b = .app r' op := by
      cases b with
      | app r' op => exact ⟨r', op, rfl⟩
      | _ => exact absurd (hcan.symm.trans (congrArg (!·) h.gone)) (by decide)
    have hlt := h.lt.trans_le (Streams.next_le_of_step hb)
    obtain ⟨r', op, rfl⟩ := happ
    cases Streams.step_stream hb h.lt with
    | other hstate htask hwoken hother =>
      -- It was done to another stream.
      refine h.other h.gone hlt hstate ?_
      cases op with
      | pollRead waker => exact decide_eq_false fun heq => hother (.pollRead waker) (by rw [heq])
      | _ => rfl
    | received ha => cases ha
    | polled ha => cases ha
    | @app op' res c ha ho happ hs =>
      cases ha
      have hstate : s'.state r = c.state := by
        rw [hs, Streams.put_state_self]
      refine ⟨h.gone, hlt, ?_, fun hkeeps => ?_⟩
      · show (s'.state r).outbound.writing = false
        rw [hstate]
        exact StreamCtx.app_not_writing happ h.writing
      · show (s'.state r).inbound.Readable ∧ (s'.state r).inbound.ended = true ∧
          (s'.state r).inbound.buffered = _
        obtain ⟨hkeeps, hlast⟩ := hkeeps.of_append
        obtain ⟨hread, hended, hheld⟩ := h.held hkeeps
        rw [hstate, List.countP_append, List.countP_singleton]
        cases op with
        | pollRead waker =>
          -- Each read takes the next chunk of what was held at the abort.
          obtain ⟨t', wk', hpoll, hread', hended', htail⟩ :=
            hread.pollRead_ended hended waker r (e.streams.ctx r).wakes
          obtain ⟨x, hx, happ⟩ := Lib.bind_eq_ok.mp happ
          obtain rfl := Except.ok.inj (hx.symm.trans hpoll)
          cases happ
          refine ⟨hread', hended', htail.trans ?_⟩
          rw [hheld, List.tail_drop]
          simp [polls]
        | closeReading => exact absurd rfl hlast
        | _ =>
          rw [(StreamCtx.app_kept happ).2.1 rfl]
          exact ⟨hread, hended, hheld⟩
  · exact Bool.noConfusion (halive.symm.trans h.gone)
  · refine h.other h.gone h.lt rfl ?_
    unfold polls
    split
    · next r' w heq => exact absurd heq (happ r' (.pollRead w))
    · rfl

/-- The abort of a live stream leaves what it holds. -/
theorem abandoned_abort {s : Streams} {id : StreamId} (ht : s.Tables)
    (hlookup : s.lookup id = some r)
    (hread : (s.state r).inbound.Readable) :
    Abandoned r (s.state r).inbound.buffered [] ⟨s.abort, true⟩ := by
  obtain ⟨hended, hwriting⟩ := Streams.abort_closed hlookup
  refine ⟨rfl, ?_, hwriting, fun _ => ⟨s.abort_readable r hread, hended, s.abort_buffered r⟩⟩
  show r < s.abort.next
  rw [s.abort_names.1]
  exact (ht.lookup _ _ hlookup).1

/-- The connection of an endpoint goes, after any run, with or without a violation, and the
application has not closed reading on a live stream. The chunks that arrived for the stream are
those that were read and some that were not. From then on, whatever the application does, it
reads the unread chunks one after the other, and then the end of the stream again and again:
the read after `k` others returns the chunk number `k`, or the end. It never waits. And it can
write nothing. -/
theorem abort_leaves {before after : List Step} {e₁ e₂ : Endpoint} {id : StreamId}
    (hbefore : (machine role config).Path (machine role config).init before e)
    (halive : e.gone = false) (hlookup : e.streams.lookup id = some r)
    (hopen : KeepsReading r before) (habort : (machine role config).step e .abort = .ok (o, e₁))
    (hafter : (machine role config).Path e₁ after e₂) :
    (∃ unread, before.flatMap (arrived r) = before.flatMap (readOf r) ++ unread ∧
      (KeepsReading r after → ∀ w, ∃ e₃, e₂.step (.act (.app r (.pollRead w))) =
        .ok (.app (.read (.ready unread[after.countP (polls r)]?)), e₃))) ∧
    (∀ data, ∃ e₃, e₂.step (.act (.app r (.write data))) =
      .ok (.app (.written (.error .brokenPipe)), e₃)) ∧
    ∀ w, ∃ e₃, e₂.step (.act (.app r (.pollWriteReady w))) =
      .ok (.app (.writeReady (.ready (.error .brokenPipe))), e₃) := by
  have hleaves := leaves_of_path hbefore halive
  have hr := (hleaves.tables.lookup _ _ hlookup).1
  have he₁ : e₁ = ⟨e.streams.abort, true⟩ := by
    simp only [machine, step, halive, Bool.false_eq_true, if_false] at habort
    exact (Prod.mk.inj (Except.ok.inj habort)).2.symm
  -- What the abort leaves, every later step of the application keeps.
  have hend : Abandoned r (e.streams.state r).inbound.buffered after e₂ := by
    have h0 := abandoned_abort hleaves.tables hlookup (hleaves.readable r hr)
    rw [← he₁] at h0
    exact Lib.Machine.Path.invariant (fun _ _ _ _ _ h hstep => h.step hstep) hafter [] h0
  refine ⟨⟨_, (hleaves.held r hr hopen).2, fun hkeeps w => ?_⟩, fun data => ?_, fun w => ?_⟩
  · obtain ⟨hread, hended, hheld⟩ := hend.held hkeeps
    obtain ⟨t', wk', hpoll, -⟩ := hread.pollRead_ended hended w r e₂.streams.wakes
    rw [hheld, List.head?_drop] at hpoll
    exact ⟨_, step_app hend.lt (Lib.bind_eq_ok.mpr ⟨_, hpoll, rfl⟩)⟩
  · refine ⟨_, step_app (c := e₂.streams.ctx r) hend.lt ?_⟩
    simp only [StreamCtx.app, Streams.ctx, OutboundTraffic.write_of_not_writing hend.writing]
  · refine ⟨_, step_app (c := e₂.streams.ctx r) hend.lt ?_⟩
    simp only [StreamCtx.app, Streams.ctx,
      OutboundTraffic.pollWriteReady_of_not_writing hend.writing]

/-- The peer sends two chunks, of which the application reads one, and then more than the pool has
room for. The connection fails. The application reads the other chunk, and then the end. -/
theorem abort_leaves_violation : ∃ before e e₁ after e₂,
    (machine .server Streams.tightConfig).Path (machine .server Streams.tightConfig).init before e ∧
    before.getLast?.map (fun t => t.answer matches .received (.error _)) = some true ∧
    before.flatMap (arrived 0) = [[1, 2], [3]] ∧ before.flatMap (readOf 0) = [[1, 2]] ∧
    e.step .abort = .ok (.none, e₁) ∧ (machine .server Streams.tightConfig).Path e₁ after e₂ ∧
    after.flatMap (readOf 0) = [[3]] ∧
    ∃ e₃, e₂.step (.act (.app 0 (.pollRead 0))) = .ok (.app (.read (.ready none)), e₃) := by
  obtain ⟨before, e, e₁, after, e₂, hbefore, hviolation, harrived, hread, halive, hlookup, hkeeps,
      habort, hafter, hread', hkeeps', hpolls⟩ : ∃ before e e₁ after e₂,
      (machine .server Streams.tightConfig).Path (machine .server Streams.tightConfig).init before
        e ∧
      before.getLast?.map (fun t => t.answer matches .received (.error _)) = some true ∧
      before.flatMap (arrived 0) = [[1, 2], [3]] ∧ before.flatMap (readOf 0) = [[1, 2]] ∧
      e.gone = false ∧ e.streams.lookup ⟨0⟩ = some 0 ∧ KeepsReading 0 before ∧
      e.step .abort = .ok (.none, e₁) ∧ (machine .server Streams.tightConfig).Path e₁ after e₂ ∧
      after.flatMap (readOf 0) = [[3]] ∧ KeepsReading 0 after ∧ after.countP (polls 0) = 1 :=
    ⟨_, _, _, _, _,
      .cons (a := .act (.receive ⟨⟨0⟩, { syn := true }, none, none⟩ [1, 2])) rfl
        (.cons (a := .act (.receive ⟨⟨0⟩, {}, none, none⟩ [3])) (by with_unfolding_all rfl)
        (.cons (a := .act (.app 0 (.pollRead 0))) (by with_unfolding_all rfl)
        (.cons (a := .act (.receive ⟨⟨0⟩, {}, none, none⟩ [4, 5, 6, 7]))
          (by with_unfolding_all rfl) (.nil _)))),
      by with_unfolding_all rfl, by decide +kernel, by decide +kernel, by with_unfolding_all rfl,
      by with_unfolding_all rfl, by simp [KeepsReading], by with_unfolding_all rfl,
      .cons (a := .act (.app 0 (.pollRead 0))) (by with_unfolding_all rfl) (.nil _),
      by decide +kernel, by simp [KeepsReading], by decide +kernel⟩
  obtain ⟨⟨unread, hunread, hreads⟩, -⟩ :=
    abort_leaves hbefore halive hlookup hkeeps habort hafter
  rw [harrived, hread] at hunread
  obtain rfl : unread = [[3]] :=
    (List.append_cancel_left (show [[1, 2]] ++ [[3]] = [[1, 2]] ++ unread from hunread)).symm
  have hend := hreads hkeeps' 0
  rw [hpolls] at hend
  exact ⟨before, e, e₁, after, e₂, hbefore, hviolation, harrived, hread, habort, hafter,
    hread', hend⟩

end Endpoint

end Rammux
