import Rammux.Connection.Handover

/-!
# Two sides over their transports

Two connections, each over one end of a transport that carries bytes both ways, in order. The
environment decides how many of the bytes that were written arrive at a time, how the transports
take what is written, and what they give to a read; the applications decide when to poll what they
have, and when to downgrade. Once a side has its transport back, its application reads and writes
what it likes.

A side whose future resolved to its transport has written frames, `TERM`, and what its application
wrote since; it has read what the peer wrote up to its `TERM`, and its application reads what the
peer's application wrote (`clean_downgrade`).
-/

namespace Rammux

/-- Two sides and their transports, with what was read from these and written to them. -/
structure Wired where
  sides : RammuxRole → Side
  /-- How many of the bytes that a side wrote have arrived at the other side. -/
  arrived : RammuxRole → ℕ
  /-- What the connection and its downgrade read. -/
  read : RammuxRole → Bytes
  /-- What the application read from the transport that it got back. -/
  rawRead : RammuxRole → Bytes
  /-- What the application wrote to it. -/
  rawWritten : RammuxRole → Bytes

namespace Wired

/-- What can happen. -/
inductive Action where
  /-- An application acts on its side. -/
  | act (p : RammuxRole) (a : Side.Action)
  /-- Up to `n` bytes arrive at a side. -/
  | deliver (p : RammuxRole) (n : ℕ)
  /-- The transport of a side comes to its end. -/
  | eof (p : RammuxRole)
  /-- An application reads up to `n` bytes from the transport that it got back. -/
  | read (p : RammuxRole) (n : ℕ)
  /-- It writes to it. -/
  | write (p : RammuxRole) (data : Bytes) (now : Instant)

/-- The bytes that a side wrote. -/
def written (w : Wired) (p : RammuxRole) : Bytes := (w.sides p).written

/-- The bytes that arrived at a side and were not read. -/
def unread (w : Wired) (p : RammuxRole) : Bytes := (w.sides p).unread

/-- The bytes that a side wrote and that have not arrived. -/
def inFlight (w : Wired) (p : RammuxRole) : Bytes := (w.written p).drop (w.arrived p)

def put (w : Wired) (p : RammuxRole) (side : Side) : Wired :=
  { w with sides := Function.update w.sides p side }

/-- Two new connections. -/
def new (config : RammuxRole → RammuxConfig) (clock : RammuxRole → Clock) : Wired where
  sides p := .new ⟨⟨[], false⟩, []⟩ p (config p) (clock p)
  arrived _ := 0
  read _ := []
  rawRead _ := []
  rawWritten _ := []

/-- One step. What a side reads is what is gone from the front of what it had to read. -/
def step (w : Wired) : Action → Except Panic (Side.Answer × Wired)
  | .act p a => do
    let (o, side) ← (w.sides p).step a
    -- What the side has taken from its transport is what is missing there.
    let took := (w.unread p).take ((w.unread p).length - side.unread.length)
    return (o, { w.put p side with read := Function.update w.read p (w.read p ++ took) })
  | .deliver p n =>
    -- Nothing arrives behind the end of the transport.
    if (w.sides p).io.any fun io => io.inbox.eof then .ok (.none, w)
    else
      let bytes := (w.inFlight p.other).take n
      let side := (w.sides p).mapIo fun io =>
        { io with inbox := { io.inbox with bytes := io.inbox.bytes ++ bytes } }
      .ok (.none, { w.put p side with
        arrived := Function.update w.arrived p.other (w.arrived p.other + bytes.length) })
  | .eof p =>
    let side := (w.sides p).mapIo fun io => { io with inbox := { io.inbox with eof := true } }
    .ok (.none, w.put p side)
  | .read p n =>
    -- The transport is the application's once it was given back.
    match (w.sides p).recovery with
    | .recovered io =>
      let side := (w.sides p).mapIo fun io =>
        { io with inbox := { io.inbox with bytes := io.inbox.bytes.drop n } }
      .ok (.none, { w.put p side with
        rawRead := Function.update w.rawRead p (w.rawRead p ++ io.inbox.bytes.take n) })
    | _ => .ok (.none, w)
  | .write p data now =>
    match (w.sides p).recovery with
    | .recovered _ =>
      let side := (w.sides p).mapIo fun io =>
        { io with out := io.out ++ data.map fun b => (b, now) }
      .ok (.none, { w.put p side with
        rawWritten := Function.update w.rawWritten p (w.rawWritten p ++ data) })
    | _ => .ok (.none, w)

/-- The two sides, from the start of the connection. -/
def machine (config : RammuxRole → RammuxConfig) (clock : RammuxRole → Clock) :
    Lib.Machine Panic Wired Action Side.Answer :=
  ⟨new config clock, step⟩

/-! ## What every run keeps -/

/-- The two sides hold what they hold, and every byte that was written is read, waits to be read or
is in flight. -/
structure Inv (config : RammuxRole → RammuxConfig) (w : Wired) : Prop where
  holds : ∀ p, (w.sides p).Holds (config p).frameLimit (w.read p) (w.rawWritten p)
  arrived_le : ∀ p, w.arrived p ≤ (w.written p).length
  fifo : ∀ p, (w.written p).take (w.arrived p) =
    w.read p.other ++ w.rawRead p.other ++ w.unread p.other
  raw : ∀ p, (∀ io, (w.sides p).recovery ≠ .recovered io) → w.rawRead p = []

variable {config : RammuxRole → RammuxConfig} {clock : RammuxRole → Clock} {w w' : Wired}
  {p : RammuxRole}

/-- Two new sides are in order, and nothing was written. -/
theorem inv_new (config : RammuxRole → RammuxConfig) (clock : RammuxRole → Clock) :
    (new config clock).Inv config where
  holds p := by
    refine .active rfl ⟨[], nofun, ?_⟩ ⟨[], [], rfl, nofun, DecoderState.holds_default _⟩
    exact ⟨[], [], [], .nil, rfl, .inl ⟨rfl, rfl, rfl⟩⟩
  arrived_le _ := Nat.zero_le _
  fifo _ := rfl
  raw _ _ := rfl

/-- Something happens at one side. It writes more, and has read from what has arrived. -/
theorem Inv.move (hi : w.Inv config) {q : RammuxRole} {side : Side}
    {read rawRead rawWritten : Bytes} {arrived : ℕ}
    (hother : w'.sides q.other = w.sides q.other ∧ w'.read q.other = w.read q.other ∧
      w'.rawRead q.other = w.rawRead q.other ∧ w'.rawWritten q.other = w.rawWritten q.other ∧
      w'.arrived q = w.arrived q)
    (hself : w'.sides q = side ∧ w'.read q = read ∧ w'.rawRead q = rawRead ∧
      w'.rawWritten q = rawWritten ∧ w'.arrived q.other = arrived)
    (hholds : side.Holds (config q).frameLimit read rawWritten)
    (hgrows : w.written q <+: side.written) (hle : arrived ≤ (w.written q.other).length)
    (hfifo : (w.written q.other).take arrived = read ++ rawRead ++ side.unread)
    (hraw : (∀ io, side.recovery ≠ .recovered io) → rawRead = []) : w'.Inv config := by
  obtain ⟨hsides, hread, hrawRead, hrawWritten, harrived⟩ := hother
  obtain ⟨rfl, rfl, rfl, rfl, rfl⟩ := hself
  have hwritten : w'.written q.other = w.written q.other := congrArg Side.written hsides
  have hunread : w'.unread q.other = w.unread q.other := congrArg Side.unread hsides
  refine ⟨fun p => ?_, fun p => ?_, fun p => ?_, fun p => ?_⟩ <;>
    rcases q.eq_or_eq_other p with rfl | rfl
  · exact hholds
  · rw [hsides, hread, hrawWritten]
    exact hi.holds q.other
  · rw [harrived]
    exact (hi.arrived_le p).trans hgrows.length_le
  · rw [hwritten]
    exact hle
  · rw [harrived, hread, hrawRead, hunread, ← hi.fifo p]
    obtain ⟨more, hmore⟩ := hgrows
    rw [written, ← hmore, List.take_append_of_le_length (hi.arrived_le p)]
  · rw [hwritten, RammuxRole.other_other]
    exact hfifo
  · exact hraw
  · rw [hsides, hrawRead]
    exact hi.raw q.other

/-- The bytes that have arrived at a side. -/
theorem Inv.fifo_other (hi : w.Inv config) (q : RammuxRole) :
    (w.written q.other).take (w.arrived q.other) = w.read q ++ w.rawRead q ++ w.unread q := by
  have hfifo := hi.fifo q.other
  rwa [RammuxRole.other_other] at hfifo

/-- The application acts on a side. -/
theorem Inv.act (hi : w.Inv config) {a : Side.Action} {o : Side.Answer}
    (h : w.step (.act p a) = .ok (o, w')) : w'.Inv config := by
  obtain ⟨⟨o', side⟩, hstep, h⟩ := Lib.bind_eq_ok.mp h
  cases h
  obtain ⟨chunk, hholds, io, io', hio, hio', hinbox, hout⟩ := Side.step_holds (hi.holds p) hstep
  have hunread : w.unread p = chunk ++ side.unread := by
    rw [unread, Side.unread_of_io hio, Side.unread_of_io hio', hinbox]
  have htook : (w.unread p).take ((w.unread p).length - side.unread.length) = chunk := by
    rw [hunread, List.length_append, Nat.add_sub_cancel, List.take_left]
  have hrecovered {back : Transport} (hback : (w.sides p).recovery = .recovered back) :
      side.recovery = .recovered back := Side.step_recovered (hi.holds p) hback hstep
  refine hi.move (q := p)
    ⟨Function.update_of_ne p.other_ne _ _, Function.update_of_ne p.other_ne _ _, rfl, rfl, rfl⟩
    ⟨Function.update_self _ _ _, (Function.update_self _ _ _).trans (by rw [htook]), rfl, rfl, rfl⟩
    hholds ?_ (hi.arrived_le p.other) ?_
      fun hne => hi.raw p fun back hback => hne back (hrecovered hback)
  · rw [written, Side.written_of_io hio, Side.written_of_io hio']
    exact hout.map _
  · change (w.written p.other).take (w.arrived p.other) = w.read p ++ chunk ++ w.rawRead p ++
      side.unread
    rw [hi.fifo_other p, hunread]
    -- The connection and its downgrade read nothing once the application may read.
    by_cases hex : ∃ back, (w.sides p).recovery = .recovered back
    · obtain ⟨back, hback⟩ := hex
      cases hio.symm.trans (Side.io_of_recovered hback)
      cases hio'.symm.trans (Side.io_of_recovered (hrecovered hback))
      rw [List.self_eq_append_left.mp hinbox, List.nil_append, List.append_nil]
    · rw [hi.raw p (not_exists.mp hex), List.append_nil, List.append_nil, List.append_assoc]

/-- What is in flight comes after what has arrived. -/
theorem Inv.take_inFlight (hi : w.Inv config) (q : RammuxRole) (n : ℕ) :
    w.arrived q + ((w.inFlight q).take n).length ≤ (w.written q).length ∧
      (w.written q).take (w.arrived q + ((w.inFlight q).take n).length) =
        (w.written q).take (w.arrived q) ++ (w.inFlight q).take n := by
  have hle := hi.arrived_le q
  rw [List.take_add, inFlight, List.length_take, List.length_drop]
  refine ⟨by omega, ?_⟩
  congr 1
  exact List.take_eq_take_iff.mpr (by rw [List.length_drop]; omega)

/-- Bytes arrive. -/
theorem Inv.deliver (hi : w.Inv config) {n : ℕ} {o : Side.Answer}
    (h : w.step (.deliver p n) = .ok (o, w')) : w'.Inv config := by
  simp only [step] at h
  split_ifs at h
  · cases h
    exact hi
  cases h
  obtain ⟨io, hio⟩ := Option.ne_none_iff_exists'.mp (hi.holds p).io_ne_none
  obtain ⟨hle, htake⟩ := hi.take_inFlight p.other n
  have hio' := Side.io_mapIo (w.sides p) fun io =>
    { io with inbox := { io.inbox with bytes := io.inbox.bytes ++ (w.inFlight p.other).take n } }
  rw [hio] at hio'
  refine hi.move (q := p)
    ⟨Function.update_of_ne p.other_ne _ _, rfl, rfl, rfl, Function.update_of_ne p.other_ne.symm _ _⟩
    ⟨Function.update_self _ _ _, rfl, rfl, rfl, Function.update_self _ _ _⟩
    ((hi.holds p).mapIo fun _ => rfl) ?_ hle ?_ fun hne => hi.raw p (Side.recovery_mapIo _ hne)
  · rw [written, Side.written_of_io hio, Side.written_of_io hio']
  · rw [htake, hi.fifo_other p, unread, Side.unread_of_io hio, Side.unread_of_io hio',
      List.append_assoc]
    rfl

/-- A transport comes to its end. -/
theorem Inv.eof (hi : w.Inv config) {o : Side.Answer} (h : w.step (.eof p) = .ok (o, w')) :
    w'.Inv config := by
  cases h
  obtain ⟨io, hio⟩ := Option.ne_none_iff_exists'.mp (hi.holds p).io_ne_none
  have hio' := Side.io_mapIo (w.sides p) fun io =>
    { io with inbox := { io.inbox with eof := true } }
  rw [hio] at hio'
  refine hi.move (q := p) ⟨Function.update_of_ne p.other_ne _ _, rfl, rfl, rfl, rfl⟩
    ⟨Function.update_self _ _ _, rfl, rfl, rfl, rfl⟩ ((hi.holds p).mapIo fun _ => rfl) ?_
    (hi.arrived_le p.other) ?_ fun hne => hi.raw p (Side.recovery_mapIo _ hne)
  · rw [written, Side.written_of_io hio, Side.written_of_io hio']
  · refine (hi.fifo_other p).trans ?_
    rw [unread, Side.unread_of_io hio, Side.unread_of_io hio']
    rfl

/-- The application reads from the transport that it got back. -/
theorem Inv.read (hi : w.Inv config) {n : ℕ} {o : Side.Answer}
    (h : w.step (.read p n) = .ok (o, w')) : w'.Inv config := by
  simp only [step] at h
  split at h
  · next io hback =>
    cases h
    have hio := Side.io_of_recovered hback
    have hio' := Side.io_mapIo (w.sides p) fun io =>
      { io with inbox := { io.inbox with bytes := io.inbox.bytes.drop n } }
    rw [hio] at hio'
    refine hi.move (q := p)
      ⟨Function.update_of_ne p.other_ne _ _, rfl, Function.update_of_ne p.other_ne _ _, rfl, rfl⟩
      ⟨Function.update_self _ _ _, rfl, Function.update_self _ _ _, rfl, rfl⟩
      ((hi.holds p).mapIo fun _ => rfl) ?_ (hi.arrived_le p.other) ?_
      fun hne => absurd hback (Side.recovery_mapIo _ hne io)
    · rw [written, Side.written_of_io hio, Side.written_of_io hio']
    · refine (hi.fifo_other p).trans ?_
      rw [unread, Side.unread_of_io hio, Side.unread_of_io hio']
      change _ = w.read p ++ (w.rawRead p ++ io.inbox.bytes.take n) ++ io.inbox.bytes.drop n
      simp only [List.append_assoc, List.take_append_drop]
  · cases h
    exact hi

/-- The application writes to the transport that it got back. -/
theorem Inv.write (hi : w.Inv config) {data : Bytes} {now : Instant} {o : Side.Answer}
    (h : w.step (.write p data now) = .ok (o, w')) : w'.Inv config := by
  simp only [step] at h
  split at h
  · next io hback =>
    cases h
    have hio := Side.io_of_recovered hback
    have hio' := Side.io_mapIo (w.sides p) fun io =>
        { io with out := io.out ++ data.map fun b => (b, now) }
    rw [hio] at hio'
    refine hi.move (q := p)
      ⟨Function.update_of_ne p.other_ne _ _, rfl, rfl, Function.update_of_ne p.other_ne _ _, rfl⟩
      ⟨Function.update_self _ _ _, rfl, rfl, Function.update_self _ _ _, rfl⟩
      ((hi.holds p).write hback data now) ?_ (hi.arrived_le p.other) ?_
      fun hne => absurd hback (Side.recovery_mapIo _ hne io)
    · rw [written, Side.written_of_io hio, Side.written_of_io hio']
      exact (List.prefix_append _ _).map _
    · refine (hi.fifo_other p).trans ?_
      rw [unread, Side.unread_of_io hio, Side.unread_of_io hio']
      rfl
  · cases h
    exact hi

/-- The invariant of all runs. -/
theorem inv_of_run {tr : List (Action × Side.Answer)} (h : (machine config clock).Run tr w) :
    w.Inv config := by
  refine h.invariant (I := fun _ w => w.Inv config) (inv_new config clock) ?_
  intro _ w a o w' _ hi hstep
  cases a with
  | act p a => exact hi.act hstep
  | deliver p n => exact hi.deliver hstep
  | eof p => exact hi.eof hstep
  | read p n => exact hi.read hstep
  | write p data now => exact hi.write hstep

/-- The future of a side resolved to its transport. -/
def Recovered (w : Wired) (p : RammuxRole) : Prop := ∃ io, (w.sides p).recovery = .recovered io

/-- Whatever was in progress when the two sides downgraded, a side that got its transport back has
written whole frames, then `TERM`, and then what its application wrote; it has read what the peer
wrote up to and including its `TERM`; and what is left for its application to read is what the
peer's application wrote. -/
theorem clean_downgrade {tr : List (Action × Side.Answer)} (h : (machine config clock).Run tr w)
    (hp : w.Recovered p) :
    (∃ strs, Side.Framed strs ∧ w.written p = strs.flatten ++ Side.term ++ w.rawWritten p) ∧
      (∃ strs, Side.Framed strs ∧
        w.written p.other = strs.flatten ++ Side.term ++ w.rawWritten p.other ∧
        w.read p = strs.flatten ++ Side.term) ∧
      w.rawRead p ++ w.unread p ++ w.inFlight p.other = w.rawWritten p.other := by
  have hi := inv_of_run h
  obtain ⟨io, hio⟩ := hp
  obtain ⟨near, -, hnear, -, -, hwritten, -⟩ := (hi.holds p).framed
  obtain ⟨far, tail, hfar, hbegins, htail, hall, hnone⟩ := (hi.holds p.other).framed
  -- What this side has read is a beginning of what the peer wrote.
  have hsplit : w.written p.other =
      w.read p ++ (w.rawRead p ++ w.unread p ++ w.inFlight p.other) := by
    conv_lhs =>
      rw [← List.take_append_drop (w.arrived p.other) (w.written p.other), hi.fifo_other p]
    simp only [List.append_assoc]
    rfl
  have hbegun : w.read p <+: w.written p.other := ⟨_, hsplit.symm⟩
  have hread : w.read p <+: far.flatten ++ tail := hbegun.trans hbegins
  obtain ⟨rfl, heq⟩ := Side.read_of_readTerm ((hi.holds p).readTerm hio) hfar htail hread
  -- What comes after it is what the application there wrote.
  have hrest : w.written p.other = far.flatten ++ (Side.term ++ w.rawWritten p.other) := by
    by_cases hback : ∃ io, (w.sides p.other).recovery = .recovered io
    · exact hall hback
    · rw [hnone (not_exists.mp hback), List.append_nil] at hbegins ⊢
      refine hbegins.eq_of_length_le ?_
      rw [← heq]
      exact hbegun.length_le
  refine ⟨⟨near, hnear, ?_⟩, ⟨far, hfar, ?_, heq⟩, ?_⟩
  · rw [List.append_assoc]
    exact hwritten ⟨io, hio⟩
  · rw [List.append_assoc, hrest]
  · rw [hsplit, heq, List.append_assoc] at hrest
    exact List.append_cancel_left (List.append_cancel_left hrest)

/-- Both sides downgrade at once, with a frame of the client partly written and partly read. The
client gets its transport back first, and what it writes then reaches the server's application. -/
theorem clean_downgrade_crossing : ∃ tr w,
    (machine (fun _ => Streams.tightConfig) fun _ => ⟨0⟩).Run tr w ∧
    w.Recovered .client ∧ w.Recovered .server ∧ w.rawWritten .client = [9] ∧
    w.rawRead .server ++ w.unread .server ++ w.inFlight .client = [9] ∧
    (∃ strs, Side.Framed strs ∧ w.written .client = strs.flatten ++ Side.term ++ [9] ∧
      w.read .server = strs.flatten ++ Side.term) ∧
    w.rawRead .server = [9] := by
  have h := Lib.Machine.Run.init (M := machine (fun _ => Streams.tightConfig) fun _ => ⟨0⟩)
    |>.step (a := .act .client (.open 0)) rfl
    |>.step (a := .act .client (.app 0 (.write [1, 2]))) (by with_unfolding_all rfl)
    |>.step (a := .act .client (.progress []
      [⟨[], false, [(0, 0)], .pending⟩, ⟨[⟨0, .accept 3 true⟩], false, [], .pending⟩]))
      (by with_unfolding_all rfl)
    |>.step (a := .deliver .server 2) (by with_unfolding_all rfl)
    |>.step (a := .act .server (.progress [⟨[.take 9 0], false⟩] [])) (by with_unfolding_all rfl)
    |>.step (a := .act .client .downgrade) (by with_unfolding_all rfl)
    |>.step (a := .act .server .downgrade) (by with_unfolding_all rfl)
    |>.step (a := .act .client (.recover [] [⟨[⟨0, .accept 9 true⟩], .pending⟩,
      ⟨[⟨0, .accept 9 true⟩], .ready (.ok ())⟩])) (by with_unfolding_all rfl)
    |>.step (a := .act .server (.recover [] [⟨[], .pending⟩,
      ⟨[⟨0, .accept 9 true⟩], .ready (.ok ())⟩])) (by with_unfolding_all rfl)
    |>.step (a := .deliver .client 9) (by with_unfolding_all rfl)
    |>.step (a := .act .client (.recover [⟨[.take 9 0], false⟩] [])) (by with_unfolding_all rfl)
    |>.step (a := .write .client [9] 0) (by with_unfolding_all rfl)
    |>.step (a := .deliver .server 20) (by with_unfolding_all rfl)
    |>.step (a := .act .server (.recover
      [⟨[.take 9 0, .take 9 0], false⟩, ⟨[.take 9 0], false⟩] [])) (by with_unfolding_all rfl)
    |>.step (a := .read .server 9) (by with_unfolding_all rfl)
  obtain ⟨-, ⟨strs, hstrs, hwritten, hread⟩, hraw⟩ :=
    clean_downgrade h (p := .server) ⟨_, by with_unfolding_all rfl⟩
  exact ⟨_, _, h, ⟨_, by with_unfolding_all rfl⟩, ⟨_, by with_unfolding_all rfl⟩,
    by with_unfolding_all rfl, hraw, ⟨strs, hstrs, hwritten, hread⟩, by with_unfolding_all rfl⟩

end Wired

end Rammux
