import Rammux.Lib.Channel
import Rammux.Stream.State

/-!
# The two ends of a stream

A stream has an object at each endpoint, and frames in flight between the two. `Link` is one stream
as a whole: what the endpoints have of it, and the frames that each has sent and the other has not
received.

Each direction of a stream is a `Direction` of its link: data and `FIN_WRITE` go one way, credit and
`FIN_READ` come back. Its invariant says that the `FIN_*`s in flight lead from what one end has
received to what the other has sent, and that every byte that the sender counts as unacked is held
by the receiver, is in flight, or is credit in flight, until the receiver stops reading.
-/

namespace Rammux

/-- The stream part of a frame in flight. `src` is the stream that sent it; the frame does not carry
it, and nothing that an endpoint does depends on it. -/
structure Packet where
  src : StreamRef
  header : StreamHeader
  data : Bytes

/-- The header of an update. -/
def StreamUpdate.header (u : StreamUpdate) : StreamHeader where
  id := u.id
  flags := u.flags
  credit := NonZeroU32.new u.credit
  dataLen := NonZeroU16.new (UInt16.ofNat u.data.length)

/-- The frame that a stream sends for an update. -/
def StreamUpdate.packet (u : StreamUpdate) (r : StreamRef) : Packet := ⟨r, u.header, u.data⟩

namespace Packet

/-- The bytes of credit, 0 for none. -/
def credit (p : Packet) : ℕ := creditLen p.header.credit

/-- Whether the frame has data. -/
def hasData (p : Packet) : Bool := !p.data.isEmpty

/-- Whether the frame has credit. -/
def hasCredit (p : Packet) : Bool := p.header.credit.isSome

/-- The frame has something for the stream besides `SYN`. -/
def Loaded (p : Packet) : Prop :=
  p.hasCredit = true ∨ p.hasData = true ∨ p.header.flags.finRead = true ∨
    p.header.flags.finWrite = true

/-- A frame has data when the data is not empty. -/
theorem hasData_iff {p : Packet} : p.hasData = true ↔ p.data ≠ [] := by
  simp [hasData]

/-- A frame without credit returns none. -/
theorem credit_eq_zero {p : Packet} (h : p.hasCredit = false) : p.credit = 0 := by
  simp only [hasCredit, Option.isSome_eq_false_iff, Option.isNone_iff_eq_none] at h
  rw [credit, h]
  rfl

/-- A frame has credit when it is not zero. -/
theorem hasCredit_iff {p : Packet} : p.hasCredit = true ↔ 0 < p.credit := by
  constructor
  · intro h
    obtain ⟨k, hk⟩ := Option.isSome_iff_exists.mp h
    rw [credit, hk]
    exact k.toNat_pos
  · intro h
    by_contra hc
    rw [credit_eq_zero (by simpa using hc)] at h
    exact Nat.lt_irrefl 0 h

end Packet

/-- The credit of a frame is that of the update. -/
@[simp] theorem StreamUpdate.packet_credit (u : StreamUpdate) (r : StreamRef) :
    (u.packet r).credit = u.credit.toNat := creditLen_new u.credit

/-- What a frame for an update has, if the update has something. -/
theorem StreamUpdate.packet_loaded {u : StreamUpdate} (r : StreamRef)
    (h : u.credit ≠ 0 ∨ u.data ≠ [] ∨ u.flags.finRead = true ∨ u.flags.finWrite = true) :
    (u.packet r).Loaded := by
  rcases h with h | h | h | h
  · left
    rw [Packet.hasCredit_iff, packet_credit]
    exact Nat.pos_of_ne_zero fun hz => h (UInt32.toNat_inj.mp hz)
  · exact .inr (.inl (Packet.hasData_iff.mpr h))
  · exact .inr (.inr (.inl h))
  · exact .inr (.inr (.inr h))

/-- The bytes of data in flight. -/
def dataInFlight (ps : List Packet) : ℕ := (ps.map fun p => p.data.length).sum

/-- The bytes of credit in flight. -/
def creditInFlight (ps : List Packet) : ℕ := (ps.map Packet.credit).sum

/-- No frames carry no data. -/
@[simp] theorem dataInFlight_nil : dataInFlight [] = 0 := rfl

/-- No frames carry no credit. -/
@[simp] theorem creditInFlight_nil : creditInFlight [] = 0 := rfl

/-- The data of a frame is in flight with that of the others. -/
@[simp] theorem dataInFlight_cons (p : Packet) (ps : List Packet) :
    dataInFlight (p :: ps) = p.data.length + dataInFlight ps := by
  simp [dataInFlight]

/-- The credit of a frame is in flight with that of the others. -/
@[simp] theorem creditInFlight_cons (p : Packet) (ps : List Packet) :
    creditInFlight (p :: ps) = p.credit + creditInFlight ps := by
  simp [creditInFlight]

/-- The data of a new frame is in flight with that of the others. -/
@[simp] theorem dataInFlight_concat (ps : List Packet) (p : Packet) :
    dataInFlight (ps ++ [p]) = dataInFlight ps + p.data.length := by
  simp [dataInFlight]

/-- The credit of a new frame is in flight with that of the others. -/
@[simp] theorem creditInFlight_concat (ps : List Packet) (p : Packet) :
    creditInFlight (ps ++ [p]) = creditInFlight ps + p.credit := by
  simp [creditInFlight]

/-- Without frames that have credit, none is in flight. -/
theorem creditInFlight_eq_zero {ps : List Packet} (h : ∀ p ∈ ps, p.hasCredit = false) :
    creditInFlight ps = 0 := by
  refine List.sum_eq_zero fun n hn => ?_
  obtain ⟨p, hp, rfl⟩ := List.mem_map.mp hn
  exact Packet.credit_eq_zero (h p hp)

/-! ## One direction -/

/-- The frames from the sender, as a channel for data. -/
abbrev DataClosing := Lib.Closing Packet.hasData fun p => p.header.flags.finWrite

/-- The frames from the receiver, as a channel for credit. -/
abbrev CreditClosing := Lib.Closing Packet.hasCredit fun p => p.header.flags.finRead

/-- The invariant of one direction: `o` sends, `f` are the frames from its end, `i` receives, and
`g` are the frames from the receiving end. -/
structure Direction (o : OutboundTraffic) (f : List Packet) (i : InboundTraffic)
    (g : List Packet) : Prop where
  finWrite : DataClosing i.ended f o.finSent
  finRead : CreditClosing o.finReceived g i.finSent
  /-- The sender can take all the credit in flight. -/
  credit_le : creditInFlight g ≤ o.unacked
  /-- Until `FIN_READ` is sent, no byte is lost. -/
  balance : i.finSent = false → o.unacked = i.window.unacked + dataInFlight f + creditInFlight g

namespace Direction

variable {o o' : OutboundTraffic} {f g : List Packet} {i i' : InboundTraffic} {p : Packet}

/-- A new direction is sound. -/
theorem new (limit window base : ℕ) (h : 0 < limit) :
    Direction (OutboundTraffic.new limit h window) [] (InboundTraffic.new base) [] :=
  ⟨rfl, rfl, Nat.zero_le _, fun _ => rfl⟩

/-- The sender never counts less than the receiver. -/
theorem unacked_le (h : Direction o f i g) (hsent : i.finSent = true → i.window.unacked = 0) :
    i.window.unacked ≤ o.unacked := by
  cases hf : i.finSent with
  | true =>
    rw [hsent hf]
    exact Nat.zero_le _
  | false =>
    have := h.balance hf
    omega

/-- What the applications do changes nothing. -/
theorem congr (h : Direction o f i g) (hun : o'.unacked = o.unacked)
    (hos : o'.finSent = o.finSent) (hor : o'.finReceived = o.finReceived)
    (hw : i'.window = i.window) (his : i'.finSent = i.finSent) (hie : i'.ended = i.ended) :
    Direction o' f i' g := by
  refine ⟨?_, ?_, ?_, fun hs => ?_⟩
  · rw [hie, hos]
    exact h.finWrite
  · rw [hor, his]
    exact h.finRead
  · rw [hun]
    exact h.credit_le
  · rw [hun, hw]
    exact h.balance (his ▸ hs)

/-- The sender sends. -/
theorem send (h : Direction o f i g) (hs : o.Emits p.data p.header.flags.finWrite o') :
    Direction o' (f ++ [p]) i g := by
  have hopen : o.finSent = true → p.hasData = false ∧ p.header.flags.finWrite = false := by
    intro hsent
    refine ⟨?_, ?_⟩
    · by_contra hd
      have := (hs.dataOpen (Packet.hasData_iff.mp (by simpa using hd))).1
      rw [hsent] at this
      exact Bool.noConfusion this
    · by_contra hd
      have := (hs.finOpen (by simpa using hd)).1
      rw [hsent] at this
      exact Bool.noConfusion this
  refine ⟨?_, ?_, ?_, fun hf => ?_⟩
  · rw [hs.finSent]
    exact h.finWrite.send hopen
  · rw [hs.finReceived]
    exact h.finRead
  · have := h.credit_le
    rw [hs.unacked]
    omega
  · have := h.balance hf
    rw [hs.unacked, dataInFlight_concat]
    omega

/-- The receiver takes the next frame of the sender. -/
theorem arrive (h : Direction o (p :: f) i g)
    (hr : i.Received p.data p.header.flags.finWrite i') : Direction o f i' g := by
  refine ⟨?_, ?_, h.credit_le, fun hf => ?_⟩
  · rw [hr.ended]
    exact h.finWrite.receive
  · rw [hr.finSent]
    exact h.finRead
  · rw [hr.finSent] at hf
    have := h.balance hf
    rw [dataInFlight_cons] at this
    rw [hr.unacked, hf, if_neg Bool.false_ne_true]
    omega

/-- The receiver sends. -/
theorem grant (h : Direction o f i g) (hs : i.Emits p.credit p.header.flags.finRead i')
    (hle : i.credit ≤ i.window.unacked) : Direction o f i' (g ++ [p]) := by
  have hopen : i.finSent = true → p.hasCredit = false ∧ p.header.flags.finRead = false := by
    intro hsent
    refine ⟨?_, ?_⟩
    · by_contra hc
      have hread := hs.creditOpen (Packet.hasCredit_iff.mp (by simpa using hc))
      rw [InboundTraffic.not_reading_of_finSent hsent] at hread
      exact Bool.noConfusion hread
    · by_contra hd
      have := (hs.finOpen (by simpa using hd)).2.1
      rw [hsent] at this
      exact Bool.noConfusion this
  have hcredit := hs.credit_le
  -- Credit is only sent while the bytes are still counted.
  have hclosed : i.finSent = true → p.credit = 0 := fun hsent =>
    Packet.credit_eq_zero (hopen hsent).1
  refine ⟨?_, ?_, ?_, fun hf => ?_⟩
  · rw [hs.ended]
    exact h.finWrite
  · rw [hs.finSent]
    exact h.finRead.send hopen
  · have hsum := h.credit_le
    rw [creditInFlight_concat]
    cases hsent : i.finSent with
    | true =>
      have := hclosed hsent
      omega
    | false =>
      have := h.balance hsent
      omega
  · rw [hs.finSent, Bool.or_eq_false_iff] at hf
    have := h.balance hf.1
    rw [hs.unacked, hf.2, if_neg Bool.false_ne_true, creditInFlight_concat]
    omega

/-- The sender takes the next frame of the receiver. -/
theorem giveBack (h : Direction o f i (p :: g))
    (hr : o.Received p.credit p.header.flags.finRead o') : Direction o' f i g := by
  have hsum := h.credit_le
  rw [creditInFlight_cons] at hsum
  refine ⟨?_, ?_, ?_, fun hf => ?_⟩
  · rw [hr.finSent]
    exact h.finWrite
  · rw [hr.finReceived]
    exact h.finRead.receive
  · rw [hr.unacked]
    split_ifs with hfin
    · -- Nothing that follows `FIN_READ` returns credit.
      have hrest := (h.finRead.close hfin).of_closed.2
      rw [creditInFlight_eq_zero fun q hq => (hrest q hq).1]
    · omega
  · have hbal := h.balance hf
    rw [creditInFlight_cons] at hbal
    -- `FIN_READ` is not in flight, because it was not sent.
    have hfin : p.header.flags.finRead = false := by
      by_contra hc
      have hclosed : p.header.flags.finRead = true := by simpa using hc
      exact Bool.noConfusion (hf.symm.trans (h.finRead.close hclosed).of_closed.1)
    rw [hr.unacked, hfin, if_neg Bool.false_ne_true]
    omega

end Direction

/-! ## The whole stream -/

/-- A stream, seen from one of its ends: the frames `sent` are not received by the far end yet, and
those `coming` not by the near end. -/
structure Link where
  near : StreamState
  sent : List Packet
  far : StreamState
  coming : List Packet

namespace Link

/-- The stream, seen from the other end. -/
def flip (l : Link) : Link := ⟨l.far, l.coming, l.near, l.sent⟩

/-- The invariant of a stream: that of its two directions. -/
structure Sound (l : Link) : Prop where
  out : Direction l.near.outbound l.sent l.far.inbound l.coming
  back : Direction l.far.outbound l.coming l.near.inbound l.sent

variable {l : Link} {near : StreamState} {p : Packet} {ps : List Packet}

/-- A link is sound from either end. -/
theorem Sound.flip (h : l.Sound) : l.flip.Sound := ⟨h.back, h.out⟩

/-- A stream that was not used yet. -/
theorem sound_new (config config' : RammuxConfig) :
    (⟨StreamState.new config, [], StreamState.new config', []⟩ : Link).Sound :=
  ⟨Direction.new .., Direction.new ..⟩

/-- The application of the near end uses the stream. -/
theorem Sound.used (h : l.Sound) (hu : l.near.Used near) : ({ l with near } : Link).Sound where
  out := h.out.congr (by rw [OutboundTraffic.unacked, hu.ledger]; rfl) hu.outFinSent hu.finReceived
    rfl rfl rfl
  back := h.back.congr rfl rfl rfl hu.window hu.inFinSent hu.ended

/-- The near end sends a frame. -/
theorem Sound.send (h : l.Sound)
    (hin : l.near.inbound.Emits p.credit p.header.flags.finRead near.inbound)
    (hout : l.near.outbound.Emits p.data p.header.flags.finWrite near.outbound)
    (hle : l.near.inbound.credit ≤ l.near.inbound.window.unacked) :
    ({ l with near, sent := l.sent ++ [p] } : Link).Sound :=
  ⟨h.out.send hout, h.back.grant hin hle⟩

/-- The near end takes the next frame. -/
theorem Sound.receive (h : l.Sound) (hc : l.coming = p :: ps)
    (hin : l.near.inbound.Received p.data p.header.flags.finWrite near.inbound)
    (hout : l.near.outbound.Received p.credit p.header.flags.finRead near.outbound) :
    ({ l with near, coming := ps } : Link).Sound := by
  obtain ⟨near₀, sent, far, coming⟩ := l
  subst hc
  exact ⟨h.out.giveBack hout, h.back.arrive hin⟩

/-- Nothing is in flight to an end that has exchanged all the `FIN_*`s. -/
theorem Sound.coming_eq_nil (h : l.Sound) (hd : l.near.finState.isDead = true)
    (hl : ∀ p ∈ l.coming, p.Loaded) : l.coming = [] := by
  obtain ⟨-, hended, hreceived⟩ := StreamState.isDead_iff.mp hd
  have hdata := h.back.finWrite
  have hcredit := h.out.finRead
  rw [hended] at hdata
  rw [hreceived] at hcredit
  refine List.eq_nil_iff_forall_not_mem.mpr fun p hp => ?_
  obtain ⟨hnoData, hnoFinWrite⟩ := hdata.of_closed.2 p hp
  obtain ⟨hnoCredit, hnoFinRead⟩ := hcredit.of_closed.2 p hp
  rcases hl p hp with h | h | h | h
  · exact Bool.noConfusion (hnoCredit.symm.trans h)
  · exact Bool.noConfusion (hnoData.symm.trans h)
  · exact Bool.noConfusion (hnoFinRead.symm.trans h)
  · exact Bool.noConfusion (hnoFinWrite.symm.trans h)

/-- If the near end has exchanged all the `FIN_*`s, and none of its frames is in flight, so has the
far end. -/
theorem Sound.far_dead (h : l.Sound) (hd : l.near.finState.isDead = true) (hs : l.sent = []) :
    l.far.finState.isDead = true := by
  obtain ⟨⟨hinSent, houtSent⟩, hended, hreceived⟩ := StreamState.isDead_iff.mp hd
  have hdata := h.back.finWrite
  have hcredit := h.out.finRead
  rw [hended] at hdata
  rw [hreceived] at hcredit
  have hdata' := h.out.finWrite
  have hcredit' := h.back.finRead
  rw [hs] at hdata' hcredit'
  refine StreamState.isDead_iff.mpr ⟨⟨hcredit.of_closed.1, hdata.of_closed.1⟩, ?_, ?_⟩
  · rw [hdata'.nil, houtSent]
  · rw [hcredit'.nil, hinSent]

end Link

end Rammux
