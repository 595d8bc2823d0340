import Rammux.Connection.Wakeups
import Rammux.Net.Link

/-!
# Two endpoints and the frames between them

A client and a server, each with the streams of its side of the connection, and between them the
frames that one has sent and the other has not received, in order. `Net.step` is everything that can
happen: an application opens a stream or uses one, a selector polls a task and its update goes on
the wire, a round trip is sampled, or an endpoint receives the next frame. All of it is done by
`Streams.step`; the net only carries the frames.

`mate` records which object the peer created for the `SYN` of which object. It is not in the code:
it tells apart the streams that use the same ID one after the other.
-/

namespace Rammux

/-- Configurations with which two endpoints can talk to each other. -/
structure Compatible (config : RammuxRole → RammuxConfig) : Prop where
  validate : ∀ p, (config p).validate = .ok ()
  frameLimit : ∀ p, (config p).frameLimit = (config p.other).frameLimit
  streams : ∀ p, (config p).maxOutboundStreams ≤ (config p.other).maxInboundStreams
  window : ∀ p, (config p).remoteRecvWindow = (config p.other).localRecvWindow
  pool : ∀ p, (config p).remoteRecvPool = (config p.other).localRecvPool

/-- Two endpoints, and the frames in flight. -/
structure Net where
  ends : RammuxRole → Streams
  /-- The frames that an endpoint has sent and its peer has not received, oldest first. -/
  wire : RammuxRole → List Packet
  /-- The object that the peer has for the same stream. -/
  mate : RammuxRole → StreamRef → Option StreamRef

namespace Net

/-- A new connection. -/
def new (config : RammuxRole → RammuxConfig) : Net where
  ends p := Streams.new p (config p)
  wire _ := []
  mate _ _ := none

/-- What happens to the two endpoints. -/
inductive Action where
  /-- The application of an endpoint opens a stream. -/
  | open (p : RammuxRole) (key : ℕ)
  /-- The application of an endpoint uses a stream. -/
  | app (p : RammuxRole) (r : StreamRef) (op : AppOp)
  /-- The selector of an endpoint polls a task. -/
  | poll (p : RammuxRole) (r : StreamRef) (allowance : ℚ≥0)
  /-- An endpoint measures a round trip. -/
  | observe (p : RammuxRole) (rtt : ℚ)
  /-- The peer of an endpoint receives the endpoint's next frame. -/
  | deliver (p : RammuxRole)

/-- The endpoint that makes the step. -/
def Action.actor : Action → RammuxRole
  | .open p _ | .app p _ _ | .poll p _ _ | .observe p _ => p
  | .deliver p => p.other

/-- Puts back what was done with an endpoint. -/
def put (n : Net) (p : RammuxRole) (s : Streams) : Net :=
  { n with ends := Function.update n.ends p s }

/-- One of the endpoints makes a step. -/
def act (n : Net) (p : RammuxRole) (a : Streams.Action) : Except Panic (Streams.Output × Net) := do
  let (o, s) ← (n.ends p).step a
  return (o, n.put p s)

/-- Puts what a poll yielded on the wire. -/
def send (n : Net) (p : RammuxRole) (r : StreamRef) : Streams.Output → Net
  | .polled (.ready u) => { n with wire := Function.update n.wire p (n.wire p ++ [u.packet r]) }
  | _ => n

/-- Records the object that was created for a `SYN` of the stream `src` of `p`. -/
def pair (n : Net) (p : RammuxRole) (src : StreamRef) : Streams.Output → Net
  | .received (.ok (some r)) =>
    { n with
      mate := fun q =>
        if q = p then Function.update (n.mate q) src (some r)
        else Function.update (n.mate q) r (some src) }
  | _ => n

/-- One step of the two endpoints. -/
def step (n : Net) : Action → Except Panic (Streams.Output × Net)
  | .open p key => n.act p (.open key)
  | .app p r op => n.act p (.app r op)
  | .poll p r allowance => do
    let (o, n) ← n.act p (.poll r allowance)
    return (o, n.send p r o)
  | .observe p rtt => n.act p (.observe rtt)
  | .deliver p =>
    match n.wire p with
    | [] => .ok (.none, n)
    -- Frames arrive in the order in which they were sent.
    | pkt :: rest => do
      let (o, n) ← n.act p.other (.receive pkt.header pkt.data)
      return (o, { n with wire := Function.update n.wire p rest }.pair p pkt.src o)

/-- The two endpoints, from the start of the connection. -/
def machine (config : RammuxRole → RammuxConfig) : Lib.Machine Panic Net Action Streams.Output :=
  ⟨new config, step⟩

/-! ## The streams of the two endpoints -/

/-- The frames of a stream that are in flight. -/
def sentBy (n : Net) (p : RammuxRole) (r : StreamRef) : List Packet :=
  (n.wire p).filter fun pkt => pkt.src = r

/-- The other end of a stream. A stream that the peer does not know yet is new there. -/
def farState (n : Net) (p : RammuxRole) (r : StreamRef) : StreamState :=
  match n.mate p r with
  | some r' => (n.ends p.other).state r'
  | none => StreamState.new (n.ends p.other).config

/-- The frames in flight to a stream. -/
def comingTo (n : Net) (p : RammuxRole) (r : StreamRef) : List Packet :=
  match n.mate p r with
  | some r' => n.sentBy p.other r'
  | none => []

/-- A stream as a whole. -/
def link (n : Net) (p : RammuxRole) (r : StreamRef) : Link :=
  ⟨(n.ends p).state r, n.sentBy p r, n.farState p r, n.comingTo p r⟩

/-- Whether the `SYN` of a stream was sent, or is none of its business. -/
def started (n : Net) (p : RammuxRole) (r : StreamRef) : Bool :=
  ((n.ends p).updates r).elim true fun task => !task.syn

/-- The endpoint that is put back is the endpoint. -/
@[simp] theorem put_ends_self (n : Net) (p : RammuxRole) (s : Streams) :
    (n.put p s).ends p = s := Function.update_self _ _ _

/-- The other endpoint stays. -/
@[simp] theorem put_ends_other (n : Net) (p : RammuxRole) (s : Streams) :
    (n.put p s).ends p.other = n.ends p.other := Function.update_of_ne p.other_ne _ _

/-- Putting back what was there changes nothing. -/
@[simp] theorem put_self (n : Net) (p : RammuxRole) : n.put p (n.ends p) = n := by
  rw [put, Function.update_eq_self]

/-- Putting back an endpoint sends nothing. -/
@[simp] theorem put_sentBy (n : Net) (p q : RammuxRole) (s : Streams) (r : StreamRef) :
    (n.put p s).sentBy q r = n.sentBy q r := rfl

/-- What a step of one of the endpoints is. -/
theorem act_eq_ok {n n' : Net} {p : RammuxRole} {a : Streams.Action} {o : Streams.Output} :
    n.act p a = .ok (o, n') ↔ ∃ s, (n.ends p).step a = .ok (o, s) ∧ n' = n.put p s := by
  simp only [act, Lib.bind_eq_ok]
  constructor
  · rintro ⟨⟨o', s⟩, hs, h⟩
    cases h
    exact ⟨s, hs, rfl⟩
  · rintro ⟨s, hs, rfl⟩
    exact ⟨(o, s), hs, rfl⟩

/-- The frames of a stream are those in flight that it sent. -/
theorem mem_sentBy {n : Net} {p : RammuxRole} {r : StreamRef} {pkt : Packet} :
    pkt ∈ n.sentBy p r ↔ pkt ∈ n.wire p ∧ pkt.src = r := by
  simp [sentBy]

/-- The link of a stream that the peer knows. -/
theorem link_of_mate {n : Net} {p : RammuxRole} {r r' : StreamRef} (h : n.mate p r = some r') :
    n.link p r = ⟨(n.ends p).state r, n.sentBy p r, (n.ends p.other).state r',
      n.sentBy p.other r'⟩ := by
  simp [link, farState, comingTo, h]

/-- The link of a stream that the peer does not know yet. -/
theorem link_of_not_mate {n : Net} {p : RammuxRole} {r : StreamRef} (h : n.mate p r = none) :
    n.link p r = ⟨(n.ends p).state r, n.sentBy p r, StreamState.new (n.ends p.other).config,
      []⟩ := by
  simp [link, farState, comingTo, h]

/-- The two ends of a stream see the same stream. -/
theorem link_flip {n : Net} {p : RammuxRole} {r r' : StreamRef} (h : n.mate p r = some r')
    (h' : n.mate p.other r' = some r) : n.link p.other r' = (n.link p r).flip := by
  rw [link_of_mate h, link_of_mate h', RammuxRole.other_other]
  rfl

end Net

end Rammux
