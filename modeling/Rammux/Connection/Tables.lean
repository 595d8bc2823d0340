import Rammux.Connection.Streams

/-!
# The tables of a connection

What the operations of `Streams` do to the tables, and the invariant of the tables. A stream that is
not dead has its ID to itself (`Tables.listed`), so the streams that once had an ID are dead when
another one gets it (`Tables.older`): this is what makes the reuse of IDs safe. The task of a stream
is in the selector until both of its `FIN_*`s are sent (`Tables.task`), and the IDs that this side
ever used are those of as many slots as it may have streams (`Tables.slots`, `Tables.slot`).

`Created` and `Touched` say what an operation does to the streams: it starts a new one, or it works
on one of them and forgets it when it is dead. The invariants of an endpoint follow from these two.
-/

namespace Rammux

namespace Streams

/-- The streams of this side are found in the slab. -/
theorem lookup_own {s : Streams} {id : StreamId} (h : id.initiatedBy = s.role) :
    s.lookup id = s.outbound.get id.slabIdx := if_pos h

/-- The streams of the peer are found in the map. -/
theorem lookup_peer {s : Streams} {id : StreamId} (h : id.initiatedBy ≠ s.role) :
    s.lookup id = s.inbound.lookup id := if_neg h

/-! ## Forgetting a stream -/

/-- The stream with this ID is forgotten, and nothing else changes. -/
structure Forgets (s : Streams) (id : StreamId) (s' : Streams) : Prop where
  eq : s' = { s with outbound := s'.outbound, inbound := s'.inbound }
  lookup_self : s'.lookup id = none
  lookup_ne : ∀ id', id' ≠ id → s'.lookup id' = s.lookup id'
  get : ∀ k r, s'.outbound.get k = some r → s.outbound.get k = some r
  slots : s'.outbound.slots = s.outbound.slots
  peers : ∀ id', id' ∈ s'.inbound → id' ∈ s.inbound

/-- Taking a stream out of the tables frees its ID, and nothing else. -/
theorem remove_eq_ok {s s' : Streams} {id : StreamId} (h : s.remove id = .ok s') :
    s.Forgets id s' := by
  unfold remove at h
  split at h
  · next hrole =>
    simp only [Lib.bind_eq_ok] at h
    obtain ⟨slab, hslab, h⟩ := h
    cases h
    obtain ⟨-, hself, hne, hslots⟩ := Lib.Slab.remove_eq_ok hslab
    refine ⟨rfl, (lookup_own (by exact hrole)).trans hself, fun id' hid => ?_, fun k r hk => ?_,
      hslots, fun _ hid => hid⟩
    · by_cases hrole' : id'.initiatedBy = s.role
      · rw [lookup_own (by exact hrole'), lookup_own hrole']
        exact hne _ fun hs => hid (StreamId.ext_of_slabIdx hs (hrole'.trans hrole.symm))
      · rw [lookup_peer (by exact hrole'), lookup_peer hrole']
    · by_cases hkey : k = id.slabIdx
      · rw [hkey, hself] at hk
        cases hk
      · rwa [hne k hkey] at hk
  · next hrole =>
    cases h
    refine ⟨rfl, (lookup_peer (by exact hrole)).trans (AList.lookup_erase _ _),
      fun id' hid => ?_, fun k r hk => hk, rfl, fun id' hid => (AList.mem_erase.mp hid).2⟩
    by_cases hrole' : id'.initiatedBy = s.role
    · rw [lookup_own (by exact hrole'), lookup_own hrole']
    · rw [lookup_peer (by exact hrole'), lookup_peer hrole']
      exact AList.lookup_erase_ne hid

/-- A stream is forgotten if it is dead, and otherwise nothing happens. -/
theorem removeIfDead_eq_ok {s s' : Streams} {id : StreamId} {fin : FinState}
    (h : s.removeIfDead id fin = .ok s') :
    (fin.isDead = true ∧ s.Forgets id s') ∨ (fin.isDead = false ∧ s' = s) := by
  unfold removeIfDead at h
  split at h
  · next hdead => exact .inl ⟨hdead, remove_eq_ok h⟩
  · next hdead =>
    cases h
    exact .inr ⟨by simpa using hdead, rfl⟩

/-- A stream that has its ID can be forgotten. -/
theorem removeIfDead_ok {s : Streams} {id : StreamId} {r : StreamRef} (fin : FinState)
    (h : s.lookup id = some r) : ∃ s', s.removeIfDead id fin = .ok s' := by
  unfold removeIfDead remove
  split
  · split
    · next hrole =>
      rw [lookup_own hrole] at h
      obtain ⟨slab, hslab⟩ := Lib.Slab.remove_of_get (e := Panic.invalidKey) h
      exact ⟨_, Lib.bind_eq_ok.mpr ⟨slab, hslab, rfl⟩⟩
    · exact ⟨_, rfl⟩
  · exact ⟨_, rfl⟩

/-- Forgetting touches nothing but the tables. -/
theorem removeIfDead_same {s s' : Streams} {id : StreamId} {fin : FinState}
    (h : s.removeIfDead id fin = .ok s') :
    s' = { s with outbound := s'.outbound, inbound := s'.inbound } := by
  rcases removeIfDead_eq_ok h with ⟨-, hf⟩ | ⟨-, rfl⟩
  · exact hf.eq
  · rfl

/-! ## What the operations do -/

/-- How a stream takes a frame: a violation leaves what the frame did so far, and an accepted frame
may be the last of the stream. -/
theorem deliver_eq_ok {s s' : Streams} {r : StreamRef} {header : StreamHeader} {data : Bytes}
    {newStream : Option StreamRef} {res : Except StreamViolation (Option StreamRef)}
    (h : s.deliver r header data newStream = .ok (res, s')) :
    ∃ c verdict, (s.ctx r).received header.credit data header.flags r = .ok (verdict, c) ∧
      ((∃ e, verdict = .error e ∧ res = .error ⟨header.id, e⟩ ∧ s' = s.put r c) ∨
        ∃ fin, verdict = .ok fin ∧ res = .ok newStream ∧
          (s.put r c).removeIfDead header.id fin = .ok s') := by
  simp only [deliver, Lib.bind_eq_ok] at h
  obtain ⟨⟨verdict, c⟩, hrec, h⟩ := h
  refine ⟨c, verdict, hrec, ?_⟩
  cases verdict with
  | error e =>
    cases h
    exact .inl ⟨e, rfl, rfl, rfl⟩
  | ok fin =>
    simp only [Lib.bind_eq_ok] at h
    obtain ⟨s₁, hrem, h⟩ := h
    cases h
    exact .inr ⟨fin, rfl, rfl, hrem⟩

/-- The state in which a new stream of the peer takes its first frame. -/
def accept (s : Streams) (id : StreamId) : Streams :=
  { s.create id false with inbound := s.inbound.insert id s.next }

/-- How a frame finds its stream: it is a violation that changes nothing, or it goes to the stream
that has its ID, or it starts one. -/
theorem receive_eq_ok {s s' : Streams} {header : StreamHeader} {data : Bytes}
    {res : Except StreamViolation (Option StreamRef)} (h : s.receive header data = .ok (res, s')) :
    (∃ e, res = .error ⟨header.id, e⟩ ∧ s' = s) ∨
      (∃ r, s.lookup header.id = some r ∧ header.flags.syn = false ∧
        s.deliver r header data none = .ok (res, s')) ∨
      (header.id.initiatedBy ≠ s.role ∧ s.lookup header.id = none ∧ header.flags.syn = true ∧
        s.inbound.entries.length < s.config.maxInboundStreams ∧
        (s.accept header.id).deliver s.next header data (some s.next) = .ok (res, s')) := by
  unfold receive at h
  dsimp only at h
  split at h
  · next hrole =>
    -- A stream of this side: with `SYN` or without an entry it is a violation.
    have hlookup := lookup_own hrole
    split at h
    · cases h
      exact .inl ⟨_, rfl, rfl⟩
    · next hsyn =>
      split at h
      · cases h
        exact .inl ⟨_, rfl, rfl⟩
      · next r hr => exact .inr (.inl ⟨r, by rw [hlookup, hr], by simpa using hsyn, h⟩)
  · next hrole =>
    -- A stream of the peer: `SYN` goes with a vacant ID, and only with one.
    have hlookup := lookup_peer hrole
    split at h
    · next r hr =>
      split at h
      · cases h
        exact .inl ⟨_, rfl, rfl⟩
      · next hsyn => exact .inr (.inl ⟨r, by rw [hlookup, hr], by simpa using hsyn, h⟩)
    · next hr =>
      split at h
      · next hsyn =>
        split at h
        · cases h
          exact .inl ⟨_, rfl, rfl⟩
        · next hlimit =>
          exact .inr (.inr ⟨hrole, by rw [hlookup, hr], hsyn, by omega, h⟩)
      · cases h
        exact .inl ⟨_, rfl, rfl⟩

/-- A frame without `SYN` goes to the stream with its ID. -/
theorem receive_of_lookup {s : Streams} {header : StreamHeader} {data : Bytes} {r : StreamRef}
    (h : s.lookup header.id = some r) (hsyn : header.flags.syn = false) :
    s.receive header data = s.deliver r header data none := by
  unfold receive
  dsimp only
  by_cases hrole : header.id.initiatedBy = s.role
  · rw [lookup_own hrole] at h
    rw [if_pos hrole, hsyn, if_neg Bool.false_ne_true, h]
  · rw [lookup_peer hrole] at h
    rw [if_neg hrole, h]
    dsimp only
    rw [hsyn, if_neg Bool.false_ne_true]

/-- A frame with `SYN` starts a stream, if its ID is vacant and the limit allows it. -/
theorem receive_of_vacant {s : Streams} {header : StreamHeader} {data : Bytes}
    (hrole : header.id.initiatedBy ≠ s.role) (h : s.lookup header.id = none)
    (hsyn : header.flags.syn = true)
    (hlimit : s.inbound.entries.length < s.config.maxInboundStreams) :
    s.receive header data = (s.accept header.id).deliver s.next header data (some s.next) := by
  rw [lookup_peer hrole] at h
  unfold receive
  dsimp only
  rw [if_neg hrole, h]
  dsimp only
  rw [hsyn, if_pos rfl, if_neg (Nat.not_le.mpr hlimit)]
  rfl

/-- A task yielded and stays in the selector. -/
def continued (s : Streams) (r : StreamRef) (task : StreamUpdates) (c : StreamCtx) : Streams :=
  { s.put r c with
    updates := Function.update s.updates r (some task)
    wakes := c.wakes.schedule r }

/-- A task yielded its last update, and leaves the selector and the turn queue. -/
def finished (s : Streams) (r : StreamRef) (c : StreamCtx) : Streams :=
  { s.put r c with
    updates := Function.update s.updates r none
    flow := (c.flow.passTurn r c.wakes).1
    wakes := (c.flow.passTurn r c.wakes).2 }

/-- What a poll of the selector comes to. -/
theorem pollUpdate_eq_ok {s s' : Streams} {r : StreamRef} {allowance : ℚ≥0}
    {res : Poll StreamUpdate} (h : s.pollUpdate r allowance = .ok (res, s')) :
    (s.updates r = none ∧ res = .pending ∧ s' = s) ∨
      ∃ task task' c poll, s.updates r = some task ∧
        (s.ctx r).pollProgress task r allowance = .ok (poll, task', c) ∧
        ((poll = .pending ∧ res = .pending ∧ s' = s.put r c) ∨
          (∃ u fin, poll = .ready (.continue u fin) ∧ res = .ready u ∧
            (s.continued r task' c).removeIfDead u.id fin = .ok s') ∨
          ∃ u fin, poll = .ready (.break u fin) ∧ res = .ready u ∧
            (s.finished r c).removeIfDead u.id fin = .ok s') := by
  unfold pollUpdate at h
  split at h
  · next hnone =>
    cases h
    exact .inl ⟨hnone, rfl, rfl⟩
  · next task htask =>
    simp only [Lib.bind_eq_ok] at h
    obtain ⟨⟨poll, task', c⟩, hpoll, h⟩ := h
    refine .inr ⟨task, task', c, poll, htask, hpoll, ?_⟩
    cases poll with
    | pending =>
      cases h
      exact .inl ⟨rfl, rfl, rfl⟩
    | ready progress =>
      cases progress with
      | «continue» u fin =>
        simp only [Lib.bind_eq_ok] at h
        obtain ⟨s₁, hrem, h⟩ := h
        cases h
        exact .inr (.inl ⟨u, fin, rfl, rfl, hrem⟩)
      | «break» u fin =>
        simp only [Lib.bind_eq_ok] at h
        obtain ⟨s₁, hrem, h⟩ := h
        cases h
        exact .inr (.inr ⟨u, fin, rfl, rfl, hrem⟩)

/-- The state that is put back for a stream is its state. -/
@[simp] theorem put_state_self (s : Streams) (r : StreamRef) (c : StreamCtx) :
    (s.put r c).state r = c.state := Function.update_self _ _ _

/-- The other streams keep their states. -/
theorem put_state_of_ne (s : Streams) {r r' : StreamRef} (c : StreamCtx) (h : r' ≠ r) :
    (s.put r c).state r' = s.state r' := Function.update_of_ne h _ _

/-- What is put back for a stream is what the next call finds. -/
@[simp] theorem put_ctx (s : Streams) (r : StreamRef) (c : StreamCtx) : (s.put r c).ctx r = c := by
  rw [ctx, put_state_self]; rfl

/-- Whatever a poll comes to, the streams are what the poll of the task leaves. -/
theorem pollUpdate_state {s s' : Streams} {r : StreamRef} {allowance : ℚ≥0}
    {res : Poll StreamUpdate} (h : s.pollUpdate r allowance = .ok (res, s')) :
    s' = s ∨ ∃ task task' c poll, s.updates r = some task ∧
      (s.ctx r).pollProgress task r allowance = .ok (poll, task', c) ∧
      s'.state = Function.update s.state r c.state := by
  rcases pollUpdate_eq_ok h with ⟨-, -, rfl⟩ | ⟨task, task', c, poll, htask, hpoll, hres⟩
  · exact .inl rfl
  refine .inr ⟨task, task', c, poll, htask, hpoll, ?_⟩
  rcases hres with ⟨-, -, rfl⟩ | ⟨u, fin, -, -, hrem⟩ | ⟨u, fin, -, -, hrem⟩
  · rfl
  · rw [removeIfDead_same hrem]
    rfl
  · rw [removeIfDead_same hrem]
    rfl

/-- A poll starts no stream. -/
theorem pollUpdate_next {s s' : Streams} {r : StreamRef} {allowance : ℚ≥0}
    {res : Poll StreamUpdate} (h : s.pollUpdate r allowance = .ok (res, s')) :
    s'.next = s.next := by
  rcases pollUpdate_eq_ok h with ⟨-, -, rfl⟩ | ⟨task, task', c, poll, -, -, hres⟩
  · rfl
  · rcases hres with ⟨-, -, rfl⟩ | ⟨u, fin, -, -, hrem⟩ | ⟨u, fin, -, -, hrem⟩
    · rfl
    · rw [removeIfDead_same hrem]
      rfl
    · rw [removeIfDead_same hrem]
      rfl

/-- The task of a stream yielded an update. -/
structure Sent (s : Streams) (r : StreamRef) (u : StreamUpdate) (s' : Streams) : Prop where
  task : ∃ task, s.updates r = some task ∧ u.id = task.id ∧ u.flags.syn = task.syn
  loaded : 0 < (s.state r).inbound.creditThreshold → u.credit ≠ 0 ∨ u.data ≠ [] ∨
    u.flags.finRead = true ∨ u.flags.finWrite = true
  others : ∀ r', r' ≠ r → s'.state r' = s.state r' ∧ s'.updates r' = s.updates r'
  /-- `SYN` is sent once. -/
  started : ∀ task, s'.updates r = some task → task.syn = false
  inbound : (s.state r).inbound.Emits u.credit.toNat u.flags.finRead (s'.state r).inbound
  outbound : (s.state r).outbound.Emits u.data u.flags.finWrite (s'.state r).outbound

/-- What a poll sends, and what it does to the stream. -/
theorem pollUpdate_sends {s s' : Streams} {r : StreamRef} {allowance : ℚ≥0}
    {res : Poll StreamUpdate} (h : s.pollUpdate r allowance = .ok (res, s')) :
    (res = .pending ∧ s' = { s with flow := s'.flow, wakes := s'.wakes }) ∨
      ∃ u, res = .ready u ∧ s.Sent r u s' := by
  rcases pollUpdate_eq_ok h with ⟨-, rfl, rfl⟩ | ⟨task, task', c, poll, htask, hpoll, hres⟩
  · exact .inl ⟨rfl, rfl⟩
  -- What the two ways to yield share.
  have hsent : ∀ (s₁ : Streams) (progress : Progress) (u : StreamUpdate) (fin : FinState)
      (next : Option StreamUpdates),
      (s.ctx r).pollProgress task r allowance = .ok (.ready progress, task', c) →
      progress = .continue u fin ∨ progress = .break u fin →
      s₁.state = Function.update s.state r c.state →
      s₁.updates = Function.update s.updates r next → (∀ t, next = some t → t = task') →
      s.Sent r u s₁ := by
    intro s₁ progress u fin next hpoll hprogress hstate hupdates hnext
    obtain ⟨htask', u', hu, hid, hsyn, hsome, hin, hout⟩ := StreamCtx.pollProgress_ready hpoll
    obtain rfl : u' = u := by
      rcases hprogress with rfl | rfl <;>
      · split at hu <;> cases hu
        rfl
    refine ⟨⟨task, htask, hid, hsyn⟩, hsome, fun r' hr' => ?_, fun t ht => ?_, ?_, ?_⟩
    · rw [hstate, hupdates, Function.update_of_ne hr', Function.update_of_ne hr']
      exact ⟨rfl, rfl⟩
    · rw [hupdates, Function.update_self] at ht
      rw [hnext t ht, htask']
    · rwa [hstate, Function.update_self]
    · rwa [hstate, Function.update_self]
  rcases hres with ⟨rfl, rfl, rfl⟩ | ⟨u, fin, rfl, rfl, hrem⟩ | ⟨u, fin, rfl, rfl, hrem⟩
  · refine .inl ⟨rfl, ?_⟩
    have hstate : (s.put r c).state = s.state := by
      rw [put, (StreamCtx.pollProgress_pending_eq hpoll).1]
      exact Function.update_eq_self _ _
    calc s.put r c = { s with state := (s.put r c).state, flow := c.flow, wakes := c.wakes } := rfl
      _ = { s with flow := c.flow, wakes := c.wakes } := by rw [hstate]
  · refine .inr ⟨u, rfl, hsent s' _ u fin (some task') hpoll (.inl rfl) ?_ ?_ ?_⟩
    · rw [removeIfDead_same hrem]
      rfl
    · rw [removeIfDead_same hrem]
      rfl
    · exact fun t ht => (Option.some.inj ht).symm
  · refine .inr ⟨u, rfl, hsent s' _ u fin none hpoll (.inr rfl) ?_ ?_ nofun⟩
    · rw [removeIfDead_same hrem]
      rfl
    · rw [removeIfDead_same hrem]
      rfl

/-! ## The two kinds of changes -/

/-- A stream with this ID was started. -/
structure Created (s : Streams) (id : StreamId) (s' : Streams) : Prop where
  eq : ∃ isOutbound, s' = { s.create id isOutbound with
    outbound := s'.outbound, inbound := s'.inbound }
  vacant : s.lookup id = none
  lookup_self : s'.lookup id = some s.next
  lookup_ne : ∀ id', id' ≠ id → s'.lookup id' = s.lookup id'
  get : ∀ k r, s'.outbound.get k = some r →
    s.outbound.get k = some r ∨ (StreamId.fromSlabIdx k s.role = some id ∧ r = s.next)
  slots_le : s.outbound.slots ≤ s'.outbound.slots
  limit : s.outbound.slots ≤ s.config.maxOutboundStreams →
    s'.outbound.slots ≤ s.config.maxOutboundStreams
  slot : id.initiatedBy = s.role → id.slabIdx < s'.outbound.slots
  peers : ∀ id' ∈ s'.inbound, id' ∈ s.inbound ∨ (id' = id ∧ id.initiatedBy ≠ s.role)

/-- Accepting the ID of a peer's stream creates the stream. -/
theorem accept_created {s : Streams} {id : StreamId} (hrole : id.initiatedBy ≠ s.role)
    (hvacant : s.lookup id = none) : s.Created id (s.accept id) := by
  refine ⟨⟨false, rfl⟩, hvacant, ?_, fun id' hid => ?_, fun k r hk => .inl hk, le_rfl, fun h => h,
    fun h => absurd h hrole, fun id' hid => ?_⟩
  · rw [lookup_peer (s := s.accept id) hrole]
    exact AList.lookup_insert _
  · by_cases hrole' : id'.initiatedBy = s.role
    · rw [lookup_own (s := s.accept id) hrole', lookup_own hrole']
      rfl
    · rw [lookup_peer (s := s.accept id) hrole', lookup_peer hrole']
      exact AList.lookup_insert_ne hid
  · exact (AList.mem_insert _ |>.mp hid).symm.imp_right fun heq => ⟨heq, hrole⟩

/-- What opening a stream does. -/
theorem openOutbound_cases {s : Streams} {key : ℕ} (hkey : s.outbound.Vacant key) :
    s.openOutbound key = (none, s) ∨
      ∃ id s', s.openOutbound key = (some s.next, s') ∧
        StreamId.fromSlabIdx key s.role = some id ∧
        s' = { s.create id true with outbound := s'.outbound } ∧ s.Created id s' := by
  unfold openOutbound
  split
  · exact .inl rfl
  · next hlimit =>
    split
    · exact .inl rfl
    · next id hid =>
      right
      obtain ⟨hidx, hrole⟩ := StreamId.fromSlabIdx_eq_some hid
      have hslots := Lib.Slab.slots_insert hkey s.next
      refine ⟨id, _, rfl, hid, rfl, ⟨true, rfl⟩, ?_, ?_, fun id' hne => ?_, fun k r hk => ?_, ?_,
        fun hle => ?_, fun _ => ?_, fun _ hid' => .inl hid'⟩
      · rw [lookup_own hrole, hidx]
        exact hkey.get_eq_none
      · rw [lookup_own (by exact hrole), hidx]
        exact Lib.Slab.get_insert_self hkey _
      · -- Any other ID leads to another slot, or to the other table.
        by_cases hrole' : id'.initiatedBy = s.role
        · rw [lookup_own (by exact hrole'), lookup_own hrole']
          refine Lib.Slab.get_insert_of_ne hkey _ fun hs => hne ?_
          exact StreamId.ext_of_slabIdx (hs.trans hidx.symm) (hrole'.trans hrole.symm)
        · rw [lookup_peer (by exact hrole'), lookup_peer hrole']
          rfl
      · by_cases hk' : k = key
        · subst hk'
          dsimp only at hk
          rw [Lib.Slab.get_insert_self hkey] at hk
          exact .inr ⟨hid, (Option.some.inj hk).symm⟩
        · dsimp only at hk
          rw [Lib.Slab.get_insert_of_ne hkey _ hk'] at hk
          exact .inl hk
      · dsimp only
        omega
      · exact Lib.Slab.slots_insert_le hkey _ hle (by omega)
      · dsimp only
        omega

/-- The task of a stream after something was done with the stream: it is what it was and no `FIN_*`
was sent, or it yielded, and it is done if both `FIN_*`s are sent. -/
def TaskStep (s : Streams) (r : StreamRef) (s' : Streams) : Prop :=
  (s'.updates r = s.updates r ∧ (s'.state r).finState.sent = (s.state r).finState.sent) ∨
    ∃ task, s.updates r = some task ∧ s'.updates r =
      if (s'.state r).finState.sent then none else some { task with syn := false }

/-- Something was done with a stream, and it was forgotten if it is dead; unless `failed`, which is
when the connection is. -/
structure Touched (s : Streams) (r : StreamRef) (failed : Prop) (s' : Streams) : Prop where
  role : s'.role = s.role
  config : s'.config = s.config
  next : s'.next = s.next
  ids : s'.ids = s.ids
  others : ∀ r', r' ≠ r → s'.state r' = s.state r'
  moves : (s.ctx r).Moves (s'.ctx r)
  txWithin : s.flow.txPool.used ≤ s.flow.txPool.size → s'.flow.txPool.used ≤ s'.flow.txPool.size
  finLe : (s.state r).FinLe (s'.state r)
  wfOut : ∀ limit b, (s.state r).outbound.WF limit b → (s'.state r).outbound.WF limit b
  wfIn : ∀ b, (s.state r).inbound.WF b → s.flow.rxPool.used ≤ s.flow.rxPool.size →
    ((s'.state r).inbound.WF b ∧ s'.flow.rxPool.used ≤ s'.flow.rxPool.size) ∨
      (failed ∧ (s'.state r).inbound.buffered = (s.state r).inbound.buffered)
  tasks : ∀ r', r' ≠ r → s'.updates r' = s.updates r'
  task : s.TaskStep r s'
  lookup : ∀ id, s'.lookup id = s.lookup id ∨
    (id = s.ids r ∧ s.lookup id = some r ∧ s'.Dead r ∧ s'.lookup id = none)
  gone : ¬ failed → s'.Dead r → ¬ s.Dead r → s'.lookup (s.ids r) = none
  get : ∀ k r', s'.outbound.get k = some r' → s.outbound.get k = some r'
  slots : s'.outbound.slots = s.outbound.slots
  peers : ∀ id, id ∈ s'.inbound → id ∈ s.inbound

/-- Forgetting a dead stream after something was done with it. -/
theorem Touched.removeIfDead {s s₁ s' : Streams} {r : StreamRef} {failed : Prop} {id : StreamId}
    (h : s.Touched r True s₁) (hlookup : s₁.lookup = s.lookup) (hid : id = s.ids r)
    (hr : s.lookup id = some r) (hwf : ∀ b, (s.state r).inbound.WF b →
      s.flow.rxPool.used ≤ s.flow.rxPool.size →
      (s₁.state r).inbound.WF b ∧ s₁.flow.rxPool.used ≤ s₁.flow.rxPool.size)
    (hrem : s₁.removeIfDead id (s₁.state r).finState = .ok s') : s.Touched r failed s' := by
  rcases removeIfDead_eq_ok hrem with ⟨hdead, hf⟩ | ⟨hdead, rfl⟩
  · obtain ⟨heq, hself, hne, hget, hslots, hpeers⟩ := hf
    rw [heq] at hself hne ⊢
    refine ⟨h.role, h.config, h.next, h.ids, h.others, h.moves, h.txWithin, h.finLe, h.wfOut,
      fun b hw hp => .inl (hwf b hw hp), h.tasks, h.task, fun id' => ?_, fun _ _ _ => ?_,
      fun k r' hk => h.get k r' (hget k r' hk), hslots.trans h.slots,
      fun id' hid' => h.peers id' (hpeers id' hid')⟩
    · by_cases hid' : id' = id
      · subst hid'
        exact .inr ⟨hid, hr, hdead, hself⟩
      · exact .inl ((hne id' hid').trans (congrFun hlookup id'))
    · rw [← hid]
      exact hself
  · refine ⟨h.role, h.config, h.next, h.ids, h.others, h.moves, h.txWithin, h.finLe, h.wfOut,
      fun b hw hp => .inl (hwf b hw hp), h.tasks, h.task, h.lookup, fun _ hd _ => ?_, h.get,
      h.slots, h.peers⟩
    rw [Dead, hdead] at hd
    cases hd

/-- What was done is also done if the connection may fail in more cases. -/
theorem Touched.mono {s s' : Streams} {r : StreamRef} {failed failed' : Prop}
    (h : s.Touched r failed s') (hf : failed → failed') : s.Touched r failed' s' :=
  ⟨h.role, h.config, h.next, h.ids, h.others, h.moves, h.txWithin, h.finLe, h.wfOut,
    fun b hw hp => (h.wfIn b hw hp).imp_right fun hb => ⟨hf hb.1, hb.2⟩, h.tasks, h.task, h.lookup,
    fun hnot => h.gone (mt hf hnot), h.get, h.slots, h.peers⟩

/-- A frame touches the stream that it is for. -/
theorem deliver_touched {s s' : Streams} {r : StreamRef} {header : StreamHeader} {data : Bytes}
    {newStream : Option StreamRef} {res : Except StreamViolation (Option StreamRef)}
    (h : s.deliver r header data newStream = .ok (res, s')) (hr : s.lookup header.id = some r)
    (hid : header.id = s.ids r) : s.Touched r (∃ v, res = .error v) s' := by
  obtain ⟨c, verdict, hrec, hres⟩ := deliver_eq_ok h
  obtain ⟨hmoves, -⟩ := StreamCtx.received_keeps hrec
  have hput : s.Touched r True (s.put r c) := by
    refine ⟨rfl, rfl, rfl, rfl, fun r' hr' => Function.update_of_ne hr' _ _, by rwa [put_ctx],
      fun hw => ?_, ?_, fun limit b hw => ?_, fun b hw hp => ?_, fun _ _ => rfl, .inl ⟨rfl, ?_⟩,
      fun _ => .inl rfl, fun h => absurd trivial h, fun _ _ hk => hk, rfl, fun _ hid => hid⟩
    · exact (StreamCtx.received_txWithin hrec).trans (hw.trans hmoves.tx.size.ge)
    · rw [put_state_self]
      exact StreamCtx.received_finLe hrec
    · rw [put_state_self]
      exact StreamCtx.received_outbound_wf hrec hw
    · rw [put_state_self]
      exact (StreamCtx.received_inbound hrec hw hp).imp_right fun h => ⟨trivial, h.2⟩
    · obtain ⟨hi, ho⟩ := StreamCtx.received_finSent hrec
      rw [put_state_self, Bool.eq_iff_iff, StreamState.sent_iff, StreamState.sent_iff, hi, ho]
      rfl
  rcases hres with ⟨e, -, rfl, rfl⟩ | ⟨fin, rfl, rfl, hrem⟩
  · exact hput.mono fun _ => ⟨_, rfl⟩
  · obtain ⟨-, -, rfl⟩ := StreamCtx.received_eq_ok hrec
    refine hput.removeIfDead rfl hid hr (fun b hw hp => ?_) (by rwa [put_state_self])
    rw [put_state_self]
    rcases StreamCtx.received_inbound hrec hw hp with h | ⟨⟨e, he⟩, -⟩
    · exact h
    · cases he

/-- The application touches the stream that it uses. -/
theorem app_touched {s : Streams} {r : StreamRef} {op : AppOp} {res : AppResult} {c : StreamCtx}
    (h : (s.ctx r).app op r = .ok (res, c)) : s.Touched r False (s.put r c) := by
  have hu := StreamCtx.app_used h
  obtain ⟨hflow, -⟩ := StreamCtx.app_split h
  have hf : (s.put r c).flow = s.flow := hflow
  refine ⟨rfl, rfl, rfl, rfl, fun r' hr' => Function.update_of_ne hr' _ _, ?_,
    fun hw => hf ▸ hw, ?_,
    fun limit b hw => ?_, fun b hw hp => .inl ⟨?_, hf ▸ hp⟩, fun _ _ => rfl, .inl ⟨rfl, ?_⟩,
    fun _ => .inl rfl, fun _ hd hnd => ?_, fun _ _ hk => hk, rfl, fun _ hid => hid⟩
  · rw [put_ctx]
    refine ⟨?_, ?_⟩
    · rw [hu.window, hflow]
      exact .refl _ _
    · rw [hu.ledger, hflow]
      exact .refl _ _
  · rw [put_state_self]
    exact StreamCtx.app_finLe h
  · rw [put_state_self]
    exact (StreamCtx.app_wf h).2 _ _ hw
  · rw [put_state_self]
    exact (StreamCtx.app_wf h).1 _ hw
  · rw [put_state_self, Bool.eq_iff_iff, StreamState.sent_iff, StreamState.sent_iff, hu.inFinSent,
      hu.outFinSent]
    rfl
  · -- The application exchanges no `FIN_*`.
    refine absurd ?_ hnd
    rw [Dead, put_state_self, StreamState.isDead_iff, hu.inFinSent, hu.outFinSent, hu.ended,
      hu.finReceived] at hd
    exact StreamState.isDead_iff.mpr hd

/-! ## The invariant of the tables -/

/-- The invariant of the tables. -/
structure Tables (s : Streams) : Prop where
  get : ∀ k r, s.outbound.get k = some r → StreamId.fromSlabIdx k s.role = some (s.ids r)
  lookup : ∀ id r, s.lookup id = some r → r < s.next ∧ s.ids r = id
  /-- A stream that is not dead has its ID. -/
  listed : ∀ r, r < s.next → ¬ s.Dead r → s.lookup (s.ids r) = some r
  /-- A stream whose ID was given to a later one is dead. -/
  older : ∀ r r', r < r' → r' < s.next → s.ids r' = s.ids r → s.Dead r
  /-- The task is in the selector until both `FIN_*`s are sent. -/
  task : ∀ r, r < s.next → (s.updates r = none ↔ (s.state r).finState.sent = true)
  taskId : ∀ r task, s.updates r = some task → r < s.next ∧ task.id = s.ids r
  slots : s.outbound.slots ≤ s.config.maxOutboundStreams
  slot : ∀ r, r < s.next → (s.ids r).initiatedBy = s.role → (s.ids r).slabIdx < s.outbound.slots
  peers : ∀ id ∈ s.inbound, id.initiatedBy ≠ s.role

/-- The tables of a new connection are empty, and there are no streams. -/
theorem tables_new (role : RammuxRole) (config : RammuxConfig) : (new role config).Tables := by
  have hnot : ∀ r, ¬ r < (new role config).next := fun r h => absurd h (Nat.not_lt_zero r)
  refine ⟨fun k r h => ?_, fun id r h => ?_, fun r h => absurd h (hnot r),
    fun r r' _ h => absurd h (hnot r'), fun r h => absurd h (hnot r), fun r t h => ?_,
    Nat.zero_le _, fun r h => absurd h (hnot r), fun id h => absurd h (AList.notMem_empty id)⟩
  rotate_left 2
  · cases h
  · rw [new, Lib.Slab.get_empty] at h
    cases h
  · by_cases hrole : id.initiatedBy = role
    · rw [lookup_own (by exact hrole), new, Lib.Slab.get_empty] at h
      cases h
    · rw [lookup_peer (by exact hrole), new, AList.lookup_empty] at h
      cases h

/-- A stream with a task is not dead, so it has its ID. -/
theorem Tables.lookup_of_task {s : Streams} (ht : s.Tables) {r : StreamRef} {task : StreamUpdates}
    (h : s.updates r = some task) : s.lookup (s.ids r) = some r := by
  obtain ⟨hr, -⟩ := ht.taskId r task h
  refine ht.listed r hr fun hd => ?_
  obtain ⟨hsent, -⟩ := StreamState.isDead_iff.mp hd
  rw [(ht.task r hr).mpr (StreamState.sent_iff.mpr hsent)] at h
  cases h

/-- A poll touches the stream of the task. -/
theorem pollUpdate_touched {s s' : Streams} {r : StreamRef} {allowance : ℚ≥0}
    {res : Poll StreamUpdate} (h : s.pollUpdate r allowance = .ok (res, s')) (ht : s.Tables)
    (hr : r < s.next) : s.Touched r False s' := by
  rcases pollUpdate_eq_ok h with ⟨-, -, rfl⟩ | ⟨task, task', c, poll, htask, hpoll, hres⟩
  · exact ⟨rfl, rfl, rfl, rfl, fun _ _ => rfl, .refl _, id, .refl _, fun _ _ => id,
      fun _ hw hp => .inl ⟨hw, hp⟩, fun _ _ => rfl, .inl ⟨rfl, rfl⟩, fun _ => .inl rfl,
      fun _ hd hnd => absurd hd hnd, fun _ _ hk => hk, rfl, fun _ hid => hid⟩
  have hp := StreamCtx.pollProgress_polled hpoll
  have hfin := StreamCtx.pollProgress_finLe hpoll
  have hwf : ∀ b, (s.state r).inbound.WF b → s.flow.rxPool.used ≤ s.flow.rxPool.size →
      c.state.inbound.WF b ∧ c.flow.rxPool.used ≤ c.flow.rxPool.size := fun b hw hpool =>
    ⟨(StreamCtx.pollProgress_wf hpoll).1 _ hw,
      hp.rxWithin.trans (hpool.trans hp.moves.rx.size.ge)⟩
  -- What the three outcomes share, whatever they do with the task, the turns and the wakers.
  have hput : ∀ (failed : Prop) (s₁ : Streams),
      s₁ = { s with state := s₁.state, flow := s₁.flow, wakes := s₁.wakes, updates := s₁.updates } →
      s₁.state = Function.update s.state r c.state →
      s₁.flow = { c.flow with turns := s₁.flow.turns } →
      (∀ r', r' ≠ r → s₁.updates r' = s.updates r') → s.TaskStep r s₁ →
      (¬ failed → s₁.Dead r → ¬ s.Dead r → s₁.lookup (s.ids r) = none) →
      s.Touched r failed s₁ := by
    intro failed s₁ heq hstate hflow hupdates hstep hgone
    have hself : s₁.state r = c.state := by rw [hstate, Function.update_self]
    have hrx : s₁.flow.rxPool = c.flow.rxPool := by rw [hflow]
    have htx : s₁.flow.txPool = c.flow.txPool := by rw [hflow]
    refine ⟨by rw [heq], by rw [heq], by rw [heq], by rw [heq], fun r' hr' => ?_, ⟨?_, ?_⟩, ?_, ?_,
      fun limit b hw => ?_, fun b hw hpool => .inl ?_, hupdates, hstep,
      fun id => .inl (by rw [heq]; rfl), hgone, fun _ _ hk => by rwa [heq] at hk, by rw [heq],
      fun _ hid => by rwa [heq] at hid⟩
    · rw [hstate, Function.update_of_ne hr']
    · simp only [ctx, hself, hrx]
      exact hp.moves.rx
    · simp only [ctx, hself, htx]
      exact hp.moves.tx
    · rw [htx]
      exact hp.txWithin
    · rw [hself]
      exact hfin
    · rw [hself]
      exact (StreamCtx.pollProgress_wf hpoll).2 _ _ hw
    · rw [hself, hrx]
      exact hwf b hw hpool
  have hid := (ht.taskId r task htask).2
  have hlookup := ht.lookup_of_task htask
  rcases hres with ⟨rfl, -, rfl⟩ | ⟨u, fin, rfl, -, hrem⟩ | ⟨u, fin, rfl, -, hrem⟩
  · obtain ⟨hstate, -⟩ := StreamCtx.pollProgress_pending_eq hpoll
    refine hput False (s.put r c) rfl rfl rfl (fun _ _ => rfl) (.inl ⟨rfl, ?_⟩) fun _ hd hnd => ?_
    · rw [put_state_self, hstate]
      rfl
    · rw [Dead, put_state_self, hstate] at hd
      exact absurd hd hnd
  · obtain ⟨htask', u', hu, huid, -⟩ := StreamCtx.pollProgress_ready hpoll
    split at hu
    · cases hu
    next hsent =>
    cases hu
    have hself : (s.continued r task' c).state r = c.state := put_state_self s r c
    have hstep : s.TaskStep r (s.continued r task' c) := by
      refine .inr ⟨task, htask, ?_⟩
      rw [hself, if_neg hsent, ← htask']
      exact Function.update_self _ _ _
    refine (hput True _ rfl rfl rfl (fun r' hr' => Function.update_of_ne hr' _ _) hstep
      fun h => absurd trivial h).removeIfDead rfl (huid.trans hid) ?_ ?_ (by rwa [hself])
    · rw [huid, hid]
      exact hlookup
    · rw [hself]
      exact hwf
  · obtain ⟨-, u', hu, huid, -⟩ := StreamCtx.pollProgress_ready hpoll
    split at hu
    · next hsent =>
      cases hu
      have hself : (s.finished r c).state r = c.state := put_state_self s r c
      have hstep : s.TaskStep r (s.finished r c) := by
        refine .inr ⟨task, htask, ?_⟩
        rw [hself, if_pos hsent]
        exact Function.update_self _ _ _
      have hflow : (s.finished r c).flow =
          { c.flow with turns := (s.finished r c).flow.turns } := by
        simp only [finished, ConnFlow.passTurn_fst]
      refine (hput True _ rfl rfl hflow (fun r' hr' => Function.update_of_ne hr' _ _) hstep
        fun h => absurd trivial h).removeIfDead rfl (huid.trans hid) ?_ ?_ (by rwa [hself])
      · rw [huid, hid]
        exact hlookup
      · rw [hself, hflow]
        exact hwf
    · cases hu

/-- A stream that is dead stays so, since its `FIN_*`s are for good. -/
theorem Dead.mono {s s' : Streams} {r : StreamRef} (h : (s.state r).FinLe (s'.state r))
    (hd : s.Dead r) : s'.Dead r := by
  obtain ⟨⟨hi, ho⟩, he, hf⟩ := StreamState.isDead_iff.mp hd
  exact StreamState.isDead_iff.mpr ⟨⟨h.inFinSent hi, h.outFinSent ho⟩, h.ended he, h.finReceived hf⟩

/-- The other streams are dead or not as they were. -/
theorem Touched.dead_iff {s s' : Streams} {r r' : StreamRef} {failed : Prop}
    (h : s.Touched r failed s') (hr : r' ≠ r) : s'.Dead r' ↔ s.Dead r' := by
  rw [Dead, Dead, h.others r' hr]

/-- What is done with one stream keeps the tables. -/
theorem Tables.touched {s s' : Streams} {r : StreamRef} {failed : Prop} (ht : s.Tables)
    (h : s.Touched r failed s') : s'.Tables := by
  -- Nothing that is dead comes to life.
  have hmono : ∀ r', s.Dead r' → s'.Dead r' := by
    intro r' hd
    by_cases hr : r' = r
    · subst hr
      exact hd.mono h.finLe
    · exact (h.dead_iff hr).mpr hd
  refine ⟨fun k r' hk => ?_, fun id r' hid => ?_, fun r' hr' hd => ?_,
    fun r₁ r₂ hlt hr₂ hids => ?_, fun r' hr' => ?_, fun r' task hup => ?_, ?_,
    fun r' hr' hrole => ?_,
    fun id hid => h.role ▸ ht.peers id (h.peers id hid)⟩
  · -- The slots and the table of IDs lose entries at most.
    rw [h.role, h.ids]
    exact ht.get k r' (h.get k r' hk)
  · rw [h.next, h.ids]
    rcases h.lookup id with hl | ⟨-, -, -, hl⟩
    · exact ht.lookup id r' (hl ▸ hid)
    · rw [hl] at hid
      cases hid
  · rw [h.next] at hr'
    rw [h.ids]
    have hr := ht.listed r' hr' fun hd' => hd (hmono r' hd')
    rcases h.lookup (s.ids r') with hl | ⟨-, hl, hdead, -⟩
    · rw [hl, hr]
    · -- The forgotten stream is dead, so it is not this one; but the ID was this one's.
      rw [hr] at hl
      cases hl
      exact absurd hdead hd
  · -- Of two streams with one ID the older one is still dead.
    rw [h.next] at hr₂
    rw [h.ids] at hids
    exact hmono r₁ (ht.older r₁ r₂ hlt hr₂ hids)
  · -- Whether there is a task: what is new is what the stream itself sent.
    rw [h.next] at hr'
    by_cases hr : r' = r
    · subst hr
      rcases h.task with ⟨hup, hsent⟩ | ⟨task, htask, hup⟩
      · rw [hup, hsent]
        exact ht.task r' hr'
      · rw [hup]
        split_ifs with hsent
        · exact ⟨fun _ => hsent, fun _ => rfl⟩
        · simp [hsent]
    · rw [h.tasks r' hr, h.others r' hr]
      exact ht.task r' hr'
  · rw [h.next, h.ids]
    by_cases hr : r' = r
    · subst hr
      rcases h.task with ⟨hup', -⟩ | ⟨task', htask, hup'⟩
      · exact ht.taskId r' task (hup' ▸ hup)
      · rw [hup'] at hup
        split_ifs at hup
        cases hup
        exact ht.taskId r' task' htask
    · exact ht.taskId r' task (h.tasks r' hr ▸ hup)
  · rw [h.slots, h.config]
    exact ht.slots
  · rw [h.next] at hr'
    rw [h.ids, h.role] at hrole
    rw [h.ids, h.slots]
    exact ht.slot r' hr' hrole

/-- What a new stream does not change. -/
theorem Created.old {s s' : Streams} {id : StreamId} (h : s.Created id s') {r : StreamRef}
    (hr : r < s.next) :
    s'.state r = s.state r ∧ s'.ids r = s.ids r ∧ s'.updates r = s.updates r := by
  obtain ⟨isOutbound, heq⟩ := h.eq
  have hne : r ≠ s.next := hr.ne
  rw [heq]
  exact ⟨Function.update_of_ne hne _ _, Function.update_of_ne hne _ _,
    Function.update_of_ne hne _ _⟩

/-- The new stream. -/
theorem Created.new {s s' : Streams} {id : StreamId} (h : s.Created id s') :
    s'.state s.next = StreamState.new s.config ∧ s'.ids s.next = id ∧
      ∃ syn, s'.updates s.next = some ⟨id, syn⟩ := by
  obtain ⟨isOutbound, heq⟩ := h.eq
  rw [heq]
  exact ⟨Function.update_self _ _ _, Function.update_self _ _ _, isOutbound,
    Function.update_self _ _ _⟩

/-- A stream that starts changes neither the role, the configuration nor the flow, and is one
more. -/
theorem Created.same {s s' : Streams} {id : StreamId} (h : s.Created id s') :
    s'.role = s.role ∧ s'.config = s.config ∧ s'.next = s.next + 1 ∧ s'.flow = s.flow := by
  obtain ⟨isOutbound, heq⟩ := h.eq
  rw [heq]
  exact ⟨rfl, rfl, rfl, rfl⟩

/-- The streams after a start are those before and the new one. -/
theorem Created.lt_cases {s s' : Streams} {id : StreamId} (h : s.Created id s') {r : StreamRef}
    (hr : r < s'.next) : r < s.next ∨ r = s.next := by
  rw [h.same.2.2.1] at hr
  exact Nat.lt_succ_iff_lt_or_eq.mp hr

/-- A new stream has sent nothing. -/
theorem not_sent_new (config : RammuxConfig) : (StreamState.new config).finState.sent = false := rfl

/-- A stream that starts keeps the tables: its ID was vacant, so whoever had it before is dead. -/
theorem Tables.created {s s' : Streams} {id : StreamId} (ht : s.Tables) (h : s.Created id s') :
    s'.Tables := by
  obtain ⟨hrole, hconfig, hnext, -⟩ := h.same
  obtain ⟨hstate, hids, syn, hup⟩ := h.new
  have hdead : ∀ {r}, r < s.next → (s'.Dead r ↔ s.Dead r) := fun hr => by
    rw [Dead, Dead, (h.old hr).1]
  -- The ID is vacant, so the streams that had it are dead.
  have hvacant : ∀ {r}, r < s.next → s.ids r = id → s.Dead r := by
    intro r hr hid
    by_contra hd
    have hnone := h.vacant
    rw [← hid, ht.listed r hr hd] at hnone
    cases hnone
  refine ⟨fun k r hk => ?_, fun id' r hr => ?_, fun r hr hd => ?_, fun r₁ r₂ hlt hr₂ heq => ?_,
    fun r hr => ?_, fun r task htask => ?_, ?_, fun r hr hown => ?_, fun id' hid' => ?_⟩
  · rw [hrole]
    rcases h.get k r hk with hold | ⟨hkey, rfl⟩
    · have hid := ht.get k r hold
      obtain ⟨hidx, hown⟩ := StreamId.fromSlabIdx_eq_some hid
      have hr := (ht.lookup (s.ids r) r (by rw [lookup_own hown, hidx, hold])).1
      rw [(h.old hr).2.1, hid]
    · rw [hids, hkey]
  · rw [hnext]
    by_cases hid : id' = id
    · subst hid
      rw [h.lookup_self] at hr
      cases hr
      exact ⟨Nat.lt_succ_self _, hids⟩
    · rw [h.lookup_ne id' hid] at hr
      obtain ⟨hlt, heq⟩ := ht.lookup id' r hr
      exact ⟨hlt.trans (Nat.lt_succ_self _), by rw [(h.old hlt).2.1, heq]⟩
  · rcases h.lt_cases hr with hr | rfl
    · rw [(h.old hr).2.1]
      have hnd := fun hd' => hd ((hdead hr).mpr hd')
      rw [h.lookup_ne _ fun hid => hnd (hvacant hr hid)]
      exact ht.listed r hr hnd
    · rw [hids]
      exact h.lookup_self
  · rcases h.lt_cases hr₂ with hr₂ | rfl
    · rw [hdead (hlt.trans hr₂)]
      rw [(h.old hr₂).2.1, (h.old (hlt.trans hr₂)).2.1] at heq
      exact ht.older r₁ r₂ hlt hr₂ heq
    · rw [hdead hlt]
      rw [hids, (h.old hlt).2.1] at heq
      exact hvacant hlt heq.symm
  · rcases h.lt_cases hr with hr | rfl
    · rw [(h.old hr).2.2, (h.old hr).1]
      exact ht.task r hr
    · rw [hup, hstate, not_sent_new]
      simp
  · rw [hnext]
    by_cases hr : r = s.next
    · subst hr
      rw [hup] at htask
      cases htask
      exact ⟨Nat.lt_succ_self _, hids.symm⟩
    · have htask' : s.updates r = some task := by
        obtain ⟨isOutbound, heq⟩ := h.eq
        rw [heq] at htask
        simpa only [create, Function.update_of_ne hr] using htask
      obtain ⟨hlt, hid⟩ := ht.taskId r task htask'
      exact ⟨hlt.trans (Nat.lt_succ_self _), by rw [(h.old hlt).2.1, hid]⟩
  · rw [hconfig]
    exact h.limit ht.slots
  · rw [hrole] at hown
    rcases h.lt_cases hr with hr | rfl
    · rw [(h.old hr).2.1] at hown ⊢
      exact (ht.slot r hr hown).trans_le h.slots_le
    · rw [hids] at hown ⊢
      exact h.slot hown
  · rw [hrole]
    rcases h.peers id' hid' with hold | ⟨rfl, hpeer⟩
    · exact ht.peers id' hold
    · exact hpeer

/-! ## Every step -/

/-- Only a frame is answered with a verdict. -/
theorem step_received {s s' : Streams} {a : Action}
    {res : Except StreamViolation (Option StreamRef)}
    (h : s.step a = .ok (.received res, s')) :
    ∃ header data, a = .receive header data ∧ s.receive header data = .ok (res, s') := by
  cases a with
  | «open» key =>
    simp only [step] at h
    split at h <;> cases h
  | receive header data =>
    simp only [step, Lib.bind_eq_ok] at h
    obtain ⟨_, hrec, h⟩ := h
    cases h
    exact ⟨header, data, rfl, hrec⟩
  | poll r allowance =>
    simp only [step, Lib.bind_eq_ok] at h
    obtain ⟨_, -, h⟩ := h
    cases h
  | app r op =>
    simp only [step] at h
    split at h
    · simp only [Lib.bind_eq_ok] at h
      obtain ⟨_, -, h⟩ := h
      cases h
    · cases h
  | observe rtt => cases h

/-- What a step is: nothing that concerns the streams, or a new stream, or something done with a
stream, which may be a new one. -/
inductive Stepped (s : Streams) (o : Output) (s' : Streams) : Prop where
  | idle (h : s' = s)
  | observed (rtt : ℚ) (h : s' = { s with flow := { s.flow with srtt := s.flow.srtt.observe rtt } })
  | created (id : StreamId) (h : s.Created id s')
  | touched (r : StreamRef) (hr : r < s.next)
      (h : s.Touched r (∃ v, o = .received (.error v)) s')
  | accepted (id : StreamId) (s₁ : Streams) (h₁ : s.Created id s₁)
      (h : s₁.Touched s.next (∃ v, o = .received (.error v)) s')

/-- A step does nothing to the streams, touches one, or starts one. -/
theorem step_stepped {s s' : Streams} {a : Action} {o : Output} (ht : s.Tables)
    (h : s.step a = .ok (o, s')) : s.Stepped o s' := by
  cases a with
  | «open» key =>
    simp only [step] at h
    split at h
    · next hkey =>
      cases h
      rcases openOutbound_cases hkey with hopen | ⟨id, s', hopen, -, -, hcreated⟩
      · rw [hopen]
        exact .idle rfl
      · rw [hopen]
        exact .created id hcreated
    · cases h
      exact .idle rfl
  | receive header data =>
    simp only [step, Lib.bind_eq_ok] at h
    obtain ⟨⟨res, s₁⟩, hrec, h⟩ := h
    cases h
    have hfailed : (∃ v, res = .error v) → ∃ v, Output.received res = .received (.error v) := by
      rintro ⟨v, rfl⟩
      exact ⟨v, rfl⟩
    rcases receive_eq_ok hrec with ⟨e, -, rfl⟩ | ⟨r, hr, -, hdel⟩ | ⟨hrole, hvacant, -, -, hdel⟩
    · exact .idle rfl
    · -- The frame is for a stream of the table.
      obtain ⟨hlt, hid⟩ := ht.lookup _ _ hr
      exact .touched r hlt ((deliver_touched hdel hr hid.symm).mono hfailed)
    · -- The frame starts a stream, and is then delivered to it.
      have hcreated := accept_created hrole hvacant
      refine .accepted header.id _ hcreated ((deliver_touched hdel ?_ ?_).mono hfailed)
      · exact hcreated.lookup_self
      · exact hcreated.new.2.1.symm
  | poll r allowance =>
    simp only [step, Lib.bind_eq_ok] at h
    obtain ⟨⟨res, s₁⟩, hpoll, h⟩ := h
    cases h
    cases htask : s.updates r with
    | none =>
      -- Without a task there is nothing to poll.
      rcases pollUpdate_eq_ok hpoll with ⟨-, -, rfl⟩ | ⟨task, -, -, -, hsome, -⟩
      · exact .idle rfl
      · rw [htask] at hsome
        cases hsome
    | some task =>
      have hr := (ht.taskId r task htask).1
      exact .touched r hr ((pollUpdate_touched hpoll ht hr).mono False.elim)
  | app r op =>
    simp only [step] at h
    split at h
    · next hr =>
      simp only [Lib.bind_eq_ok] at h
      obtain ⟨⟨res, c⟩, happ, h⟩ := h
      cases h
      exact .touched r hr ((app_touched happ).mono False.elim)
    · cases h
      exact .idle rfl
  | observe rtt =>
    cases h
    exact .observed rtt rfl

/-- What holds at the start, and survives new streams, samples and whatever is done with a stream,
survives every step. -/
theorem Stepped.preserves {I : Streams → Prop} {s s' : Streams} {o : Output}
    (h : s.Stepped o s') (ht : s.Tables) (hI : I s)
    (hobserved : ∀ srtt, I { s with flow := { s.flow with srtt } })
    (hcreated : ∀ id s', s.Created id s' → I s')
    (htouched : ∀ s₁ r, s₁.Tables → I s₁ → r < s₁.next →
      s₁.Touched r (∃ v, o = .received (.error v)) s' → I s') : I s' := by
  cases h with
  | idle h => exact h ▸ hI
  | observed rtt h => exact h ▸ hobserved _
  | created id h => exact hcreated id s' h
  | touched r hr h => exact htouched s r ht hI hr h
  | accepted id s₁ h₁ h =>
    refine htouched s₁ s.next (ht.created h₁) (hcreated id s₁ h₁) ?_ h
    rw [h₁.same.2.2.1]
    exact Nat.lt_succ_self _

/-- Every step keeps the tables. -/
theorem step_tables {s s' : Streams} {a : Action} {o : Output} (ht : s.Tables)
    (h : s.step a = .ok (o, s')) : s'.Tables :=
  (step_stepped ht h).preserves ht ht
    (fun _ => ⟨ht.get, ht.lookup, ht.listed, ht.older, ht.task, ht.taskId, ht.slots, ht.slot,
      ht.peers⟩)
    (fun _ _ hc => ht.created hc) fun _ _ ht₁ _ _ htouched => ht₁.touched htouched

/-- An endpoint keeps its role and its configuration. -/
theorem same_of_run {role : RammuxRole} {config : RammuxConfig} {tr : List (Action × Output)}
    {s : Streams} (h : (machine role config).Run tr s) : s.role = role ∧ s.config = config := by
  refine (h.invariant (I := fun _ s => s.Tables ∧ s.role = role ∧ s.config = config)
    ⟨tables_new role config, rfl, rfl⟩ fun _ s _ _ s' _ ⟨ht, hsame⟩ hstep => ?_).2
  refine ⟨step_tables ht hstep, ?_⟩
  exact (step_stepped ht hstep).preserves (I := fun s => s.role = role ∧ s.config = config) ht hsame
    (fun _ => hsame) (fun _ _ hc => by rwa [hc.same.1, hc.same.2.1])
    fun _ _ _ hsame₁ _ htouched => by rwa [htouched.role, htouched.config]

/-- The tables are in order in every state that an endpoint reaches, whatever the peer does. -/
theorem tables_of_run {role : RammuxRole} {config : RammuxConfig} {tr : List (Action × Output)}
    {s : Streams} (h : (machine role config).Run tr s) : s.Tables :=
  h.invariant (I := fun _ s => s.Tables) (tables_new role config)
    fun _ _ _ _ _ _ ht hstep => step_tables ht hstep

end Streams

end Rammux
