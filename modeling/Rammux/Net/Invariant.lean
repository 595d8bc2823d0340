import Rammux.Net.Machine

/-!
# What holds of two endpoints and the frames between them

`Net.Inv` ties the two endpoints together. Each is in order by itself (`Streams.Sane`); every stream
that was started by the peer has a mate there, and the streams of mates are sound links; the frames
in flight are those of known streams; and the frames for one ID are ordered by the stream that sent
them, so that those of an ID's previous stream come first. `Net.Starts` says that the first frame of
a stream, and no other, has `SYN`.

The receive pool cannot be exceeded (`Inv.room`), because each end counts at most what the other
counts (`Direction.unacked_le`) and the sender stays within the pool.
-/

namespace Rammux

/-- The first frame of a stream, and no other, has `SYN`. -/
abbrev Starting : Bool → List Packet → Bool → Prop :=
  Lib.Leads (fun started pkt => pkt.header.flags.syn = !started) fun _ _ => true

/-- A frame in flight is one of a stream of its sender. -/
structure Packet.From (s : Streams) (pkt : Packet) : Prop where
  src : pkt.src < s.next
  id : pkt.header.id = s.ids pkt.src
  loaded : pkt.Loaded
  limit : pkt.data.length ≤ s.config.frameLimit

namespace Streams

/-- How many streams had the ID of a stream before. -/
def incarnation (s : Streams) (r : StreamRef) : ℕ :=
  ((Finset.range r).filter fun q => s.ids q = s.ids r).card

/-- The two ends of a stream, as the IDs alone tell: they have the same ID, and equally many streams
had it before on either side. -/
structure Counterparts (s s' : Streams) (r r' : StreamRef) : Prop where
  left : r < s.next
  right : r' < s'.next
  id : s'.ids r' = s.ids r
  incarnation : s'.incarnation r' = s.incarnation r

/-- Only the IDs matter, and which streams there are. -/
theorem Counterparts.congr {s s' t t' : Streams} {r r' : StreamRef} (h : s.Counterparts s' r r')
    (hids : t.ids = s.ids) (hnext : t.next = s.next) (hids' : t'.ids = s'.ids)
    (hnext' : t'.next = s'.next) : t.Counterparts t' r r' where
  left := hnext ▸ h.left
  right := hnext' ▸ h.right
  id := by rw [hids, hids', h.id]
  incarnation := by
    have heq := h.incarnation
    unfold Streams.incarnation at heq ⊢
    rw [hids, hids', heq]

/-- Each stream that has an ID counts for the next one that has it. -/
theorem incarnation_lt {s : Streams} {q r : StreamRef} (hlt : q < r) (hids : s.ids q = s.ids r) :
    s.incarnation q < s.incarnation r := by
  refine Finset.card_lt_card (Finset.ssubset_iff_of_subset ?_ |>.mpr ⟨q, ?_, ?_⟩)
  · intro x hx
    obtain ⟨hxq, hid⟩ := Finset.mem_filter.mp hx
    refine Finset.mem_filter.mpr ⟨Finset.mem_range.mpr ?_, hid.trans hids⟩
    exact (Finset.mem_range.mp hxq).trans hlt
  · exact Finset.mem_filter.mpr ⟨Finset.mem_range.mpr hlt, hids⟩
  · simp

/-- So a stream is determined by its ID, and by how many had it before. -/
theorem incarnation_inj {s : Streams} {q r : StreamRef} (hids : s.ids q = s.ids r)
    (heq : s.incarnation q = s.incarnation r) : q = r := by
  rcases Nat.lt_trichotomy q r with hlt | heq' | hlt
  · exact absurd heq (incarnation_lt hlt hids).ne
  · exact heq'
  · exact absurd heq (incarnation_lt hlt hids.symm).ne'

end Streams

namespace Net

/-- The invariant of two endpoints and the frames between them. -/
structure Inv (config : RammuxRole → RammuxConfig) (n : Net) : Prop where
  sane : ∀ p, (n.ends p).Sane p (config p)
  mate_symm : ∀ p r r', n.mate p r = some r' → n.mate p.other r' = some r
  mate_lt : ∀ p r r', n.mate p r = some r' → r < (n.ends p).next
  mate_id : ∀ p r r', n.mate p r = some r' → (n.ends p.other).ids r' = (n.ends p).ids r
  /-- The streams that have an ID one after another have their mates in the same order. -/
  mate_order : ∀ p r r' q q', n.mate p r = some r' → n.mate p q = some q' →
    (n.ends p).ids q = (n.ends p).ids r → q < r → q' < r'
  /-- A stream that the peer started has a mate. -/
  accepted : ∀ p r, r < (n.ends p).next → ((n.ends p).ids r).initiatedBy ≠ p → n.mate p r ≠ none
  packets : ∀ p, ∀ pkt ∈ n.wire p, pkt.From (n.ends p)
  /-- The frames of a stream are behind those of the streams that had its ID before. -/
  order : ∀ p, (n.wire p).Pairwise fun x y => x.header.id = y.header.id → x.src ≤ y.src
  link : ∀ p r, r < (n.ends p).next → (n.link p r).Sound

/-- Every stream starts with `SYN`. -/
def Starts (n : Net) : Prop :=
  ∀ p r, r < (n.ends p).next → Starting (n.mate p r).isSome (n.sentBy p r) (n.started p r)

variable {config : RammuxRole → RammuxConfig} {n : Net} {p : RammuxRole} {r r' : StreamRef}

/-- Two new endpoints are in order, with nothing in flight. -/
theorem inv_new (config : RammuxRole → RammuxConfig) : Inv config (new config) where
  sane p := Streams.sane_new p (config p)
  mate_symm _ _ _ h := nomatch h
  mate_lt _ _ _ h := nomatch h
  mate_id _ _ _ h := nomatch h
  mate_order _ _ _ _ _ h := nomatch h
  accepted _ r h := absurd h (Nat.not_lt_zero r)
  packets _ _ h := nomatch h
  order _ := List.Pairwise.nil
  link _ r h := absurd h (Nat.not_lt_zero r)

/-- There is no stream to start yet. -/
theorem starts_new (config : RammuxRole → RammuxConfig) : (new config).Starts :=
  fun _ r h => absurd h (Nat.not_lt_zero r)

/-- The mate of a stream is a stream of the peer. -/
theorem Inv.mate_lt' (hi : n.Inv config) (h : n.mate p r = some r') :
    r' < (n.ends p.other).next :=
  hi.mate_lt _ _ _ (hi.mate_symm p r r' h)

/-- Different streams have different mates. -/
theorem Inv.mate_inj (hi : n.Inv config) {r₁ : StreamRef} (h : n.mate p r = some r')
    (h₁ : n.mate p r₁ = some r') : r = r₁ :=
  Option.some.inj ((hi.mate_symm p r r' h).symm.trans (hi.mate_symm p r₁ r' h₁))

/-- Once `FIN_READ` was sent for a stream, the receiver counts nothing. -/
theorem Inv.far_sent (hi : n.Inv config) (h : (n.farState p r).inbound.finSent = true) :
    (n.farState p r).inbound.window.unacked = 0 := by
  unfold farState at h ⊢
  split at h
  · next r' hm => exact ((hi.sane p.other).held.wfIn r' (hi.mate_lt' hm)).sent h
  · rfl

/-! ## The receive pool -/

/-- The receiver of a stream counts at most what the sender counts. -/
theorem Inv.unacked_le (hi : n.Inv config) (hr : r < (n.ends p).next) :
    ((n.ends p).state r).inbound.window.unacked ≤ (n.farState p r).outbound.unacked :=
  (hi.link p r hr).back.unacked_le ((hi.sane p).held.wfIn r hr).sent

/-- What the peer borrows for its end of a stream, 0 if it does not know the stream yet. -/
def lent (n : Net) (p : RammuxRole) (r : StreamRef) : ℕ :=
  (n.mate p r).elim 0 fun r' => ((n.ends p.other).state r').outbound.ledger.window.borrowed

/-- What the peer borrows for its ends of the streams is in the count of its pool. -/
theorem Inv.sum_lent_le (hi : n.Inv config) :
    ∑ r ∈ Finset.range (n.ends p).next, n.lent p r ≤ (n.ends p.other).flow.txPool.used := by
  rw [(hi.sane p.other).accounts.txUsed]
  exact Lib.sum_range_matched_le (n.mate p) _ (fun _ _ h => hi.mate_lt' h)
    fun _ _ _ h h' => hi.mate_inj h h'

/-- The peer stays within the receive pool. -/
theorem Inv.txUsed_le (hi : n.Inv config) (hc : Compatible config) :
    (n.ends p.other).flow.txPool.used ≤ (config p).localRecvPool := by
  have hsane := hi.sane p.other
  calc (n.ends p.other).flow.txPool.used
      ≤ (n.ends p.other).flow.txPool.size := hsane.accounts.txWithin
    _ = (config p).localRecvPool := by
        rw [hsane.accounts.txSize, hsane.config, hc.pool, RammuxRole.other_other]

/-- A stream borrows at most as much of the receive pool as the peer does for it, also with all the
bytes that the peer counts. -/
theorem Inv.borrowedAt_le_lent (hi : n.Inv config) (hc : Compatible config) {unacked : ℕ}
    (hle : unacked ≤ (n.farState p r).outbound.unacked) :
    Window.borrowedAt unacked (config p).localRecvWindow ≤ n.lent p r := by
  unfold farState at hle
  unfold lent
  cases hm : n.mate p r with
  | none =>
    rw [hm] at hle
    have hzero : unacked = 0 := Nat.le_zero.mp hle
    rw [hzero]
    exact (Nat.zero_sub _).le
  | some r' =>
    rw [hm] at hle
    have hbase := (hi.sane p.other).accounts.out_borrowed (hi.mate_lt' hm)
    rw [(hi.sane p.other).config, hc.window, RammuxRole.other_other] at hbase
    exact (Nat.sub_le_sub_right hle _).trans hbase.ge

/-- The receive pool has room for the data that the sender of a stream counts. -/
theorem Inv.room (hi : n.Inv config) (hc : Compatible config) (hr : r < (n.ends p).next) {len : ℕ}
    (hle : ((n.ends p).state r).inbound.window.unacked + len ≤
      (n.farState p r).outbound.unacked) :
    (n.ends p).flow.rxPool.used +
        Window.borrowedAt (((n.ends p).state r).inbound.window.unacked + len)
          ((n.ends p).state r).inbound.window.base ≤
      (n.ends p).flow.rxPool.size + ((n.ends p).state r).inbound.window.borrowed := by
  have hsane := hi.sane p
  have hbase := fun r hr => (hsane.accounts.inBase r hr).trans (by rw [hsane.config])
  -- The streams with what they borrow, and this one with what it is about to borrow.
  let borrows := Function.update (fun r => ((n.ends p).state r).inbound.window.borrowed) r
    (Window.borrowedAt (((n.ends p).state r).inbound.window.unacked + len)
      ((n.ends p).state r).inbound.window.base)
  have hborrows : ∀ r' ∈ Finset.range (n.ends p).next, borrows r' ≤ n.lent p r' := by
    intro r' hr'
    have hr' := Finset.mem_range.mp hr'
    by_cases he : r' = r
    · subst he
      simp only [borrows, Function.update_self, hbase r' hr]
      exact hi.borrowedAt_le_lent hc hle
    · simp only [borrows, Function.update_of_ne he, Window.borrowed, hbase r' hr']
      exact hi.borrowedAt_le_lent hc (hi.unacked_le hr')
  have hsum : ∑ r' ∈ Finset.range (n.ends p).next, borrows r' +
        ((n.ends p).state r).inbound.window.borrowed =
      ∑ r' ∈ Finset.range (n.ends p).next, ((n.ends p).state r').inbound.window.borrowed +
        Window.borrowedAt (((n.ends p).state r).inbound.window.unacked + len)
          ((n.ends p).state r).inbound.window.base :=
    Lib.sum_range_update id _ _ hr
  have htotal : ∑ r' ∈ Finset.range (n.ends p).next, borrows r' ≤ (config p).localRecvPool :=
    (Finset.sum_le_sum hborrows).trans (hi.sum_lent_le.trans (hi.txUsed_le hc))
  have hused := hsane.accounts.rxUsed
  have hsize := hsane.accounts.rxSize
  rw [hsane.config] at hsize
  omega

/-- An endpoint counts at most as much of its receive pool as its peer does. -/
theorem Inv.rxUsed_le (hi : n.Inv config) (hc : Compatible config) :
    (n.ends p).flow.rxPool.used ≤ (n.ends p.other).flow.txPool.used := by
  have hsane := hi.sane p
  rw [hsane.accounts.rxUsed]
  refine (Finset.sum_le_sum fun r hr => ?_).trans hi.sum_lent_le
  have hr := Finset.mem_range.mp hr
  rw [Window.borrowed, hsane.accounts.inBase r hr, hsane.config]
  exact hi.borrowedAt_le_lent hc (hi.unacked_le hr)

/-! ## Routing -/

/-- The frames in flight to a stream, if the next one of the peer is for it. -/
theorem comingTo_of_wire {pkt : Packet} {rest : List Packet} (hw : n.wire p.other = pkt :: rest)
    (hm : n.mate p r = some pkt.src) :
    n.comingTo p r = pkt :: rest.filter fun x => x.src = pkt.src := by
  simp [comingTo, hm, sentBy, hw]

/-- The frames in flight to a stream have something for it. -/
theorem Inv.loaded (hi : n.Inv config) : ∀ pkt ∈ n.comingTo p r, pkt.Loaded := by
  intro pkt hpkt
  unfold comingTo at hpkt
  split at hpkt
  · exact (hi.packets p.other pkt (mem_sentBy.mp hpkt).1).loaded
  · nomatch hpkt

section Routing

variable {pkt : Packet} {rest : List Packet}

/-- The next frame is from a stream of the peer. -/
theorem Inv.packet_from (hi : n.Inv config) (hw : n.wire p.other = pkt :: rest) :
    pkt.From (n.ends p.other) :=
  hi.packets p.other pkt (by rw [hw]; exact List.mem_cons_self)

/-- The tables lead the next frame of the peer to the mate of the stream that sent it. -/
theorem Inv.lookup_mate (hi : n.Inv config) (hw : n.wire p.other = pkt :: rest)
    (hm : n.mate p r = some pkt.src) : (n.ends p).lookup pkt.header.id = some r := by
  have hr := hi.mate_lt p r _ hm
  -- The frame has something for the stream, so the stream is not dead.
  have halive : ¬ (n.ends p).Dead r := by
    intro hd
    have hnil := (hi.link p r hr).coming_eq_nil hd hi.loaded
    rw [Net.link, comingTo_of_wire hw hm] at hnil
    exact List.cons_ne_nil _ _ hnil
  have hid : pkt.header.id = (n.ends p).ids r := by
    rw [(hi.packet_from hw).id, hi.mate_id p r _ hm]
  rw [hid]
  exact (hi.sane p).tables.listed r hr halive

/-- A stream that the peer does not know was started by this side. -/
theorem Inv.initiatedBy (hi : n.Inv config) (hr : r < (n.ends p).next) (hm : n.mate p r = none) :
    ((n.ends p).ids r).initiatedBy = p := by
  by_contra hne
  exact hi.accepted p r hr hne hm

/-- A stream that the peer does not know has received nothing. -/
theorem Inv.not_dead (hi : n.Inv config) (hr : r < (n.ends p).next) (hm : n.mate p r = none) :
    ¬ (n.ends p).Dead r := by
  intro hd
  have hfin := (hi.link p r hr).back.finWrite
  rw [link_of_not_mate hm] at hfin
  obtain ⟨-, hended, -⟩ := StreamState.isDead_iff.mp hd
  have hopen : ((n.ends p).state r).inbound.ended = false := hfin.nil
  exact Bool.noConfusion (hended.symm.trans hopen)

/-- The ID of a stream that an endpoint does not know yet is vacant there: the stream that had it
before is dead at both ends, because its frames came first. -/
theorem Inv.lookup_eq_none (hi : n.Inv config) (hw : n.wire p.other = pkt :: rest)
    (hm : n.mate p.other pkt.src = none) : (n.ends p).lookup pkt.header.id = none := by
  obtain ⟨hsrc, hid, -, -⟩ := hi.packet_from hw
  have htables := (hi.sane p.other).tables
  by_contra hsome
  obtain ⟨r₂, hr₂⟩ := Option.ne_none_iff_exists'.mp hsome
  obtain ⟨hlt₂, hid₂⟩ := (hi.sane p).tables.lookup _ _ hr₂
  have hpeer : ((n.ends p).ids r₂).initiatedBy ≠ p := by
    rw [hid₂, hid, hi.initiatedBy hsrc hm]
    exact p.other_ne
  -- The stream that has the ID here, and its mate.
  obtain ⟨r₁, hr₁⟩ := Option.ne_none_iff_exists'.mp (hi.accepted p r₂ hlt₂ hpeer)
  have hmate := hi.mate_symm p r₂ r₁ hr₁
  have hid₁ : (n.ends p.other).ids r₁ = (n.ends p.other).ids pkt.src := by
    rw [hi.mate_id p r₂ r₁ hr₁, hid₂, hid]
  rcases Nat.lt_trichotomy r₁ pkt.src with hlt | heq | hgt
  · -- The mate is an earlier stream: it is dead, and its frames have arrived.
    have hdead := htables.older r₁ pkt.src hlt hsrc hid₁.symm
    have hnone : n.sentBy p.other r₁ = [] := by
      refine List.eq_nil_iff_forall_not_mem.mpr fun x hx => ?_
      obtain ⟨hx, hxsrc⟩ := mem_sentBy.mp hx
      have hxid : pkt.header.id = x.header.id := by
        rw [hid, (hi.packets p.other x hx).id, hxsrc, hid₁]
      have horder := hi.order p.other
      rw [hw] at hx horder
      rcases List.mem_cons.mp hx with rfl | hx
      · exact absurd hxsrc.symm (Nat.ne_of_lt hlt)
      · have hle := List.rel_of_pairwise_cons horder hx hxid
        rw [hxsrc] at hle
        exact absurd hlt (Nat.not_lt.mpr hle)
    have hfar := (hi.link p.other r₁ (hi.mate_lt' hr₁)).far_dead hdead hnone
    rw [link_of_mate hmate, RammuxRole.other_other] at hfar
    exact (hi.sane p).held.alive _ r₂ hr₂ hfar
  · rw [heq, hm] at hmate
    nomatch hmate
  · -- The mate is a later stream: then this one would be dead.
    exact hi.not_dead hsrc hm (htables.older pkt.src r₁ hgt (hi.mate_lt' hr₁) hid₁)

/-- The slots of the IDs of the peer's streams are among those that the peer ever used. -/
theorem Inv.slab_of_peers (hi : n.Inv config) {id : StreamId} (h : id ∈ (n.ends p).inbound) :
    id.initiatedBy = p.other ∧ id.slabIdx < (n.ends p.other).outbound.slots := by
  have hpeer := (hi.sane p).tables.peers id h
  obtain ⟨r₂, hr₂⟩ := Option.isSome_iff_exists.mp (AList.lookup_isSome.mpr h)
  rw [← Streams.lookup_peer hpeer] at hr₂
  obtain ⟨hlt₂, hid₂⟩ := (hi.sane p).tables.lookup id r₂ hr₂
  rw [(hi.sane p).role] at hpeer
  obtain ⟨r₁, hr₁⟩ := Option.ne_none_iff_exists'.mp (hi.accepted p r₂ hlt₂ (by rwa [hid₂]))
  have hid₁ := hi.mate_id p r₂ r₁ hr₁
  have hother := RammuxRole.eq_other_of_ne hpeer
  refine ⟨hother, ?_⟩
  have hslot := (hi.sane p.other).tables.slot r₁ (hi.mate_lt' hr₁)
    (by rw [hid₁, hid₂, (hi.sane p.other).role, hother])
  rwa [hid₁, hid₂] at hslot

/-- An endpoint has room for a stream that its peer starts: with its ID, the IDs of the peer's
streams are still IDs of as many slots as the peer may use. -/
theorem Inv.length_lt (hi : n.Inv config) (hc : Compatible config)
    (hw : n.wire p.other = pkt :: rest) (hm : n.mate p.other pkt.src = none) :
    (n.ends p).inbound.entries.length < (n.ends p).config.maxInboundStreams := by
  obtain ⟨hsrc, hid, -, -⟩ := hi.packet_from hw
  have hsane := hi.sane p.other
  have hown := hi.initiatedBy hsrc hm
  have hvacant := hi.lookup_eq_none hw hm
  have hpeer : pkt.header.id.initiatedBy ≠ (n.ends p).role := by
    rw [hid, hown, (hi.sane p).role]
    exact p.other_ne
  have hnot : pkt.header.id ∉ (n.ends p).inbound.keys := by
    rw [Streams.lookup_peer hpeer] at hvacant
    exact AList.lookup_eq_none.mp hvacant
  have hslot : pkt.header.id.slabIdx < (n.ends p.other).outbound.slots := by
    rw [hid]
    exact hsane.tables.slot _ hsrc (by rw [hown, hsane.role])
  -- The slots of all these IDs are different.
  have hnodup : (pkt.header.id :: (n.ends p).inbound.keys).Nodup :=
    List.nodup_cons.mpr ⟨hnot, (n.ends p).inbound.keys_nodup⟩
  have hall : ∀ id ∈ pkt.header.id :: (n.ends p).inbound.keys,
      id.initiatedBy = p.other ∧ id.slabIdx < (n.ends p.other).outbound.slots := by
    intro id hmem
    rcases List.mem_cons.mp hmem with rfl | hmem
    · exact ⟨by rw [hid, hown], hslot⟩
    · exact hi.slab_of_peers hmem
  have hslots : ((pkt.header.id :: (n.ends p).inbound.keys).map StreamId.slabIdx).Nodup :=
    hnodup.map_on fun i hi' j hj heq =>
      StreamId.ext_of_slabIdx heq ((hall i hi').1.trans (hall j hj).1.symm)
  have hsub : (pkt.header.id :: (n.ends p).inbound.keys).map StreamId.slabIdx ⊆
      List.range (n.ends p.other).outbound.slots := by
    intro k hk
    obtain ⟨id, hmem, rfl⟩ := List.mem_map.mp hk
    exact List.mem_range.mpr (hall id hmem).2
  have hlen := (hslots.subperm hsub).length_le
  have hlimit := hsane.tables.slots
  have hstreams := hc.streams p.other
  rw [hsane.config] at hlimit
  rw [RammuxRole.other_other] at hstreams
  rw [(hi.sane p).config]
  simp only [List.length_map, List.length_cons, List.length_range, AList.keys, List.keys] at hlen
  omega

end Routing

/-! ## Acceptance -/

/-- An endpoint takes the next frame of its peer, if it knows the stream. -/
theorem Inv.received_ok (hi : n.Inv config) (hc : Compatible config) {pkt : Packet}
    {rest : List Packet} (hw : n.wire p.other = pkt :: rest) (hm : n.mate p r = some pkt.src) :
    ∃ fin c, ((n.ends p).ctx r).received pkt.header.credit pkt.data pkt.header.flags r =
      .ok (.ok fin, c) := by
  have hr := hi.mate_lt p r _ hm
  have hsane := hi.sane p
  have hcoming := comingTo_of_wire hw hm
  have hout := (hi.link p r hr).out
  have hback := (hi.link p r hr).back
  simp only [Net.link, hcoming] at hout hback
  have hlimit := (hi.packets p.other pkt (by rw [hw]; exact List.mem_cons_self)).limit
  rw [(hi.sane p.other).config] at hlimit
  have hframe := (config p.other).frameLimit_lt
  have hrx := hsane.rx_lt hr
  have htx := hsane.tx_lt hr
  -- Each check of the stream holds by what the link says of the frames in flight.
  refine StreamCtx.received_ok (fun hcredit => ?_) ?_ (fun hdata => ?_) (fun hfin => ?_)
    (fun hfin => ?_) (fun hopen => ?_) (hsane.accounts.in_borrowed_le hr) ?_
    (hsane.accounts.out_borrowed_le hr) ?_
  · exact hout.finRead.open_of_load (Option.isSome_iff_ne_none.mpr hcredit)
  · have hle := hout.credit_le
    rw [creditInFlight_cons] at hle
    exact (Nat.le_add_right _ _).trans hle
  · exact hback.finWrite.open_of_load (Packet.hasData_iff.mpr hdata)
  · exact hback.finWrite.open_of_fin hfin
  · exact hout.finRead.open_of_fin hfin
  · have hbal := hback.balance hopen
    rw [dataInFlight_cons] at hbal
    exact hi.room hc hr (by omega)
  · simp only [Streams.ctx]
    omega
  · simp only [Streams.ctx]
    omega

/-! ## Which streams belong together -/

/-- A stream that comes before another one with the same ID has a mate. -/
theorem Inv.exists_mate (hi : n.Inv config) {q : StreamRef} (hr : r < (n.ends p).next) (hlt : q < r)
    (hids : (n.ends p).ids q = (n.ends p).ids r) : ∃ q', n.mate p q = some q' := by
  refine Option.ne_none_iff_exists'.mp fun hnone => ?_
  have hdead := (hi.sane p).tables.older q r hlt hr hids.symm
  exact hi.not_dead (hlt.trans hr) hnone hdead

/-- At least as many streams had the ID before the mate of a stream as before the stream itself. -/
theorem Inv.incarnation_le (hi : n.Inv config) (h : n.mate p r = some r') :
    (n.ends p).incarnation r ≤ (n.ends p.other).incarnation r' := by
  have hr := hi.mate_lt p r r' h
  -- The mates of the streams that had the ID before are others that had it before.
  refine Finset.card_le_card_of_injOn (fun q => (n.mate p q).getD 0) (fun q hq => ?_)
    fun q₁ hq₁ q₂ hq₂ heq => ?_
  · simp only [Finset.mem_coe, Finset.mem_filter, Finset.mem_range] at hq ⊢
    obtain ⟨q', hq'⟩ := hi.exists_mate hr hq.1 hq.2
    rw [hq', Option.getD_some, hi.mate_id p q q' hq', hi.mate_id p r r' h]
    exact ⟨hi.mate_order p r r' q q' h hq' hq.2 hq.1, hq.2⟩
  · simp only [Finset.mem_coe, Finset.mem_filter, Finset.mem_range] at hq₁ hq₂
    obtain ⟨q₁', hq₁'⟩ := hi.exists_mate hr hq₁.1 hq₁.2
    obtain ⟨q₂', hq₂'⟩ := hi.exists_mate hr hq₂.1 hq₂.2
    dsimp only at heq
    rw [hq₁', hq₂', Option.getD_some, Option.getD_some] at heq
    exact hi.mate_inj hq₁' (heq ▸ hq₂')

/-- The mates are the counterparts. -/
theorem Inv.mate_iff (hi : n.Inv config) :
    n.mate p r = some r' ↔ (n.ends p).Counterparts (n.ends p.other) r r' := by
  have hforward {p : RammuxRole} {r r' : StreamRef} (h : n.mate p r = some r') :
      (n.ends p).Counterparts (n.ends p.other) r r' := by
    have hle := hi.incarnation_le (hi.mate_symm p r r' h)
    rw [RammuxRole.other_other] at hle
    exact ⟨hi.mate_lt p r r' h, hi.mate_lt' h, hi.mate_id p r r' h,
      hle.antisymm (hi.incarnation_le h)⟩
  refine ⟨hforward, fun h => ?_⟩
  -- The side that did not start the stream knows its mate.
  by_cases hown : ((n.ends p).ids r).initiatedBy = p
  · have hpeer : ((n.ends p.other).ids r').initiatedBy ≠ p.other := by
      rw [h.id, hown]
      exact p.other_ne.symm
    obtain ⟨r₂, hr₂⟩ := Option.ne_none_iff_exists'.mp (hi.accepted p.other r' h.right hpeer)
    have hmate := hi.mate_symm p.other r' r₂ hr₂
    rw [RammuxRole.other_other] at hmate
    have h₂ := hforward hmate
    rwa [Streams.incarnation_inj (h₂.id.symm.trans h.id)
      (h₂.incarnation.symm.trans h.incarnation)] at hmate
  · obtain ⟨r₂, hr₂⟩ := Option.ne_none_iff_exists'.mp (hi.accepted p r h.left hown)
    have h₂ := hforward hr₂
    rwa [Streams.incarnation_inj (h₂.id.trans h.id.symm)
      (h₂.incarnation.trans h.incarnation.symm)] at hr₂

end Net

end Rammux
