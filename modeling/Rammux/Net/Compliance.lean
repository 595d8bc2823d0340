import Rammux.Net.Invariant

/-!
# Two endpoints never accuse each other

Every step keeps `Net.Inv` and `Net.Starts`, so in every run the next frame is accepted. A step that
works on a stream (`Net.Works`) changes the link of this stream, seen from its two ends, and no
other link. A `SYN` is taken in two stages: the stream is created (`Net.accept`), which the links do
not notice because a stream that the peer does not know counts as new there; then it takes the
frame, as any other stream does.
-/

namespace Rammux

/-- A frame that is from a stream stays so while streams are started. -/
theorem Packet.From.mono {s s' : Streams} {pkt : Packet} (h : pkt.From s) (hnext : s.next ≤ s'.next)
    (hids : ∀ r < s.next, s'.ids r = s.ids r) (hconfig : s'.config = s.config) : pkt.From s' :=
  ⟨h.src.trans_le hnext, by rw [hids _ h.src, h.id], h.loaded, by rw [hconfig]; exact h.limit⟩

namespace Net

variable {config : RammuxRole → RammuxConfig} {n n' : Net} {p : RammuxRole} {r r' : StreamRef}

/-! ## Working on a stream -/

/-- Something was done with the stream `r` of `p`, and with frames from and to it. -/
structure Works (n : Net) (p : RammuxRole) (r : StreamRef) (n' : Net) : Prop where
  other : n'.ends p.other = n.ends p.other
  mate : n'.mate = n.mate
  next : (n'.ends p).next = (n.ends p).next
  ids : (n'.ends p).ids = (n.ends p).ids
  config : (n'.ends p).config = (n.ends p).config
  others : ∀ r', r' ≠ r →
    (n'.ends p).state r' = (n.ends p).state r' ∧ n'.sentBy p r' = n.sentBy p r'
  coming : ∀ r', n.mate p r ≠ some r' → n'.sentBy p.other r' = n.sentBy p.other r'

/-- The links of the other streams are what they were. -/
theorem Works.link_cases (h : n.Works p r n') (hi : n.Inv config) (q : RammuxRole)
    (r' : StreamRef) : (q = p ∧ r' = r) ∨ (q = p.other ∧ n.mate p r = some r') ∨
      n'.link q r' = n.link q r' := by
  rcases p.eq_or_eq_other q with rfl | rfl
  · by_cases hr : r' = r
    · exact .inl ⟨rfl, hr⟩
    · right
      right
      obtain ⟨hstate, hsent⟩ := h.others r' hr
      cases hm : n.mate q r' with
      | none =>
        rw [link_of_not_mate hm, link_of_not_mate (by rw [h.mate, hm]), hstate, hsent, h.other]
      | some r₂ =>
        -- Mates are one to one, so what comes to another mate has not changed.
        have hne : n.mate q r ≠ some r₂ := fun hm' => hr (hi.mate_inj hm hm')
        rw [link_of_mate hm, link_of_mate (by rw [h.mate, hm]), hstate, hsent, h.other,
          h.coming r₂ hne]
  · by_cases hr : n.mate p r = some r'
    · exact .inr (.inl ⟨rfl, hr⟩)
    · right
      right
      cases hm : n.mate p.other r' with
      | none =>
        rw [link_of_not_mate hm, link_of_not_mate (by rw [h.mate, hm]), h.other, h.coming r' hr,
          RammuxRole.other_other, h.config]
      | some r₂ =>
        have hne : r₂ ≠ r := by
          rintro rfl
          have := hi.mate_symm _ _ _ hm
          rw [RammuxRole.other_other] at this
          exact hr this
        obtain ⟨hstate, hsent⟩ := h.others r₂ hne
        rw [link_of_mate hm, link_of_mate (by rw [h.mate, hm]), h.other, h.coming r' hr,
          RammuxRole.other_other, hstate, hsent]

/-- The invariant is kept if the link of the stream stays sound, and the endpoint in order. -/
theorem Works.inv (h : n.Works p r n') (hi : n.Inv config)
    (hsane : (n'.ends p).Sane p (config p)) (hlink : r < (n.ends p).next → (n'.link p r).Sound)
    (hpackets : ∀ q, ∀ pkt ∈ n'.wire q, pkt ∈ n.wire q ∨ pkt.From (n.ends q))
    (horder : ∀ q, (n'.wire q).Pairwise fun x y => x.header.id = y.header.id → x.src ≤ y.src) :
    n'.Inv config := by
  -- One endpoint works, and the other one is as it was: no stream is started on either.
  have hnext : ∀ q, (n'.ends q).next = (n.ends q).next := by
    intro q
    rcases p.eq_or_eq_other q with rfl | rfl
    · exact h.next
    · rw [h.other]
  have hids : ∀ q, (n'.ends q).ids = (n.ends q).ids := by
    intro q
    rcases p.eq_or_eq_other q with rfl | rfl
    · exact h.ids
    · rw [h.other]
  have hconfig : ∀ q, (n'.ends q).config = (n.ends q).config := by
    intro q
    rcases p.eq_or_eq_other q with rfl | rfl
    · exact h.config
    · rw [h.other]
  refine ⟨fun q => ?_, fun q r' r₂ hm => ?_, fun q r' r₂ hm => ?_, fun q r' r₂ hm => ?_, ?_,
    fun q r' hr hne => ?_, fun q pkt hpkt => ?_, horder, fun q r' hr => ?_⟩
  · rcases p.eq_or_eq_other q with rfl | rfl
    · exact hsane
    · rw [h.other]
      exact hi.sane p.other
  · rw [h.mate] at hm ⊢
    exact hi.mate_symm q r' r₂ hm
  · rw [h.mate] at hm
    rw [hnext]
    exact hi.mate_lt q r' r₂ hm
  · rw [h.mate] at hm
    rw [hids, hids]
    exact hi.mate_id q r' r₂ hm
  · intro q r' r₂ t t₂ hm hmt
    rw [h.mate] at hm hmt
    rw [hids]
    exact hi.mate_order q r' r₂ t t₂ hm hmt
  · rw [h.mate]
    rw [hnext] at hr
    rw [hids] at hne
    exact hi.accepted q r' hr hne
  · have hfrom : pkt.From (n.ends q) := (hpackets q pkt hpkt).elim (hi.packets q pkt) id
    exact hfrom.mono (hnext q).ge (fun _ _ => by rw [hids]) (hconfig q)
  · -- Only the link of the stream has changed, which has two ends.
    rcases h.link_cases hi q r' with ⟨rfl, rfl⟩ | ⟨rfl, hm⟩ | heq
    · exact hlink (h.next ▸ hr)
    · rw [link_flip (by rw [h.mate, hm]) (by rw [h.mate]; exact hi.mate_symm _ _ _ hm)]
      exact (hlink (hi.mate_lt p r r' hm)).flip
    · rw [heq]
      exact hi.link q r' (hnext q ▸ hr)

/-- The link of the stream itself. -/
theorem Works.link_self (h : n.Works p r n') :
    n'.link p r = ⟨(n'.ends p).state r, n'.sentBy p r, n.farState p r, n'.comingTo p r⟩ := by
  rw [link, farState, farState, h.mate, h.other]

/-- What an endpoint does with a stream, without sending or receiving. -/
theorem works_put {s : Streams} {failed : Prop} (h : (n.ends p).Touched r failed s) :
    n.Works p r (n.put p s) := by
  refine ⟨put_ends_other n p s, rfl, ?_, ?_, ?_, fun r' hr' => ⟨?_, rfl⟩, fun _ _ => rfl⟩
  · rw [put_ends_self, h.next]
  · rw [put_ends_self, h.ids]
  · rw [put_ends_self, h.config]
  · rw [put_ends_self, h.others r' hr']

/-- The other streams start as they did, so all do if the stream and its mate do. -/
theorem Works.starts (h : n.Works p r n')
    (hs : ∀ q r', r' < (n.ends q).next → (q = p → r' ≠ r) → (q = p.other → n.mate p r ≠ some r') →
      Starting (n.mate q r').isSome (n.sentBy q r') (n.started q r'))
    (hself : r < (n.ends p).next →
      Starting (n.mate p r).isSome (n'.sentBy p r) (n'.started p r))
    (htasks : ∀ r', r' ≠ r → (n'.ends p).updates r' = (n.ends p).updates r')
    (hmate : ∀ r', n.mate p r = some r' → r' < (n.ends p.other).next →
      Starting (n.mate p.other r').isSome (n'.sentBy p.other r') (n.started p.other r')) :
    n'.Starts := by
  intro q r' hr'
  rcases p.eq_or_eq_other q with rfl | rfl
  · rw [h.next] at hr'
    rw [h.mate]
    by_cases hr : r' = r
    · subst hr
      exact hself hr'
    · rw [(h.others r' hr).2, started, htasks r' hr]
      exact hs q r' hr' (fun _ => hr) fun he => absurd he.symm q.other_ne
  · rw [h.other] at hr'
    rw [h.mate, started, h.other]
    by_cases hr : n.mate p r = some r'
    · exact hmate r' hr hr'
    · rw [h.coming r' hr]
      exact hs p.other r' hr' (fun he => absurd he p.other_ne) fun _ => hr

/-! ## What an endpoint does by itself -/

/-- The application uses a stream. -/
theorem Inv.app (hi : n.Inv config) (hs : n.Starts) {op : AppOp} {o : Streams.Output}
    (h : n.act p (.app r op) = .ok (o, n')) : n'.Inv config ∧ n'.Starts := by
  obtain ⟨s, hstep, rfl⟩ := act_eq_ok.mp h
  have hsane := Streams.step_sane (hi.sane p) hstep
  simp only [Streams.step] at hstep
  split at hstep
  · simp only [Lib.bind_eq_ok] at hstep
    obtain ⟨⟨res, c⟩, happ, hstep⟩ := hstep
    cases hstep
    have hw := works_put (Streams.app_touched happ)
    refine ⟨hw.inv hi ?_ (fun hr => ?_) (fun q pkt hpkt => .inl hpkt) hi.order,
      hw.starts (fun q r' hr' _ _ => hs q r' hr') (fun hr => ?_)
        (fun r' _ => by rw [put_ends_self]; rfl) fun r' _ hr' => hs p.other r' hr'⟩
    · rw [put_ends_self]
      exact hsane (by simp [Streams.NoViolation])
    · rw [hw.link_self, put_ends_self, Streams.put_state_self]
      exact (hi.link p r hr).used (StreamCtx.app_used happ)
    · rw [started, put_ends_self]
      exact hs p r hr
  · cases hstep
    rw [put_self]
    exact ⟨hi, hs⟩

/-- The flow and the wakers of an endpoint do not concern the peer. -/
theorem Inv.reflow (hi : n.Inv config) (hs : n.Starts) {s : Streams} (hsane : s.Sane p (config p))
    (h : s = { n.ends p with flow := s.flow, wakes := s.wakes }) :
    (n.put p s).Inv config ∧ (n.put p s).Starts := by
  have hw : n.Works p 0 (n.put p s) := by
    refine ⟨put_ends_other _ _ _, rfl, ?_, ?_, ?_, fun r' _ => ⟨?_, rfl⟩, fun _ _ => rfl⟩
    all_goals rw [put_ends_self, h]
  refine ⟨hw.inv hi ?_ (fun hr => ?_) (fun q pkt hpkt => .inl hpkt) hi.order,
    hw.starts (fun q r' hr' _ _ => hs q r' hr') (fun hr => ?_)
      (fun r' _ => by rw [put_ends_self, h]) fun r' _ hr' => hs p.other r' hr'⟩
  · rw [put_ends_self]
    exact hsane
  · rw [hw.link_self, put_ends_self, h]
    exact hi.link p 0 hr
  · rw [started, put_ends_self, h]
    exact hs p 0 hr

/-- A round trip is sampled. -/
theorem Inv.observe (hi : n.Inv config) (hs : n.Starts) {rtt : ℚ} {o : Streams.Output}
    (h : n.act p (.observe rtt) = .ok (o, n')) : n'.Inv config ∧ n'.Starts := by
  obtain ⟨s, hstep, rfl⟩ := act_eq_ok.mp h
  have hsane := Streams.step_sane (hi.sane p) hstep
  cases hstep
  exact hi.reflow hs (hsane nofun) rfl

/-! ## Sending -/

/-- The net after a stream of `p` yielded an update, and `p` became `s`. -/
def sending (n : Net) (p : RammuxRole) (s : Streams) (pkt : Packet) : Net :=
  { n.put p s with wire := Function.update n.wire p (n.wire p ++ [pkt]) }

section Sending

variable {s : Streams} {u : StreamUpdate}

/-- The endpoint that sends is the new one. -/
@[simp] theorem sending_ends_self (pkt : Packet) : (n.sending p s pkt).ends p = s :=
  put_ends_self n p s

/-- The other endpoint is what it was. -/
@[simp] theorem sending_ends_other (pkt : Packet) :
    (n.sending p s pkt).ends p.other = n.ends p.other := put_ends_other n p s

/-- The frame is the last in flight. -/
theorem sending_wire_self (pkt : Packet) : (n.sending p s pkt).wire p = n.wire p ++ [pkt] :=
  Function.update_self _ _ _

/-- What the other endpoint sent is what it was. -/
theorem sending_wire_other (pkt : Packet) :
    (n.sending p s pkt).wire p.other = n.wire p.other := Function.update_of_ne p.other_ne _ _

/-- The stream that sends has one more frame in flight. -/
theorem sending_sentBy_self (u : StreamUpdate) :
    (n.sending p s (u.packet r)).sentBy p r = n.sentBy p r ++ [u.packet r] := by
  simp [sentBy, sending_wire_self, StreamUpdate.packet]

/-- The other streams have not sent anything. -/
theorem sending_sentBy_of_ne {pkt : Packet} (h : r' ≠ pkt.src) :
    (n.sending p s pkt).sentBy p r' = n.sentBy p r' := by
  simp [sentBy, sending_wire_self, Ne.symm h]

/-- The other endpoint has not sent anything. -/
theorem sending_sentBy_other (pkt : Packet) :
    (n.sending p s pkt).sentBy p.other r' = n.sentBy p.other r' := by
  rw [sentBy, sending_wire_other, sentBy]

/-- Nothing more comes to the endpoint that sends. -/
theorem sending_comingTo (pkt : Packet) : (n.sending p s pkt).comingTo p r = n.comingTo p r := by
  unfold comingTo
  rw [show (n.sending p s pkt).mate = n.mate from rfl]
  split
  · exact sending_sentBy_other pkt
  · rfl

/-- Sending concerns the stream that sends, and what comes to its mate. -/
theorem works_sending (h : (n.ends p).Touched r False s) :
    n.Works p r (n.sending p s (u.packet r)) := by
  refine ⟨sending_ends_other _, rfl, ?_, ?_, ?_, fun r' hr' => ⟨?_, ?_⟩, fun r' _ => ?_⟩
  · rw [sending_ends_self, h.next]
  · rw [sending_ends_self, h.ids]
  · rw [sending_ends_self, h.config]
  · rw [sending_ends_self, h.others r' hr']
  · exact sending_sentBy_of_ne hr'
  · exact sending_sentBy_other _

/-- The frame of an update is one of its stream. -/
theorem Inv.sent_from (hi : n.Inv config) (h : (n.ends p).Sent r u s) :
    (u.packet r).From (n.ends p) := by
  obtain ⟨task, htask, hid, -⟩ := h.task
  obtain ⟨hr, htaskId⟩ := (hi.sane p).tables.taskId r task htask
  have hwf := (hi.sane p).held.wfIn r hr
  refine ⟨hr, hid.trans htaskId, StreamUpdate.packet_loaded r (h.loaded ?_), ?_⟩
  · rw [hwf.threshold]
    exact creditThreshold_pos _
  · have hlimit := h.outbound.limit
    rwa [((hi.sane p).accounts.wfOut r hr).limit] at hlimit

/-- A frame is sent behind those of the streams that had its ID before. -/
theorem Inv.sent_order (hi : n.Inv config) (h : (n.ends p).Sent r u s) :
    (n.wire p ++ [u.packet r]).Pairwise fun x y => x.header.id = y.header.id → x.src ≤ y.src := by
  have htables := (hi.sane p).tables
  have hfrom := hi.sent_from h
  refine List.pairwise_append.mpr ⟨hi.order p, List.pairwise_singleton _ _, ?_⟩
  intro x hx y hy hxy
  rw [List.mem_singleton.mp hy] at hxy ⊢
  have hx := hi.packets p x hx
  by_contra hlt
  -- A later stream with the ID of a stream that still has a task.
  obtain ⟨task, htask, -, -⟩ := h.task
  have hdead := htables.older r x.src (Nat.not_le.mp hlt) hx.src
    (by rw [← hx.id, hxy]; exact hfrom.id)
  have hsent := StreamState.sent_iff.mpr (StreamState.isDead_iff.mp hdead).1
  rw [(htables.task r hfrom.src).mpr hsent] at htask
  nomatch htask

/-- The task of a stream yields an update, and its frame goes on the wire. -/
theorem Inv.sends (hi : n.Inv config) (hs : n.Starts) (ht : (n.ends p).Touched r False s)
    (hsane : s.Sane p (config p)) (h : (n.ends p).Sent r u s) :
    (n.sending p s (u.packet r)).Inv config ∧ (n.sending p s (u.packet r)).Starts := by
  have hw := works_sending (u := u) ht
  have hfrom := hi.sent_from h
  refine ⟨hw.inv hi ?_ (fun hr => ?_) (fun q pkt hpkt => ?_) fun q => ?_,
    hw.starts (fun q r' hr' _ _ => hs q r' hr') (fun hr => ?_) (fun r' hr' => ?_)
      fun r' _ hr' => ?_⟩
  · rw [sending_ends_self]
    exact hsane
  · -- What was sent is in flight, and everything else of the link is as it was.
    rw [hw.link_self, sending_ends_self, sending_comingTo, sending_sentBy_self]
    refine (hi.link p r hr).send ?_ h.outbound ((hi.sane p).held.wfIn r hr).credit_le
    rw [StreamUpdate.packet_credit]
    exact h.inbound
  · rcases p.eq_or_eq_other q with rfl | rfl
    · rw [sending_wire_self] at hpkt
      refine (List.mem_append.mp hpkt).imp_right fun hpkt => ?_
      rw [List.mem_singleton.mp hpkt]
      exact hfrom
    · rw [sending_wire_other] at hpkt
      exact .inl hpkt
  · rcases p.eq_or_eq_other q with rfl | rfl
    · rw [sending_wire_self]
      exact hi.sent_order h
    · rw [sending_wire_other]
      exact hi.order p.other
  · -- The task says whether `SYN` is due, and afterwards that it is not.
    obtain ⟨task, htask, -, hsyn⟩ := h.task
    have hstarted : (n.sending p s (u.packet r)).started p r = true := by
      rw [started, sending_ends_self]
      cases hup : s.updates r with
      | none => rfl
      | some task' =>
        rw [Option.elim_some, h.started task' hup]
        rfl
    rw [hstarted, sending_sentBy_self]
    refine (hs p r hr).send ?_
    rw [started, htask, Option.elim_some, Bool.not_not]
    exact hsyn
  · rw [sending_ends_self]
    exact (h.others r' hr').2
  · rw [sending_sentBy_other]
    exact hs p.other r' hr'

end Sending

/-- The selector polls a task. -/
theorem Inv.poll (hi : n.Inv config) (hs : n.Starts) {allowance : ℚ≥0} {o : Streams.Output}
    {n₁ : Net} (h : n.act p (.poll r allowance) = .ok (o, n₁)) :
    (n₁.send p r o).Inv config ∧ (n₁.send p r o).Starts := by
  obtain ⟨s, hstep, rfl⟩ := act_eq_ok.mp h
  have hsane := Streams.step_sane (hi.sane p) hstep
  simp only [Streams.step, Lib.bind_eq_ok] at hstep
  obtain ⟨⟨res, s'⟩, hpoll, hstep⟩ := hstep
  cases hstep
  rcases Streams.pollUpdate_sends hpoll with ⟨rfl, hsame⟩ | ⟨u, rfl, hsent⟩
  · exact hi.reflow hs (hsane (by simp [Streams.NoViolation])) hsame
  · obtain ⟨task, htask, -⟩ := hsent.task
    have hr := ((hi.sane p).tables.taskId r task htask).1
    exact hi.sends hs (Streams.pollUpdate_touched hpoll (hi.sane p).tables hr)
      (hsane (by simp [Streams.NoViolation])) hsent

/-! ## New streams -/

/-- A stream was created at `p`, and no frame was sent or received. -/
structure Grows (n : Net) (p : RammuxRole) (id : StreamId) (n' : Net) : Prop where
  created : (n.ends p).Created id (n'.ends p)
  other : n'.ends p.other = n.ends p.other
  wire : n'.wire = n.wire

section Grows

variable {id : StreamId} {q : RammuxRole}

/-- A stream that starts takes none away. -/
theorem Grows.next_le (h : n.Grows p id n') (q : RammuxRole) :
    (n.ends q).next ≤ (n'.ends q).next := by
  rcases p.eq_or_eq_other q with rfl | rfl
  · rw [h.created.same.2.2.1]
    exact Nat.le_succ _
  · rw [h.other]

/-- The streams that there were are what they were. -/
theorem Grows.old (h : n.Grows p id n') (hr : r < (n.ends q).next) :
    (n'.ends q).state r = (n.ends q).state r ∧ (n'.ends q).ids r = (n.ends q).ids r ∧
      (n'.ends q).updates r = (n.ends q).updates r := by
  rcases p.eq_or_eq_other q with rfl | rfl
  · exact h.created.old hr
  · rw [h.other]
    exact ⟨rfl, rfl, rfl⟩

/-- The streams after a start are those before and the new one. -/
theorem Grows.lt_cases (h : n.Grows p id n') (hr : r < (n'.ends q).next) :
    r < (n.ends q).next ∨ (q = p ∧ r = (n.ends p).next) := by
  rcases p.eq_or_eq_other q with rfl | rfl
  · exact (h.created.lt_cases hr).imp_right fun hr => ⟨rfl, hr⟩
  · rw [h.other] at hr
    exact .inl hr

/-- A start changes no configuration. -/
theorem Grows.same_config (h : n.Grows p id n') (q : RammuxRole) :
    (n'.ends q).config = (n.ends q).config := by
  rcases p.eq_or_eq_other q with rfl | rfl
  · exact h.created.same.2.1
  · rw [h.other]

/-- A start sends nothing. -/
theorem Grows.sentBy (h : n.Grows p id n') (q : RammuxRole) (r : StreamRef) :
    n'.sentBy q r = n.sentBy q r := by
  rw [Net.sentBy, h.wire, Net.sentBy]

/-- The streams that there were have the same links, if they have the same mates. -/
theorem Grows.link (h : n.Grows p id n') (hi : n.Inv config) (hr : r < (n.ends q).next)
    (hmate : n'.mate q r = n.mate q r) : n'.link q r = n.link q r := by
  cases hm : n.mate q r with
  | none =>
    rw [link_of_not_mate hm, link_of_not_mate (hmate.trans hm), (h.old hr).1, h.sentBy,
      h.same_config]
  | some r' =>
    rw [link_of_mate hm, link_of_mate (hmate.trans hm), (h.old hr).1, h.sentBy, h.sentBy,
      (h.old (hi.mate_lt' hm)).1]

/-- The endpoints are in order after a start. -/
theorem Grows.sane (h : n.Grows p id n') (hi : n.Inv config) (q : RammuxRole) :
    (n'.ends q).Sane q (config q) := by
  rcases p.eq_or_eq_other q with rfl | rfl
  · exact (hi.sane q).created h.created
  · rw [h.other]
    exact hi.sane p.other

/-- The frames in flight are still from the streams that sent them. -/
theorem Grows.packets (h : n.Grows p id n') (hi : n.Inv config) (q : RammuxRole) :
    ∀ pkt ∈ n'.wire q, pkt.From (n'.ends q) := by
  intro pkt hpkt
  rw [h.wire] at hpkt
  exact (hi.packets q pkt hpkt).mono (h.next_le q) (fun r hr => (h.old hr).2.1) (h.same_config q)

end Grows

/-- A stream that was just created has sent nothing. -/
theorem Inv.sentBy_next (hi : n.Inv config) (p : RammuxRole) :
    n.sentBy p (n.ends p).next = [] := by
  refine List.eq_nil_iff_forall_not_mem.mpr fun pkt hpkt => ?_
  obtain ⟨hmem, hsrc⟩ := mem_sentBy.mp hpkt
  exact absurd hsrc (Nat.ne_of_lt (hi.packets p pkt hmem).src)

/-- A stream that was just created has no mate. -/
theorem Inv.mate_next (hi : n.Inv config) (p : RammuxRole) : n.mate p (n.ends p).next = none := by
  cases hm : n.mate p (n.ends p).next with
  | none => rfl
  | some r' => exact absurd (hi.mate_lt p _ r' hm) (Nat.lt_irrefl _)

/-- The application opens a stream. -/
theorem Inv.opened {id : StreamId} (hi : n.Inv config) (hs : n.Starts) (h : n.Grows p id n')
    (hmate : n'.mate = n.mate) (hown : id.initiatedBy = p)
    (hsyn : (n'.ends p).updates (n.ends p).next = some ⟨id, true⟩) :
    n'.Inv config ∧ n'.Starts := by
  have hnew := h.created.new
  -- The peer does not know the new stream, and nothing of it is in flight.
  have hnone : n'.mate p (n.ends p).next = none := by rw [hmate, hi.mate_next]
  refine ⟨⟨h.sane hi, fun q r r' hm => ?_, fun q r r' hm => ?_, fun q r r' hm => ?_, ?_,
    fun q r hr hne => ?_, h.packets hi, fun q => by rw [h.wire]; exact hi.order q,
    fun q r hr => ?_⟩, fun q r hr => ?_⟩
  · rw [hmate] at hm ⊢
    exact hi.mate_symm q r r' hm
  · rw [hmate] at hm
    exact (hi.mate_lt q r r' hm).trans_le (h.next_le q)
  · rw [hmate] at hm
    rw [(h.old (hi.mate_lt q r r' hm)).2.1, (h.old (hi.mate_lt' hm)).2.1]
    exact hi.mate_id q r r' hm
  · intro q r r' t t' hm hmt
    rw [hmate] at hm hmt
    rw [(h.old (hi.mate_lt q r r' hm)).2.1, (h.old (hi.mate_lt q t t' hmt)).2.1]
    exact hi.mate_order q r r' t t' hm hmt
  · rw [hmate]
    rcases h.lt_cases hr with hr | ⟨rfl, rfl⟩
    · rw [(h.old hr).2.1] at hne
      exact hi.accepted q r hr hne
    · rw [hnew.2.1] at hne
      exact absurd hown hne
  · rcases h.lt_cases hr with hr | ⟨rfl, rfl⟩
    · rw [h.link hi hr (by rw [hmate])]
      exact hi.link q r hr
    · rw [link_of_not_mate hnone, h.sentBy, hi.sentBy_next, hnew.1]
      exact Link.sound_new _ _
  · rcases h.lt_cases hr with hr | ⟨rfl, rfl⟩
    · rw [hmate, h.sentBy, started, (h.old hr).2.2]
      exact hs q r hr
    · rw [hnone, h.sentBy, hi.sentBy_next, started, hsyn]
      rfl

/-- The net in which `p` has created the stream of a `SYN` of its peer. -/
def accept (n : Net) (p : RammuxRole) (pkt : Packet) : Net :=
  (n.put p ((n.ends p).accept pkt.header.id)).pair p.other pkt.src
    (.received (.ok (some (n.ends p).next)))

section Accept

variable {pkt : Packet} {rest : List Packet}

/-- The new stream has the one that sent `SYN` as its mate. -/
theorem accept_mate_self :
    (n.accept p pkt).mate p = Function.update (n.mate p) (n.ends p).next (some pkt.src) :=
  if_neg p.other_ne.symm

/-- And the other way round. -/
theorem accept_mate_other :
    (n.accept p pkt).mate p.other =
      Function.update (n.mate p.other) pkt.src (some (n.ends p).next) :=
  if_pos rfl

/-- The mates after a `SYN`: those that there were, and the new ones. -/
theorem accept_mate_cases {q : RammuxRole} (h : (n.accept p pkt).mate q r = some r') :
    n.mate q r = some r' ∨ (q = p ∧ r = (n.ends p).next ∧ r' = pkt.src) ∨
      (q = p.other ∧ r = pkt.src ∧ r' = (n.ends p).next) := by
  rcases p.eq_or_eq_other q with rfl | rfl
  · rw [accept_mate_self] at h
    by_cases hr : r = (n.ends q).next
    · rw [hr, Function.update_self] at h
      exact .inr (.inl ⟨rfl, hr, (Option.some.inj h).symm⟩)
    · rw [Function.update_of_ne hr] at h
      exact .inl h
  · rw [accept_mate_other] at h
    by_cases hr : r = pkt.src
    · rw [hr, Function.update_self] at h
      exact .inr (.inr ⟨rfl, hr, (Option.some.inj h).symm⟩)
    · rw [Function.update_of_ne hr] at h
      exact .inl h

/-- Creating the stream of a `SYN` is a start. -/
theorem accept_grows (hrole : pkt.header.id.initiatedBy ≠ (n.ends p).role)
    (hvacant : (n.ends p).lookup pkt.header.id = none) :
    n.Grows p pkt.header.id (n.accept p pkt) where
  created := by
    rw [show (n.accept p pkt).ends p = (n.ends p).accept pkt.header.id from put_ends_self _ _ _]
    exact Streams.accept_created hrole hvacant
  other := put_ends_other _ _ _
  wire := rfl

/-- The mate of the new stream. -/
theorem accept_mate_new : (n.accept p pkt).mate p (n.ends p).next = some pkt.src := by
  rw [accept_mate_self, Function.update_self]

/-- The mate of the stream that sent `SYN`. -/
theorem accept_mate_src : (n.accept p pkt).mate p.other pkt.src = some (n.ends p).next := by
  rw [accept_mate_other, Function.update_self]

/-- The mates that there were are still mates. -/
theorem Inv.accept_keeps (hi : n.Inv config) (hm : n.mate p.other pkt.src = none) {q : RammuxRole}
    (h : n.mate q r = some r') : (n.accept p pkt).mate q r = some r' := by
  rcases p.eq_or_eq_other q with rfl | rfl
  · rw [accept_mate_self, Function.update_of_ne (hi.mate_lt q r r' h).ne]
    exact h
  · rw [accept_mate_other, Function.update_of_ne fun he => by rw [he, hm] at h; nomatch h]
    exact h

section

variable (hi : n.Inv config) (hw : n.wire p.other = pkt :: rest)
  (hm : n.mate p.other pkt.src = none)

include hi hw hm

/-- What the creation of the stream of a `SYN` comes to. -/
theorem Inv.accept_grows : n.Grows p pkt.header.id (n.accept p pkt) := by
  obtain ⟨hsrc, hid, -, -⟩ := hi.packet_from hw
  refine Net.accept_grows ?_ (hi.lookup_eq_none hw hm)
  rw [hid, hi.initiatedBy hsrc hm, (hi.sane p).role]
  exact p.other_ne

/-- The new stream is what its mate took it for, so the links are what they were. -/
theorem Inv.accept_link {q : RammuxRole} (hr : r < (n.ends q).next) :
    (n.accept p pkt).link q r = n.link q r := by
  have h := hi.accept_grows hw hm
  have hsrc := (hi.packet_from hw).src
  by_cases hsame : (n.accept p pkt).mate q r = n.mate q r
  · exact h.link hi hr hsame
  · rcases p.eq_or_eq_other q with rfl | rfl
    · rw [accept_mate_self, Function.update_of_ne hr.ne] at hsame
      exact absurd rfl hsame
    · have heq : r = pkt.src := by
        by_contra hne
        rw [accept_mate_other, Function.update_of_ne hne] at hsame
        exact hsame rfl
      subst heq
      rw [link_of_not_mate hm, link_of_mate accept_mate_src, RammuxRole.other_other,
        (h.old hsrc).1, h.sentBy, h.sentBy, hi.sentBy_next, h.created.new.1]

/-- The new stream is the other end of the one that sent `SYN`. -/
theorem accept_link_new :
    (n.accept p pkt).link p (n.ends p).next = (n.link p.other pkt.src).flip := by
  have hsrc : (n.accept p pkt).mate p.other pkt.src = some (n.ends p).next := accept_mate_src
  have hflip := link_flip hsrc (by rw [RammuxRole.other_other]; exact accept_mate_new)
  rw [RammuxRole.other_other, hi.accept_link hw hm (hi.packet_from hw).src] at hflip
  exact hflip

/-- A stream that its peer does not know yet is the last one with its ID. -/
theorem Inv.lt_src {q : StreamRef} (hq : q < (n.ends p.other).next) (hne : q ≠ pkt.src)
    (hids : (n.ends p.other).ids q = (n.ends p.other).ids pkt.src) : q < pkt.src := by
  refine lt_of_le_of_ne (Nat.le_of_not_lt fun hlt => ?_) hne
  refine hi.not_dead (hi.packet_from hw).src hm ?_
  exact (hi.sane p.other).tables.older pkt.src q hlt hq hids

/-- The new stream comes after those that had its ID before, and so does its mate. -/
theorem Inv.accept_order (q : RammuxRole) (r r' t t' : StreamRef)
    (hr : (n.accept p pkt).mate q r = some r') (ht : (n.accept p pkt).mate q t = some t')
    (heq : ((n.accept p pkt).ends q).ids t = ((n.accept p pkt).ends q).ids r) (hlt : t < r) :
    t' < r' := by
  obtain ⟨hsrc, hid, -, -⟩ := hi.packet_from hw
  have h := hi.accept_grows hw hm
  obtain ⟨-, hids, -⟩ := h.created.new
  rcases accept_mate_cases hr with hr | ⟨rfl, rfl, rfl⟩ | ⟨rfl, rfl, rfl⟩
  · have hrlt := hi.mate_lt q r r' hr
    rcases accept_mate_cases ht with ht | ⟨rfl, rfl, rfl⟩ | ⟨rfl, rfl, rfl⟩
    · rw [(h.old hrlt).2.1, (h.old (hi.mate_lt q t t' ht)).2.1] at heq
      exact hi.mate_order q r r' t t' hr ht heq hlt
    · exact absurd hrlt (Nat.not_lt.mpr hlt.le)
    · rw [(h.old hrlt).2.1, (h.old hsrc).2.1] at heq
      exact absurd (hi.lt_src hw hm hrlt hlt.ne' heq.symm) (Nat.not_lt.mpr hlt.le)
  · rcases accept_mate_cases ht with ht | ⟨-, rfl, -⟩ | ⟨hq, -⟩
    · -- The mate of a stream that had the ID here before is not the one that sends `SYN`.
      have hmate := hi.mate_symm q t t' ht
      refine hi.lt_src hw hm (hi.mate_lt' ht) (fun he => ?_) ?_
      · rw [he, hm] at hmate
        nomatch hmate
      · rw [hids, (h.old (hi.mate_lt q t t' ht)).2.1] at heq
        rw [hi.mate_id q t t' ht, heq, hid]
    · exact absurd hlt (Nat.lt_irrefl _)
    · exact absurd hq.symm q.other_ne
  · rcases accept_mate_cases ht with ht | ⟨hq, -⟩ | ⟨-, rfl, -⟩
    · have hlt' := hi.mate_lt' ht
      rwa [RammuxRole.other_other] at hlt'
    · exact absurd hq p.other_ne
    · exact absurd hlt (Nat.lt_irrefl _)

/-- Creating the stream of a `SYN` keeps the invariant. -/
theorem Inv.accept : (n.accept p pkt).Inv config := by
  obtain ⟨hsrc, hid, -, -⟩ := hi.packet_from hw
  have h := hi.accept_grows hw hm
  obtain ⟨-, hids, -⟩ := h.created.new
  refine ⟨h.sane hi, fun q r r' hmate => ?_, fun q r r' hmate => ?_, fun q r r' hmate => ?_,
    hi.accept_order hw hm, fun q r hr hne hnone => ?_, h.packets hi, fun q => hi.order q,
    fun q r hr => ?_⟩
  · rcases accept_mate_cases hmate with hold | ⟨rfl, rfl, rfl⟩ | ⟨rfl, rfl, rfl⟩
    · exact hi.accept_keeps hm (hi.mate_symm q r r' hold)
    · exact accept_mate_src
    · rw [RammuxRole.other_other]
      exact accept_mate_new
  · rcases accept_mate_cases hmate with hold | ⟨rfl, rfl, rfl⟩ | ⟨rfl, rfl, rfl⟩
    · exact (hi.mate_lt q r r' hold).trans_le (h.next_le q)
    · rw [h.created.same.2.2.1]
      exact Nat.lt_succ_self _
    · exact hsrc.trans_le (h.next_le _)
  · rcases accept_mate_cases hmate with hold | ⟨rfl, rfl, rfl⟩ | ⟨rfl, rfl, rfl⟩
    · rw [(h.old (hi.mate_lt q r r' hold)).2.1, (h.old (hi.mate_lt' hold)).2.1]
      exact hi.mate_id q r r' hold
    · rw [(h.old hsrc).2.1, hids, hid]
    · rw [RammuxRole.other_other, (h.old hsrc).2.1, hids, hid]
  · rcases h.lt_cases hr with hr | ⟨rfl, rfl⟩
    · rw [(h.old hr).2.1] at hne
      obtain ⟨r', hr'⟩ := Option.ne_none_iff_exists'.mp (hi.accepted q r hr hne)
      rw [hi.accept_keeps hm hr'] at hnone
      nomatch hnone
    · rw [accept_mate_new] at hnone
      nomatch hnone
  · rcases h.lt_cases hr with hr | ⟨rfl, rfl⟩
    · rw [hi.accept_link hw hm hr]
      exact hi.link q r hr
    · rw [accept_link_new hi hw hm]
      exact (hi.link _ pkt.src hsrc).flip

end

end Accept

/-! ## Receiving -/

/-- The net after `p` took a frame of its peer, became `s`, and left the frames `rest`. -/
def receiving (n : Net) (p : RammuxRole) (s : Streams) (rest : List Packet) : Net :=
  { n.put p s with wire := Function.update n.wire p.other rest }

section Receiving

variable {s : Streams} {pkt : Packet} {rest : List Packet}

/-- The endpoint that receives is the new one. -/
@[simp] theorem receiving_ends_self : (n.receiving p s rest).ends p = s := put_ends_self n p s

/-- The other endpoint is what it was. -/
@[simp] theorem receiving_ends_other :
    (n.receiving p s rest).ends p.other = n.ends p.other := put_ends_other n p s

/-- What the endpoint sent itself is what it was. -/
theorem receiving_wire_self : (n.receiving p s rest).wire p = n.wire p :=
  Function.update_of_ne p.other_ne.symm _ _

/-- The frame is not in flight any more. -/
theorem receiving_wire_other : (n.receiving p s rest).wire p.other = rest :=
  Function.update_self _ _ _

/-- None of the endpoint's own streams has sent anything. -/
theorem receiving_sentBy_self : (n.receiving p s rest).sentBy p r = n.sentBy p r := by
  rw [sentBy, receiving_wire_self, sentBy]

/-- What the streams of the peer have in flight is what is left. -/
theorem receiving_sentBy_other :
    (n.receiving p s rest).sentBy p.other r' = rest.filter fun x => x.src = r' := by
  rw [sentBy, receiving_wire_other]

/-- Receiving concerns the stream that the frame is for, and what comes to it. -/
theorem works_receiving {failed : Prop} (hw : n.wire p.other = pkt :: rest)
    (hm : n.mate p r = some pkt.src) (h : (n.ends p).Touched r failed s) :
    n.Works p r (n.receiving p s rest) := by
  refine ⟨receiving_ends_other, rfl, ?_, ?_, ?_, fun r' hr' => ⟨?_, receiving_sentBy_self⟩,
    fun r' hr' => ?_⟩
  · rw [receiving_ends_self, h.next]
  · rw [receiving_ends_self, h.ids]
  · rw [receiving_ends_self, h.config]
  · rw [receiving_ends_self, h.others r' hr']
  · have hne : pkt.src ≠ r' := fun he => hr' (he ▸ hm)
    rw [receiving_sentBy_other, sentBy, hw, List.filter_cons_of_neg (by simpa using hne)]

/-- A stream takes the next frame of its mate. -/
theorem Inv.delivers (hi : n.Inv config) (hc : Compatible config)
    (hw : n.wire p.other = pkt :: rest) (hm : n.mate p r = some pkt.src)
    (newStream : Option StreamRef) :
    ∃ s, (n.ends p).deliver r pkt.header pkt.data newStream = .ok (.ok newStream, s) ∧
      (n.ends p).Touched r False s ∧ (n.receiving p s rest).Inv config := by
  have hr := hi.mate_lt p r _ hm
  have hlookup := hi.lookup_mate hw hm
  have hid := ((hi.sane p).tables.lookup _ _ hlookup).2
  -- The link is sound, so the stream accepts the frame; and a dead stream can be removed.
  obtain ⟨fin, c, hrec⟩ := hi.received_ok hc hw hm
  obtain ⟨s, hrem⟩ := Streams.removeIfDead_ok fin
    (show ((n.ends p).put r c).lookup pkt.header.id = some r from hlookup)
  have hdel : (n.ends p).deliver r pkt.header pkt.data newStream = .ok (.ok newStream, s) := by
    simp only [Streams.deliver, Lib.bind_eq_ok]
    exact ⟨_, hrec, Lib.bind_eq_ok.mpr ⟨s, hrem, rfl⟩⟩
  have ht : (n.ends p).Touched r False s :=
    (Streams.deliver_touched hdel hlookup hid.symm).mono (by simp)
  have hworks := works_receiving hw hm ht
  have hstate : s.state r = c.state := by
    rw [Streams.removeIfDead_same hrem]
    exact Streams.put_state_self _ _ _
  obtain ⟨hin, hout, -⟩ := StreamCtx.received_eq_ok hrec
  refine ⟨s, hdel, ht, hworks.inv hi ?_ (fun _ => ?_) (fun q x hx => .inl ?_) fun q => ?_⟩
  · rw [receiving_ends_self]
    exact ⟨ht.role.trans (hi.sane p).role, ht.config.trans (hi.sane p).config,
      (hi.sane p).tables.touched ht, (hi.sane p).accounts.touched ht hr,
      (hi.sane p).held.touched (hi.sane p).tables ht hr id⟩
  · -- What comes to the stream is one frame less.
    have hcoming : (n.receiving p s rest).comingTo p r = rest.filter fun x => x.src = pkt.src := by
      rw [comingTo, show (n.receiving p s rest).mate = n.mate from rfl, hm]
      exact receiving_sentBy_other
    rw [hworks.link_self, receiving_ends_self, receiving_sentBy_self, hcoming, hstate]
    exact (hi.link p r hr).receive (comingTo_of_wire hw hm) hin hout
  · rcases p.eq_or_eq_other q with rfl | rfl
    · rwa [receiving_wire_self] at hx
    · rw [receiving_wire_other] at hx
      rw [hw]
      exact List.mem_cons_of_mem _ hx
  · rcases p.eq_or_eq_other q with rfl | rfl
    · rw [receiving_wire_self]
      exact hi.order q
    · have horder := hi.order p.other
      rw [hw] at horder
      rw [receiving_wire_other]
      exact horder.of_cons

/-- A stream that the peer knows has sent its `SYN`. -/
theorem started_of_mate {ps : List Packet} {b : Bool} (h : Starting true ps b) : b = true := by
  induction ps with
  | nil => exact h.symm
  | cons x ps ih => exact ih h.2

/-- What was done with the task of a stream that the peer knows, its `SYN` was sent. -/
theorem started_touched {failed : Prop} (h : (n.ends p).Touched r failed s)
    (hs : n.started p r = true) : (s.updates r).elim true (fun task => !task.syn) = true := by
  rcases h.task with ⟨hup, -⟩ | ⟨task, -, hup⟩
  · rw [hup]
    exact hs
  · rw [hup]
    split_ifs
    · rfl
    · rfl

/-- The streams start with `SYN` after a stream took the frame of its mate, if those that have
nothing to do with it do. -/
theorem starts_receiving {failed : Prop} (hw : n.wire p.other = pkt :: rest)
    (hm : n.mate p r = some pkt.src) (hm' : n.mate p.other pkt.src = some r)
    (ht : (n.ends p).Touched r failed s)
    (hs : ∀ q r', r' < (n.ends q).next → (q = p → r' ≠ r) → (q = p.other → r' ≠ pkt.src) →
      Starting (n.mate q r').isSome (n.sentBy q r') (n.started q r'))
    (hself : Starting true (n.sentBy p r) (n.started p r))
    (hmate : Starting true (rest.filter fun x => x.src = pkt.src) (n.started p.other pkt.src)) :
    (n.receiving p s rest).Starts := by
  refine (works_receiving hw hm ht).starts (fun q r' hr' hq hq' => ?_) (fun _ => ?_)
    (fun r' hr' => ?_) fun r' hr' _ => ?_
  · exact hs q r' hr' hq fun he hsrc => hq' he (hsrc ▸ hm)
  · have hstarted := started_of_mate hself
    rw [hm, receiving_sentBy_self, started, receiving_ends_self, started_touched ht hstarted]
    rwa [hstarted] at hself
  · rw [receiving_ends_self]
    exact ht.tasks r' hr'
  · obtain rfl := Option.some.inj (hm.symm.trans hr')
    rw [hm', receiving_sentBy_other]
    exact hmate

/-- The net in which `p` hands the next frame of its peer to a stream: it is the stream's mate that
sent it, or the stream was just created for its `SYN`. -/
structure Takes (n : Net) (p : RammuxRole) (pkt : Packet) (n₁ : Net) (r : StreamRef)
    (newStream : Option StreamRef) : Prop where
  cases : (n₁ = n ∧ newStream = none) ∨
    (n₁ = n.accept p pkt ∧ n.mate p.other pkt.src = none ∧ r = (n.ends p).next ∧ newStream = some r)
  wire : n₁.wire = n.wire
  mate : n₁.mate p r = some pkt.src

/-- The next frame is accepted, and it is a stream of the peer that takes it. -/
theorem Inv.receives (hi : n.Inv config) (hs : n.Starts) (hc : Compatible config)
    (hw : n.wire p.other = pkt :: rest) :
    ∃ n₁ r newStream s, n.Takes p pkt n₁ r newStream ∧ n₁.Inv config ∧
      (n.ends p).receive pkt.header pkt.data = .ok (.ok newStream, s) ∧
      (n₁.ends p).deliver r pkt.header pkt.data newStream = .ok (.ok newStream, s) ∧
      (n.receiving p s rest).pair p.other pkt.src (.received (.ok newStream)) =
        n₁.receiving p s rest ∧
      (n₁.receiving p s rest).Inv config ∧ (n₁.receiving p s rest).Starts := by
  obtain ⟨hsrc, hid, -, -⟩ := hi.packet_from hw
  have hstart := hs p.other pkt.src hsrc
  rw [sentBy, hw, List.filter_cons_of_pos (by simp)] at hstart
  cases hm : n.mate p.other pkt.src with
  | some r =>
    -- The stream is known: its mate takes the frame.
    have hm' : n.mate p r = some pkt.src := by
      have hsymm := hi.mate_symm _ _ _ hm
      rwa [RammuxRole.other_other] at hsymm
    rw [hm] at hstart
    obtain ⟨s, hdel, ht, hinv⟩ := hi.delivers hc hw hm' none
    refine ⟨n, r, none, s, ⟨.inl ⟨rfl, rfl⟩, rfl, hm'⟩, hi, ?_, hdel, rfl, hinv, ?_⟩
    · rw [Streams.receive_of_lookup (hi.lookup_mate hw hm') hstart.1]
      exact hdel
    · refine starts_receiving hw hm' hm ht (fun q r' hr' _ _ => hs q r' hr') ?_ hstart.receive
      have hself := hs p r (hi.mate_lt p r _ hm')
      rwa [hm'] at hself
  | none =>
    -- The frame is the first of its stream: it has `SYN`, its ID is vacant, and there is room.
    rw [hm] at hstart
    have hi₁ := hi.accept hw hm
    have hrole : pkt.header.id.initiatedBy ≠ (n.ends p).role := by
      rw [hid, hi.initiatedBy hsrc hm, (hi.sane p).role]
      exact p.other_ne
    have hvacant := hi.lookup_eq_none hw hm
    have hgrows := hi.accept_grows hw hm
    obtain ⟨s, hdel, ht, hinv⟩ := hi₁.delivers hc hw accept_mate_new (some (n.ends p).next)
    have hends : (n.accept p pkt).ends p = (n.ends p).accept pkt.header.id := put_ends_self _ _ _
    refine ⟨n.accept p pkt, _, _, s, ⟨.inr ⟨rfl, hm, rfl, rfl⟩, rfl, accept_mate_new⟩, hi₁, ?_,
      hdel, ?_, hinv, ?_⟩
    · rw [Streams.receive_of_vacant hrole hvacant hstart.1 (hi.length_lt hc hw hm), ← hends]
      exact hdel
    · simp only [receiving, pair, Net.accept, put, Function.update_idem]
    · -- The new stream is started, and for the others nothing has changed.
      have hstarted : (n.accept p pkt).started p (n.ends p).next = true := by
        rw [started, hends]
        simp [Streams.accept, Streams.create]
      refine starts_receiving hw accept_mate_new accept_mate_src ht
        (fun q r' hr' hq hq' => ?_) ?_ ?_
      · rcases hgrows.lt_cases hr' with hr' | ⟨rfl, rfl⟩
        · have hmate : (n.accept p pkt).mate q r' = n.mate q r' := by
            rcases p.eq_or_eq_other q with rfl | rfl
            · rw [accept_mate_self, Function.update_of_ne (hq rfl)]
            · rw [accept_mate_other, Function.update_of_ne (hq' rfl)]
          rw [hmate, hgrows.sentBy, started, (hgrows.old hr').2.2]
          exact hs q r' hr'
        · exact absurd rfl (hq rfl)
      · rw [hstarted, hgrows.sentBy, hi.sentBy_next]
        rfl
      · rw [started, (hgrows.old hsrc).2.2]
        exact hstart.receive

end Receiving

/-! ## Runs -/

/-- The application opens a stream, or is told that it cannot. -/
theorem Inv.open {key : ℕ} {o : Streams.Output} (hi : n.Inv config) (hs : n.Starts)
    (h : n.act p (.open key) = .ok (o, n')) : n'.Inv config ∧ n'.Starts := by
  obtain ⟨s, hstep, rfl⟩ := act_eq_ok.mp h
  simp only [Streams.step] at hstep
  split at hstep
  · next hkey =>
    cases hstep
    rcases Streams.openOutbound_cases hkey with hopen | ⟨id, s, hopen, hid, heq, hcreated⟩
    · rw [hopen, put_self]
      exact ⟨hi, hs⟩
    · rw [hopen]
      refine hi.opened hs ⟨?_, put_ends_other _ _ _, rfl⟩ rfl
        ((StreamId.fromSlabIdx_eq_some hid).2.trans (hi.sane p).role) ?_
      · rw [put_ends_self]
        exact hcreated
      · rw [put_ends_self, heq]
        exact Function.update_self _ _ _
  · cases hstep
    rw [put_self]
    exact ⟨hi, hs⟩

/-- What an endpoint answers to anything but a frame is no violation. -/
theorem output_of_act {a : Streams.Action} {o : Streams.Output} (h : n.act p a = .ok (o, n'))
    (ha : ∀ header data, a ≠ .receive header data) (v : StreamViolation) :
    o ≠ .received (.error v) := by
  rintro rfl
  obtain ⟨s, hstep, -⟩ := act_eq_ok.mp h
  obtain ⟨header, data, rfl, -⟩ := Streams.step_received hstep
  exact ha header data rfl

/-- How a delivery looks to the endpoint that receives. -/
theorem step_deliver {o : Streams.Output} (hc : Compatible config) (hi : n.Inv config)
    (hs : n.Starts) (h : n.step (.deliver p.other) = .ok (o, n')) :
    (n.wire p.other = [] ∧ o = .none ∧ n' = n) ∨
      ∃ pkt rest n₁ r newStream s, n.wire p.other = pkt :: rest ∧ n.Takes p pkt n₁ r newStream ∧
        n₁.Inv config ∧ o = .received (.ok newStream) ∧
        (n₁.ends p).deliver r pkt.header pkt.data newStream = .ok (.ok newStream, s) ∧
        n' = n₁.receiving p s rest ∧ n'.Inv config ∧ n'.Starts := by
  simp only [step] at h
  split at h
  · next hw =>
    cases h
    exact .inl ⟨hw, rfl, rfl⟩
  · next pkt rest hw =>
    obtain ⟨n₁, r, newStream, s, htakes, hi₁, hrec, hdel, heq, hinv, hstarts⟩ :=
      hi.receives hs hc hw
    simp only [Lib.bind_eq_ok, RammuxRole.other_other] at h
    obtain ⟨⟨o', n₂⟩, hact, h⟩ := h
    cases h
    obtain ⟨s', hstep, rfl⟩ := act_eq_ok.mp hact
    simp only [Streams.step, hrec] at hstep
    cases hstep
    refine .inr ⟨pkt, rest, n₁, r, newStream, s, hw, htakes, hi₁, rfl, hdel, heq, ?_⟩
    exact heq ▸ ⟨hinv, hstarts⟩

/-- Every step keeps the invariant, and no endpoint reports a violation. -/
theorem step_inv {a : Action} {o : Streams.Output} (hc : Compatible config) (hi : n.Inv config)
    (hs : n.Starts) (h : n.step a = .ok (o, n')) :
    (n'.Inv config ∧ n'.Starts) ∧ ∀ v, o ≠ .received (.error v) := by
  cases a with
  | «open» p key => exact ⟨hi.open hs h, output_of_act h nofun⟩
  | app p r op => exact ⟨hi.app hs h, output_of_act h nofun⟩
  | poll p r allowance =>
    simp only [step, Lib.bind_eq_ok] at h
    obtain ⟨⟨o', n₁⟩, hact, h⟩ := h
    cases h
    exact ⟨hi.poll hs hact, output_of_act hact nofun⟩
  | observe p rtt => exact ⟨hi.observe hs h, output_of_act h nofun⟩
  | deliver q =>
    obtain ⟨p, rfl⟩ : ∃ p : RammuxRole, q = p.other := ⟨q.other, q.other_other.symm⟩
    rcases step_deliver hc hi hs h with ⟨-, rfl, rfl⟩ |
      ⟨pkt, rest, n₁, r, newStream, s, -, -, -, rfl, -, -, hinv⟩
    · exact ⟨⟨hi, hs⟩, nofun⟩
    · exact ⟨hinv, nofun⟩

/-- The invariant holds in every run. -/
theorem inv_of_run {tr : List (Action × Streams.Output)} (hc : Compatible config)
    (h : (machine config).Run tr n) : n.Inv config ∧ n.Starts :=
  h.invariant (I := fun _ n => n.Inv config ∧ n.Starts) ⟨inv_new config, starts_new config⟩
    fun _ _ _ _ _ _ hi hstep => (step_inv hc hi.1 hi.2 hstep).1

/-- Two endpoints with compatible configurations never accuse each other: no event of a run is a
violation, and the next frame in flight is accepted, whatever comes next. -/
theorem never_accuse {tr : List (Action × Streams.Output)} (hc : Compatible config)
    (h : (machine config).Run tr n) :
    (∀ e ∈ tr, ∀ v, e.2 ≠ .received (.error v)) ∧
      ∀ p pkt rest, n.wire p = pkt :: rest →
        ∃ newStream s, (n.ends p.other).receive pkt.header pkt.data = .ok (.ok newStream, s) := by
  refine ⟨?_, fun q pkt rest hw => ?_⟩
  · refine h.invariant (I := fun tr _ => ∀ e ∈ tr, ∀ v, e.2 ≠ .received (.error v)) nofun ?_
    intro tr n a o n' hrun hok hstep e he
    obtain ⟨hi, hs⟩ := inv_of_run hc hrun
    rcases List.mem_append.mp he with he | he
    · exact hok e he
    · rw [List.mem_singleton.mp he]
      exact (step_inv hc hi hs hstep).2
  · obtain ⟨hi, hs⟩ := inv_of_run hc h
    obtain ⟨p, rfl⟩ : ∃ p : RammuxRole, q = p.other := ⟨q.other, q.other_other.symm⟩
    obtain ⟨_, _, newStream, s, -, -, hrec, -⟩ := hi.receives hs hc hw
    rw [RammuxRole.other_other]
    exact ⟨newStream, s, hrec⟩

/-- Two endpoints with the tight configuration can talk to each other. -/
theorem compatible_tight : Compatible fun _ => Streams.tightConfig where
  validate _ := by decide
  frameLimit _ := rfl
  streams _ := le_rfl
  window _ := rfl
  pool _ := rfl

/-- A stream is used and closed by both sides, and its ID is used again: the second `SYN` is
accepted. -/
theorem never_accuse_reuse : ∃ tr n pkt, (machine fun _ => Streams.tightConfig).Run tr n ∧
    n.wire .client = [pkt] ∧ pkt.src = 1 ∧ (n.ends .client).ids 1 = (n.ends .client).ids 0 ∧
    ∃ newStream s, (n.ends .server).receive pkt.header pkt.data = .ok (.ok newStream, s) := by
  have h := Lib.Machine.Run.init (M := machine fun _ => Streams.tightConfig)
    |>.step (a := .open .client 0) rfl
    |>.step (a := .app .client 0 (.write [1, 2])) rfl
    |>.step (a := .app .client 0 .closeWriting) rfl
    |>.step (a := .app .client 0 .closeReading) rfl
    |>.step (a := .poll .client 0 0) (by with_unfolding_all rfl)
    |>.step (a := .deliver .client) (by with_unfolding_all rfl)
    |>.step (a := .app .server 0 .closeWriting) rfl
    |>.step (a := .app .server 0 .closeReading) rfl
    |>.step (a := .poll .server 0 0) (by with_unfolding_all rfl)
    |>.step (a := .deliver .server) (by with_unfolding_all rfl)
    |>.step (a := .open .client 0) rfl
    |>.step (a := .app .client 1 (.write [3])) rfl
    |>.step (a := .poll .client 1 0) (by with_unfolding_all rfl)
  refine ⟨_, _, _, h, rfl, rfl, ?_, (never_accuse compatible_tight h).2 .client _ [] rfl⟩
  decide +kernel

end Net

end Rammux
