import Rammux.Connection.Violations
import Rammux.Connection.Traces

/-!
# The tables of a connection

The tables, the tasks, the turn queue and the streams of an endpoint have lifetimes of their own,
and IDs are reused. `Consistent` says how they belong together in every reachable state, also when
the peer does not keep to the rules.

A stream is in the tables until its last `FIN_*`, and not after. `recordOf` is what the frames of a
run say about one stream, of all those that had its ID one after the other; the state of the stream
agrees with it (`Agrees`, as for the history of a connection), so that the step that removes the
stream is the one at which its record closes.
-/

namespace Rammux

namespace Streams

variable {s s' : Streams} {r : StreamRef}

/-! ## What the frames say about one stream -/

/-- A step of an endpoint. -/
abbrev Step := Lib.Machine.Taken Streams Action Output

/-- What a step adds to the record of a stream: a frame for the stream that was accepted, or one of
its own. -/
def after (r : StreamRef) (e : StreamRecord) (t : Step) : StreamRecord :=
  match t.action, t.answer with
  | .receive header data, .received (.ok _) =>
    if t.source.addressee t.target header = some r then e.received header data else e
  | .poll r' _, .polled (.ready u) => if r' = r then e.emitted u else e
  | _, _ => e

/-- What the frames of a run say about a stream. -/
def recordOf (steps : List Step) (r : StreamRef) : StreamRecord := steps.foldl (after r) {}

/-- The record of a run goes on with its last step. -/
theorem recordOf_snoc (steps : List Step) (t : Step) (r : StreamRef) :
    recordOf (steps ++ [t]) r = after r (recordOf steps r) t := by
  rw [recordOf, List.foldl_append]
  rfl

/-- What a step of another stream, or without a frame, adds: nothing. -/
theorem after_eq_self {e : StreamRecord} {a : Action} {o : Output}
    (hrec : ∀ header data, a = .receive header data → s.addressee s' header ≠ some r)
    (hpoll : ∀ allowance u, (a, o) ≠ (.poll r allowance, .polled (.ready u))) :
    after r e ⟨s, a, o, s'⟩ = e := by
  unfold after
  dsimp only
  split
  · exact if_neg (hrec _ _ rfl)
  · next r' allowance u =>
    refine if_neg fun hr => hpoll allowance u ?_
    rw [hr]
  · rfl

/-- A `FIN_*` is not taken back. -/
theorem closed_after {e : StreamRecord} {t : Step} (h : e.closed = true) :
    (after r e t).closed = true := by
  simp only [StreamRecord.closed, Bool.and_eq_true] at h
  obtain ⟨⟨⟨h₁, h₂⟩, h₃⟩, h₄⟩ := h
  unfold after
  split
  · split_ifs <;> simp [StreamRecord.closed, StreamRecord.received, h₁, h₂, h₃, h₄]
  · split_ifs <;> simp [StreamRecord.closed, StreamRecord.emitted, h₁, h₂, h₃, h₄]
  · simp [StreamRecord.closed, h₁, h₂, h₃, h₄]

/-- A stream that is closed stays so. -/
theorem closed_mono {steps : List Step} (more : List Step) (h : (recordOf steps r).closed = true) :
    (recordOf (steps ++ more) r).closed = true := by
  induction more using List.reverseRecOn with
  | nil => rwa [List.append_nil]
  | append_singleton more t ih =>
    rw [← List.append_assoc, recordOf_snoc]
    exact closed_after ih

/-- The states of the streams agree with their records. -/
structure Recorded (steps : List Step) (s : Streams) : Prop where
  agrees : ∀ r < s.next, (recordOf steps r).Agrees (s.state r)
  fresh : ∀ r, s.next ≤ r → recordOf steps r = {}

/-- What a step without a violation adds to the record of an old stream, its state has too. -/
theorem step_agrees {e : StreamRecord} {a : Action} {o : Output} (h : s.step a = .ok (o, s'))
    (hok : NoViolation (a, o)) (hr : r < s.next)
    (hcredit : (s.state r).inbound.credit ≤ (s.state r).inbound.window.unacked)
    (he : e.Agrees (s.state r)) : (after r e ⟨s, a, o, s'⟩).Agrees (s'.state r) := by
  cases step_stream h hr with
  | other hstate htask hwoken happ hpoll hrec =>
    -- Not addressed and not polled: neither the state nor the record has changed.
    rw [hstate, after_eq_self (fun header data ha hto => ?_) hpoll]
    · exact he
    · unfold addressee at hto
      split_ifs at hto with hsyn hnew
      · exact hr.ne (Option.some.inj hto).symm
      · exact hrec header data ha (by simpa using hsyn) hto
  | app ha ho happ hs =>
    -- The record is of what passed the wire, which the application has no part in.
    rw [hs, put_state_self, ha]
    exact he.used (StreamCtx.app_used happ)
  | @received header data verdict c ha ho hlookup hsyn hrec hs =>
    have hstate : s'.state r = c.state := by
      rw [hs]
      exact put_state_self _ _ _
    cases verdict with
    | error e => exact absurd ho (hok _)
    | ok fin =>
      obtain ⟨hin, hout, -⟩ := StreamCtx.received_eq_ok hrec
      have hto : s.addressee s' header = some r := (if_neg (by simp [hsyn])).trans hlookup
      rw [hstate, ha, ho]
      simp only [after, answer, if_pos hto]
      exact he.receive hin hout
  | @polled allowance task task' poll c ha htask hpoll hstate hwoken hres =>
    subst ha
    simp only [step, Lib.bind_eq_ok] at h
    obtain ⟨⟨res, s₁⟩, hupdate, h⟩ := h
    cases h
    rcases pollUpdate_sends hupdate with ⟨rfl, hs'⟩ | ⟨u, rfl, hsent⟩
    · rw [hs']
      exact he
    · simp only [after, if_true]
      exact he.emit hcredit hsent.inbound hsent.outbound

/-- A stream that a step starts has the record of the frame that started it. -/
theorem Started.agrees {a : Action} {o : Output} (h : s.Started a o s') (hok : NoViolation (a, o))
    (hnext : s'.next = s.next + 1) : (after s.next {} ⟨s, a, o, s'⟩).Agrees (s'.state s.next) := by
  cases h with
  | opened ha ho hid hrole hids hstate =>
    rw [ha, ho, hstate]
    exact StreamRecord.Agrees.new s.config
  | @accepted header data verdict c ha ho hrole hvacant hsyn hrec hs =>
    have hstate : s'.state s.next = c.state := by
      rw [hs]
      exact put_state_self _ _ _
    cases verdict with
    | error e => exact absurd ho (hok _)
    | ok fin =>
      obtain ⟨hin, hout, -⟩ := StreamCtx.received_eq_ok hrec
      have hto : s.addressee s' header = some s.next :=
        (if_pos hsyn).trans (if_pos (by rw [hnext]; exact Nat.lt_succ_self _))
      have hnew : ({} : StreamRecord).Agrees ((s.accept header.id).ctx s.next).state := by
        rw [show ((s.accept header.id).ctx s.next).state = StreamState.new s.config from
          Function.update_self _ _ _]
        exact StreamRecord.Agrees.new s.config
      rw [hstate, ha, ho]
      simp only [after, answer, if_pos hto]
      exact hnew.receive hin hout

/-- A step does nothing to streams that are not started. -/
theorem after_fresh {e : StreamRecord} {a : Action} {o : Output} (ht : s.Tables)
    (h : s.step a = .ok (o, s')) (hr : s'.next ≤ r) (hle : s.next ≤ s'.next) :
    after r e ⟨s, a, o, s'⟩ = e := by
  refine after_eq_self (fun header data ha hto => ?_) fun allowance u hau => ?_
  · unfold addressee at hto
    split_ifs at hto with hsyn hnew
    · have hr' : s.next = r := Option.some.inj hto
      exact absurd (hr'.symm ▸ hr) (Nat.not_le_of_lt hnew)
    · exact absurd (ht.lookup _ _ hto).1 (Nat.not_lt_of_le (hle.trans hr))
  · obtain ⟨rfl, rfl⟩ := Prod.mk.inj hau
    have hnone := emitted_eq_none h ht (hle.trans hr)
    simp [emitted] at hnone

/-- Along a path without a violation, the states of the streams agree with their records. -/
theorem recorded_of_path {role : RammuxRole} {config : RammuxConfig} {steps : List Step}
    (h : (machine role config).Path (machine role config).init steps s)
    (hok : ∀ t ∈ steps, NoViolation t.event) : Recorded steps s := by
  have hall := Lib.Machine.Path.invariant (M := machine role config)
    (I := fun steps s => (∀ t ∈ steps, NoViolation t.event) →
      (machine role config).Run (steps.map Lib.Machine.Taken.event) s ∧ Recorded steps s)
    (fun steps s a o s' ih hstep hok => ?_) h [] fun _ => ⟨.init, ?_⟩
  · exact (hall hok).2
  · have hbefore : ∀ t ∈ steps, NoViolation t.event := fun t ht => hok t (List.mem_append_left _ ht)
    have hlast : NoViolation (a, o) := hok ⟨s, a, o, s'⟩ (by simp)
    obtain ⟨hrun, hrec⟩ := ih hbefore
    have ht := tables_of_run hrun
    have hh := held_of_run hrun (fun e he => by
      obtain ⟨t, ht, rfl⟩ := List.mem_map.mp he
      exact hbefore t ht)
    refine ⟨by rw [List.map_append]; exact hrun.step hstep, fun r hr => ?_, fun r hr => ?_⟩
    · rw [recordOf_snoc]
      by_cases hold : r < s.next
      · exact step_agrees hstep hlast hold (hh.wfIn r hold).credit_le (hrec.agrees r hold)
      · rcases step_next hstep with hnext | ⟨hnext, hstarted⟩
        · exact absurd (hnext ▸ hr) hold
        · obtain rfl : r = s.next := by
            rw [hnext] at hr
            exact Nat.le_antisymm (Nat.le_of_lt_succ hr) (Nat.le_of_not_lt hold)
          rw [hrec.fresh s.next le_rfl]
          exact hstarted.agrees hlast hnext
    · have hle := next_le_of_step hstep
      rw [recordOf_snoc, after_fresh ht hstep hr hle]
      exact hrec.fresh r (hle.trans hr)
  · exact ⟨fun r hr => absurd hr (Nat.not_lt_zero r), fun _ _ => rfl⟩

/-! ## Streams of our own -/

/-- The live streams that we started. -/
def liveOutbound (s : Streams) : Finset StreamRef := {r ∈ s.live | (s.ids r).initiatedBy = s.role}

/-- A stream is live while its ID leads to it. -/
theorem mem_live : r ∈ s.live ↔ r < s.next ∧ s.lookup (s.ids r) = some r := by
  rw [live, Finset.mem_filter, Finset.mem_range]

/-- The slab holds the live streams that we started. -/
theorem Tables.outbound_len (ht : s.Tables) : s.outbound.len = s.liveOutbound.card := by
  -- A slot that holds a stream is the slot of its ID.
  have hslot : ∀ {k r}, s.outbound.get k = some r →
      (s.ids r).slabIdx = k ∧ (s.ids r).initiatedBy = s.role := fun hk =>
    StreamId.fromSlabIdx_eq_some (ht.get _ _ hk)
  have hlookup : ∀ {k r}, s.outbound.get k = some r → s.lookup (s.ids r) = some r := by
    intro k r hk
    rw [lookup_own (hslot hk).2, (hslot hk).1, hk]
  rw [Lib.Slab.len_eq_card]
  refine Finset.card_nbij' (fun k => (s.outbound.get k).getD 0) (fun r => (s.ids r).slabIdx)
    (fun k hk => ?_) (fun r hr => ?_) (fun k hk => ?_) (fun r hr => ?_)
  · obtain ⟨r, hr⟩ := Option.isSome_iff_exists.mp (Finset.mem_filter.mp hk).2
    have hget := hlookup hr
    simp only [hr, Option.getD_some, liveOutbound, Finset.coe_filter, Set.mem_ofPred_eq, mem_live]
    exact ⟨⟨(ht.lookup _ r hget).1, hget⟩, (hslot hr).2⟩
  · obtain ⟨hlive, hrole⟩ := Finset.mem_filter.mp hr
    have hget := (mem_live.mp hlive).2
    rw [lookup_own hrole] at hget
    simp only [Finset.coe_filter, Set.mem_ofPred_eq, Finset.mem_range, hget, Option.isSome_some,
      and_true]
    exact Lib.Slab.lt_slots_of_get hget
  · obtain ⟨r, hr⟩ := Option.isSome_iff_exists.mp (Finset.mem_filter.mp hk).2
    simp only [hr, Option.getD_some]
    exact (hslot hr).1
  · obtain ⟨hlive, hrole⟩ := Finset.mem_filter.mp hr
    have hget := (mem_live.mp hlive).2
    rw [lookup_own hrole] at hget
    simp only [hget, Option.getD_some]

/-- Every slot below the number of IDs has one. -/
theorem fromSlabIdx_isSome {key : ℕ} (role : RammuxRole) (h : key < maxStreamsPerSide) :
    ∃ id, StreamId.fromSlabIdx key role = some id := by
  unfold maxStreamsPerSide at h
  unfold StreamId.fromSlabIdx
  refine ⟨_, if_pos ?_⟩
  split_ifs <;> omega

/-- A validated configuration allows no more streams than there are IDs. -/
theorem maxOutbound_le_of_validate {config : RammuxConfig} (h : config.validate = .ok ()) :
    config.maxOutboundStreams ≤ maxStreamsPerSide := by
  unfold RammuxConfig.validate at h
  split_ifs at h
  omega

/-- IDs do not run out early: with a validated configuration, after any run, and in whichever slot
the slab offers, a stream is opened if and only if fewer streams of ours are live than the
configuration allows. Its ID is ours, no live stream has it, and it leads to the slot of the
stream. -/
theorem ids_suffice {role : RammuxRole} {config : RammuxConfig} (hconfig : config.validate = .ok ())
    {tr : List (Action × Output)} {s : Streams} (h : (machine role config).Run tr s) :
    (∃ key, s.outbound.Vacant key) ∧ ∀ key, s.outbound.Vacant key →
      ((s.openOutbound key).1.isSome ↔ s.liveOutbound.card < config.maxOutboundStreams) ∧
      ∀ r s', s.openOutbound key = (some r, s') →
        (s'.ids r).initiatedBy = role ∧ (∀ r' ∈ s.live, s.ids r' ≠ s'.ids r) ∧
        (s'.ids r).slabIdx = key ∧ s'.outbound.get key = some r := by
  have ht := tables_of_run h
  obtain ⟨rfl, rfl⟩ := same_of_run h
  refine ⟨s.outbound.exists_vacant, fun key hkey => ⟨?_, fun r s' hopen => ?_⟩⟩
  · rw [← ht.outbound_len]
    unfold openOutbound
    split_ifs with hlimit
    · exact iff_of_false (by simp) (by omega)
    · -- Below the limit the slot is small enough for an ID, which validation has seen to.
      have hlt : key < s.config.maxOutboundStreams := hkey.lt ht.slots (by omega)
      obtain ⟨id, hid⟩ := fromSlabIdx_isSome s.role
        (hlt.trans_le (maxOutbound_le_of_validate hconfig))
      rw [hid]
      exact iff_of_true rfl (by omega)
  · rcases openOutbound_cases hkey with hnone | ⟨id, s₁, hsome, hid, -, hcreated⟩
    · rw [hnone] at hopen
      cases hopen
    · rw [hsome] at hopen
      cases hopen
      obtain ⟨hidx, hrole⟩ := StreamId.fromSlabIdx_eq_some hid
      rw [hcreated.new.2.1]
      -- The slot was vacant, so no live stream has its ID.
      refine ⟨hrole, fun r' hr' hsame => ?_, hidx, ?_⟩
      · have hlookup := (mem_live.mp hr').2
        rw [hsame, hcreated.vacant] at hlookup
        cases hlookup
      · have hself := hcreated.lookup_self
        rw [lookup_own (hrole.trans hcreated.same.1.symm), hidx] at hself
        exact hself

/-- With one stream allowed, a second one is not opened until the first is closed by both sides;
then it takes its slot. -/
theorem ids_suffice_reused :
    let config : RammuxConfig := { tightConfig with maxOutboundStreams := 1 }
    config.validate = .ok () ∧ ∃ tr s, (machine .client config).Run tr s ∧
      tr.map Prod.fst = [.open 0, .open 1, .app 0 .closeReading, .app 0 .closeWriting, .poll 0 0,
        .receive ⟨⟨0⟩, { finRead := true, finWrite := true }, none, none⟩ []] ∧
      tr[1]?.map Prod.snd = some (.opened none) ∧
      (s.openOutbound 0).1.isSome ∧ ∀ r s', s.openOutbound 0 = (some r, s') →
        (s'.ids r).slabIdx = 0 := by
  intro config
  have hvalid : config.validate = .ok () := by decide
  have h := Lib.Machine.Run.init (M := machine .client config)
    |>.step (a := .open 0) (by with_unfolding_all rfl)
    |>.step (a := .open 1) (by with_unfolding_all rfl)
    |>.step (a := .app 0 .closeReading) (by with_unfolding_all rfl)
    |>.step (a := .app 0 .closeWriting) (by with_unfolding_all rfl)
    |>.step (a := .poll 0 0) (by with_unfolding_all rfl)
    |>.step (a := .receive ⟨⟨0⟩, { finRead := true, finWrite := true }, none, none⟩ [])
      (by with_unfolding_all rfl)
  obtain ⟨hiff, hopened⟩ := (ids_suffice hvalid h).2 0 (by decide +kernel)
  exact ⟨hvalid, _, _, h, rfl, rfl, hiff.mpr (by decide +kernel),
    fun r s' hopen => (hopened r s' hopen).2.2.1⟩

/-! ## Streams of the peer -/

/-- A table whose IDs are all in a list is no longer than the list. -/
theorem length_entries_le {s : Streams} (ids : List StreamId) (h : ∀ id ∈ s.inbound, id ∈ ids) :
    s.inbound.entries.length ≤ ids.length := by
  have hsub := s.inbound.keys_nodup.subperm h
  simpa [AList.keys, List.keys] using hsub.length_le

/-- The table of the peer's streams grows only below the limit. -/
theorem step_inbound_limit {a : Action} {o : Output} (ht : s.Tables) (h : s.step a = .ok (o, s'))
    (hle : s.inbound.entries.length ≤ s.config.maxInboundStreams) :
    s'.inbound.entries.length ≤ s.config.maxInboundStreams := by
  have hlength : s.inbound.keys.length = s.inbound.entries.length := List.length_map _
  -- A step that starts no stream of the peer leaves a subset of the table.
  have hkept : (∀ id, id ∈ s'.inbound → id ∈ s.inbound) →
      s'.inbound.entries.length ≤ s.config.maxInboundStreams := fun hsub => by
    have := length_entries_le s.inbound.keys hsub
    omega
  cases a with
  | «open» key =>
    simp only [step] at h
    split at h
    · next hkey =>
      cases h
      rcases openOutbound_cases hkey with hopen | ⟨id, s₁, hopen, hid, -, hcreated⟩
      · rw [hopen]
        exact hle
      · -- A new stream of this side is not in the table of the peer's.
        rw [hopen] at hkept ⊢
        refine hkept fun id' hid' => (hcreated.peers id' hid').resolve_right fun hnew => ?_
        exact hnew.2 (StreamId.fromSlabIdx_eq_some hid).2
    · cases h
      exact hle
  | receive header data =>
    simp only [step, Lib.bind_eq_ok] at h
    obtain ⟨⟨res, s₁⟩, hrec, h⟩ := h
    cases h
    rcases receive_eq_ok hrec with ⟨e, -, rfl⟩ | ⟨r, hr, -, hdel⟩ |
      ⟨hrole, hvacant, -, hlimit, hdel⟩
    · exact hle
    · exact hkept (deliver_touched hdel hr (ht.lookup _ _ hr).2.symm).peers
    · -- The frame started a stream, which there was room for.
      have hcreated := accept_created hrole hvacant
      have hpeers := (deliver_touched hdel hcreated.lookup_self hcreated.new.2.1.symm).peers
      have hcount := length_entries_le (s := s₁) (header.id :: s.inbound.keys)
        fun id hid => by
          rcases hcreated.peers id (hpeers id hid) with hold | ⟨rfl, -⟩
          · exact List.mem_cons_of_mem _ hold
          · exact List.mem_cons_self
      rw [List.length_cons] at hcount
      dsimp only
      omega
  | poll r allowance =>
    -- A poll can only take a stream out of the table.
    simp only [step, Lib.bind_eq_ok] at h
    obtain ⟨⟨res, s₁⟩, hpoll, h⟩ := h
    cases h
    by_cases htask : s.updates r = none
    · rcases pollUpdate_eq_ok hpoll with ⟨-, -, rfl⟩ | ⟨task, _, _, _, hsome, -⟩
      · exact hle
      · rw [htask] at hsome
        cases hsome
    · obtain ⟨task, htask⟩ := Option.ne_none_iff_exists'.mp htask
      exact hkept (pollUpdate_touched hpoll ht (ht.taskId r task htask).1).peers
  | app r op =>
    simp only [step] at h
    split at h
    · simp only [Lib.bind_eq_ok] at h
      obtain ⟨⟨res, c⟩, -, h⟩ := h
      cases h
      exact hle
    · cases h
      exact hle
  | observe rtt =>
    cases h
    exact hle

/-- The limit of the streams that the peer starts is kept in every run. -/
theorem inbound_limit_of_run {role : RammuxRole} {config : RammuxConfig}
    {tr : List (Action × Output)} (h : (machine role config).Run tr s) :
    s.inbound.entries.length ≤ config.maxInboundStreams := by
  refine Lib.Machine.Run.invariant
    (I := fun _ s => s.inbound.entries.length ≤ config.maxInboundStreams) (Nat.zero_le _) ?_ h
  intro tr s a o s' hrun hle hstep
  have hconfig := (same_of_run hrun).2
  have hnext := step_inbound_limit (tables_of_run hrun) hstep (hconfig ▸ hle)
  rwa [hconfig] at hnext

/-! ## The tables over whole runs -/

/-- How the tables, the tasks and the turn queue belong together. -/
structure Consistent (role : RammuxRole) (config : RammuxConfig) (steps : List Step) (s : Streams) :
    Prop where
  /-- A stream of ours is in the slot of its ID, which has our parity. -/
  outbound : ∀ key r, s.outbound.get key = some r → r < s.next ∧ (s.ids r).initiatedBy = role ∧
    (s.ids r).slabIdx = key
  inbound : ∀ id r, s.inbound.lookup id = some r → r < s.next ∧ s.ids r = id ∧
    id.initiatedBy ≠ role
  outboundLimit : s.outbound.len ≤ config.maxOutboundStreams
  inboundLimit : s.inbound.entries.length ≤ config.maxInboundStreams
  /-- A task belongs to one entry, with its ID and its state. -/
  task : ∀ r task, s.updates r = some task → s.lookup task.id = some r ∧
    ∀ id, s.lookup id = some r → id = task.id
  /-- An entry without a task has sent both of its `FIN_*`s. -/
  done : ∀ id r, s.lookup id = some r → s.updates r = none →
    (∃ u ∈ updatesOf (steps.map Lib.Machine.Taken.event) r, u.flags.finRead = true) ∧
      ∃ u ∈ updatesOf (steps.map Lib.Machine.Taken.event) r, u.flags.finWrite = true
  queue : ∀ r ∈ s.flow.turns.queue, s.updates r ≠ none

/-- Which stream the frames of a step are for: always the one that has the ID at that time. -/
structure Applied (t : Step) : Prop where
  update : ∀ r allowance u, (t.action, t.answer) = (.poll r allowance, .polled (.ready u)) →
    t.source.lookup u.id = some r
  frame : ∀ header data newStream r, t.action = .receive header data →
    t.answer = .received (.ok newStream) → t.source.addressee t.target header = some r →
    t.target.ids r = header.id ∧
      (t.source.lookup header.id = some r ∨
        (t.source.lookup header.id = none ∧ r = t.source.next))

/-- Every path keeps the tables, the tasks and the streams consistent. -/
theorem consistent_of_path {role : RammuxRole} {config : RammuxConfig} {steps : List Step}
    (h : (machine role config).Path (machine role config).init steps s) :
    Consistent role config steps s := by
  have hrun := h.run
  have ht := tables_of_run hrun
  have hlimit := inbound_limit_of_run hrun
  obtain ⟨rfl, rfl⟩ := same_of_run hrun
  refine ⟨fun key r hr => ?_, fun id r hr => ?_, ?_, hlimit, fun r task htask => ?_,
    fun id r hr hnone => ?_, (wakeful_of_run hrun).queued⟩
  · obtain ⟨hidx, hrole⟩ := StreamId.fromSlabIdx_eq_some (ht.get key r hr)
    refine ⟨(ht.lookup (s.ids r) r ?_).1, hrole, hidx⟩
    rw [lookup_own hrole, hidx, hr]
  · have hrole := ht.peers id (AList.lookup_isSome.mp (by rw [hr]; rfl))
    obtain ⟨hrn, hid⟩ := ht.lookup id r (by rw [lookup_peer hrole, hr])
    exact ⟨hrn, hid, hrole⟩
  · calc s.outbound.len ≤ s.outbound.slots := List.countP_le_length
      _ ≤ s.config.maxOutboundStreams := ht.slots
  · obtain ⟨-, hid⟩ := ht.taskId r task htask
    rw [hid]
    exact ⟨ht.lookup_of_task htask, fun id hr => (ht.lookup id r hr).2.symm⟩
  · have hrn := (ht.lookup id r hr).1
    have hsent := StreamState.sent_iff.mp ((ht.task r hrn).mp hnone)
    have htraced := (traced_of_run hrun).emitted r hrn
    exact ⟨htraced.finRead.mp hsent.1, htraced.finWrite.mp hsent.2⟩

/-- A stream keeps its ID. -/
theorem step_ids {a : Action} {o : Output} (ht : s.Tables) (h : s.step a = .ok (o, s'))
    (hr : r < s.next) : r < s'.next ∧ s'.ids r = s.ids r := by
  cases step_stepped ht h with
  | idle h | observed _ h =>
    rw [h]
    exact ⟨hr, rfl⟩
  | created id hc => exact ⟨hc.same.2.2.1 ▸ Nat.lt_succ_of_lt hr, (hc.old hr).2.1⟩
  | touched r' _ htouch => exact ⟨htouch.next ▸ hr, by rw [htouch.ids]⟩
  | accepted id s₁ hc htouch =>
    refine ⟨?_, ?_⟩
    · rw [htouch.next, hc.same.2.2.1]
      exact Nat.lt_succ_of_lt hr
    · rw [htouch.ids]
      exact (hc.old hr).2.1

/-- A stream keeps its ID along a path. -/
theorem path_ids {role : RammuxRole} {config : RammuxConfig} {steps : List Step}
    (h : (machine role config).Path s steps s') (ht : s.Tables) (hr : r < s.next) :
    r < s'.next ∧ s'.ids r = s.ids r := by
  have hall := Lib.Machine.Path.invariant (M := machine role config)
    (I := fun _ u => u.Tables ∧ r < u.next ∧ u.ids r = s.ids r)
    (fun _ u a o u' ⟨ht, hr, hid⟩ hstep => ?_) h [] ⟨ht, hr, rfl⟩
  · exact hall.2
  · obtain ⟨hr', hid'⟩ := step_ids ht hstep hr
    exact ⟨step_tables ht hstep, hr', hid'.trans hid⟩

/-- A frame that is refused removes no stream; it may have started one. -/
theorem refused_lookup {a : Action} {v : StreamViolation}
    (h : s.step a = .ok (.received (.error v), s')) :
    (∀ r < s.next, ∀ id, s'.lookup id = some r ↔ s.lookup id = some r) ∧
      (s.next < s'.next → s'.lookup (s'.ids s.next) = some s.next) := by
  obtain ⟨header, data, -, hrec⟩ := step_received h
  -- A stream that refuses a frame stays where it is.
  have hput : ∀ {s : Streams} {r newStream}, s.deliver r header data newStream =
      .ok (.error v, s') → ∃ c, s' = s.put r c := by
    intro s r newStream hdel
    obtain ⟨c, verdict, -, ⟨e, -, -, hs'⟩ | ⟨fin, -, hres, -⟩⟩ := deliver_eq_ok hdel
    · exact ⟨c, hs'⟩
    · cases hres
  rcases receive_eq_ok hrec with ⟨e, -, rfl⟩ | ⟨r, -, -, hdel⟩ | ⟨hrole, hvacant, -, -, hdel⟩
  · exact ⟨fun _ _ _ => Iff.rfl, fun hlt => absurd hlt (Nat.lt_irrefl _)⟩
  · obtain ⟨c, rfl⟩ := hput hdel
    exact ⟨fun _ _ _ => Iff.rfl, fun hlt => absurd hlt (Nat.lt_irrefl _)⟩
  · obtain ⟨c, rfl⟩ := hput hdel
    have hcreated := accept_created hrole hvacant
    refine ⟨fun r hr id => ?_, fun _ => ?_⟩
    · change (s.accept header.id).lookup id = some r ↔ _
      by_cases hid : id = header.id
      · rw [hid, hcreated.lookup_self, hvacant]
        exact iff_of_false (fun hsome => hr.ne (Option.some.inj hsome).symm) nofun
      · rw [hcreated.lookup_ne id hid]
    · change (s.accept header.id).lookup ((s.accept header.id).ids s.next) = some s.next
      rw [hcreated.new.2.1, hcreated.lookup_self]

/-- A violation ends the connection, so only the last step of a run can be one. -/
def Orderly (steps : List Step) : Prop := ∀ t ∈ steps.dropLast, NoViolation t.event

/-- A stream is in the tables exactly until its record closes. -/
theorem lookup_iff_open {role : RammuxRole} {config : RammuxConfig} {steps : List Step}
    (h : (machine role config).Path (machine role config).init steps s) (hok : Orderly steps) :
    (∀ r < s.next, s.lookup (s.ids r) = some r ↔ (recordOf steps r).closed = false) ∧
      ∀ r, s.next ≤ r → recordOf steps r = {} := by
  have haccepted : ∀ {steps s}, (machine role config).Path (machine role config).init steps s →
      (∀ t ∈ steps, NoViolation t.event) →
      (∀ r < s.next, s.lookup (s.ids r) = some r ↔ (recordOf steps r).closed = false) ∧
        ∀ r, s.next ≤ r → recordOf steps r = {} := by
    intro steps s h hok
    have hrec := recorded_of_path h hok
    have ht := tables_of_run h.run
    have hh : s.Held := held_of_run h.run fun e he => by
      obtain ⟨t, ht, rfl⟩ := List.mem_map.mp he
      exact hok t ht
    refine ⟨fun r hr => ?_, hrec.fresh⟩
    rw [← Bool.not_eq_true, ← (hrec.agrees r hr).isDead]
    exact ⟨hh.alive _ r, ht.listed r hr⟩
  rcases List.eq_nil_or_concat steps with rfl | ⟨pre, t, rfl⟩
  · exact haccepted h (by simp)
  rw [List.concat_eq_append] at h hok ⊢
  rw [Orderly, List.dropLast_concat] at hok
  by_cases hlast : NoViolation t.event
  · refine haccepted h fun t' ht' => ?_
    rw [List.mem_append, List.mem_singleton] at ht'
    rcases ht' with ht' | rfl
    · exact hok t' ht'
    · exact hlast
  -- The last frame was refused: it adds nothing, and removes nothing.
  · obtain ⟨hpre, hstep, hnil⟩ := h.split
    obtain rfl : t.target = s := by cases hnil; rfl
    obtain ⟨hopen, hfresh⟩ := haccepted hpre hok
    obtain ⟨v, hv⟩ := not_forall.mp hlast
    have hanswer : t.answer = .received (.error v) := not_not.mp hv
    have hafter : ∀ r, recordOf (pre ++ [t]) r = recordOf pre r := fun r => by
      rw [recordOf_snoc]
      unfold after
      rw [hanswer]
      split
      · next hres => cases hres
      · next hres => cases hres
      · rfl
    rw [hanswer] at hstep
    obtain ⟨hold, hnew⟩ := refused_lookup hstep
    refine ⟨fun r hr => ?_, fun r hr => ?_⟩
    · rw [hafter]
      by_cases hlt : r < t.source.next
      · rw [← hopen r hlt, hold r hlt, (step_ids (tables_of_run hpre.run) hstep hlt).2]
      · rcases step_next hstep with hnext | ⟨hnext, -⟩
        · exact absurd (hnext ▸ hr) hlt
        · obtain rfl : r = t.source.next := by
            rw [hnext] at hr
            exact Nat.le_antisymm (Nat.le_of_lt_succ hr) (Nat.le_of_not_lt hlt)
          rw [hfresh _ le_rfl]
          exact iff_of_true (hnew hr) rfl
    · rw [hafter]
      refine hfresh r (Nat.le_trans ?_ hr)
      rcases step_next hstep with hnext | ⟨hnext, -⟩
      · exact hnext.ge
      · rw [hnext]
        exact Nat.le_succ _

/-- What a step sends and receives is for the streams that have the IDs at that time. -/
theorem applied_of_step {a : Action} {o : Output} (ht : s.Tables) (h : s.step a = .ok (o, s')) :
    Applied ⟨s, a, o, s'⟩ where
  update r allowance u hau := by
    obtain ⟨rfl, rfl⟩ := Prod.mk.inj hau
    simp only [step, Lib.bind_eq_ok] at h
    obtain ⟨⟨res, s₁⟩, hpoll, h⟩ := h
    cases h
    rcases pollUpdate_sends hpoll with ⟨hres, -⟩ | ⟨u', hres, hsent⟩
    · cases hres
    · cases hres
      obtain ⟨task, htask, hid, -⟩ := hsent.task
      rw [hid, (ht.taskId r task htask).2]
      exact ht.lookup_of_task htask
  frame header data newStream r ha ho hto := by
    dsimp only at ha ho hto ⊢
    subst ha ho
    have hnext := step_next h
    unfold addressee at hto
    split_ifs at hto with hsyn hnew
    · obtain rfl : s.next = r := Option.some.inj hto
      rcases hnext with hsame | ⟨-, hstarted⟩
      · exact absurd hnew (hsame ▸ Nat.lt_irrefl _)
      · cases hstarted with
        | opened ha => cases ha
        | @accepted header' data' verdict c ha ho hrole hvacant hsyn' hrec hs =>
          cases ha
          refine ⟨?_, .inr ⟨hvacant, rfl⟩⟩
          rw [hs]
          exact (accept_created hrole hvacant).new.2.1
    · obtain ⟨hrn, hid⟩ := ht.lookup _ r hto
      exact ⟨(step_ids ht h hrn).2.trans hid, .inl hto⟩

/-- A stream that is not started before a step has not closed after it. -/
theorem closed_of_not_old {role : RammuxRole} {config : RammuxConfig} {steps : List Step} {t : Step}
    (h : (machine role config).Path (machine role config).init (steps ++ [t]) s)
    (hok : ∀ u ∈ steps, NoViolation u.event) (hr : t.source.next ≤ r) :
    (recordOf (steps ++ [t]) r).closed = false := by
  obtain ⟨hbefore, hstep, -⟩ := h.split
  have hfresh := (recorded_of_path hbefore hok).fresh r hr
  -- The step cannot have sent a `FIN_READ` of the stream.
  have hsent : (recordOf (steps ++ [t]) r).finReadSent = false := by
    rw [recordOf_snoc, hfresh]
    unfold after
    split
    · split_ifs <;> rfl
    · next r' allowance u ha ho =>
      refine congrArg StreamRecord.finReadSent (if_neg fun hr' => ?_)
      have hnone := emitted_eq_none hstep (tables_of_run hbefore.run) hr
      rw [ha, ho] at hnone
      simp [emitted, hr'] at hnone
    · rfl
  rw [StreamRecord.closed, hsent]
  rfl

/-- The tables are consistent in every reachable state, whatever the peer sends. A stream is in them
exactly until the last of its four `FIN_*`s is sent or accepted: it is removed at that step, and at
no other, and does not come back; and whatever is sent or accepted is for the stream that has the ID
at the time. -/
theorem tables_consistent {role : RammuxRole} {config : RammuxConfig} {steps : List Step}
    {s : Streams} (h : (machine role config).Path (machine role config).init steps s) :
    Consistent role config steps s ∧ (∀ t ∈ steps, Applied t) ∧
    (Orderly steps →
      (∀ r < s.next, s.lookup (s.ids r) = some r ↔ (recordOf steps r).closed = false) ∧
      ∀ before t after, steps = before ++ t :: after → ∀ r < s.next,
        (t.source.lookup (s.ids r) = some r ∧ t.target.lookup (s.ids r) ≠ some r ↔
          (recordOf before r).closed = false ∧ (recordOf (before ++ [t]) r).closed = true) ∧
        ((recordOf (before ++ [t]) r).closed = true →
          ∀ t' ∈ after, t'.target.lookup (s.ids r) ≠ some r)) := by
  refine ⟨consistent_of_path h, fun t ht => ?_, fun hok => ⟨(lookup_iff_open h hok).1, ?_⟩⟩
  · obtain ⟨before, after, rfl⟩ := List.append_of_mem ht
    obtain ⟨hbefore, hstep, -⟩ := h.split
    exact applied_of_step (tables_of_run hbefore.run) hstep
  -- The path up to each of the steps, and the IDs that the streams have then.
  have hprefix : ∀ (pre post : List Step) (t : Step), steps = pre ++ t :: post →
      (machine role config).Path (machine role config).init (pre ++ [t]) t.target ∧
      (∀ t' ∈ pre, NoViolation t'.event) ∧ Orderly (pre ++ [t]) ∧
      ∀ r < t.target.next, s.ids r = t.target.ids r := by
    rintro pre post t rfl
    obtain ⟨hpre, hstep, hpost⟩ := h.split
    have hpath : (machine role config).Path (machine role config).init (pre ++ [t]) t.target :=
      hpre.trans (.cons hstep (.nil _))
    have hpok : ∀ t' ∈ pre, NoViolation t'.event := fun t' ht' => hok t' (by
      rw [List.dropLast_append_of_ne_nil (List.cons_ne_nil _ _)]
      exact List.mem_append_left _ ht')
    refine ⟨hpath, hpok, ?_, fun r hr => (path_ids hpost (tables_of_run hpath.run) hr).2⟩
    rwa [Orderly, List.dropLast_concat]
  rintro before t after rfl r -
  obtain ⟨hpath, hbok, hpok, hids⟩ := hprefix before after t rfl
  obtain ⟨hbefore, hstep, -⟩ := h.split
  have ht := tables_of_run hbefore.run
  refine ⟨?_, fun hclosed t' ht' => ?_⟩
  · by_cases hr : r < t.source.next
    · obtain ⟨hr', hid⟩ := step_ids ht hstep hr
      have hsource :=
        (lookup_iff_open hbefore fun u hu => hbok u (List.mem_of_mem_dropLast hu)).1 r hr
      rw [← hsource, ← Bool.not_eq_false (recordOf (before ++ [t]) r).closed,
        ← (lookup_iff_open hpath hpok).1 r hr', hids r hr', hid]
    · refine iff_of_false (fun hlookup => hr (ht.lookup _ r hlookup.1).1) fun hclosed => ?_
      rw [closed_of_not_old hpath hbok (Nat.le_of_not_lt hr)] at hclosed
      cases hclosed.2
  · obtain ⟨mid, rest, rfl⟩ := List.append_of_mem ht'
    obtain ⟨hpath', -, hpok', hids'⟩ := hprefix (before ++ t :: mid) rest t' (by simp)
    intro hlookup
    have hr' := ((tables_of_run hpath'.run).lookup _ r hlookup).1
    rw [hids' r hr', (lookup_iff_open hpath' hpok').1 r hr'] at hlookup
    have hmono := closed_mono (mid ++ [t']) hclosed
    rw [show before ++ [t] ++ (mid ++ [t']) = before ++ t :: mid ++ [t'] by simp, hlookup] at hmono
    cases hmono

/-- A stream is closed by both sides, and another one gets its ID: the first one is removed at the
frame with the last two `FIN_*`s. -/
theorem tables_consistent_reused : ∃ before t after s,
    (machine .client tightConfig).Path (machine .client tightConfig).init
      (before ++ t :: after) s ∧
    (before ++ t :: after).map Lib.Machine.Taken.action = [.open 0, .app 0 .closeReading,
      .app 0 .closeWriting, .poll 0 0,
      .receive ⟨⟨0⟩, { finRead := true, finWrite := true }, none, none⟩ [], .open 0] ∧
    s.next = 2 ∧ s.ids 1 = s.ids 0 ∧
    (recordOf before 0).closed = false ∧ (recordOf (before ++ [t]) 0).closed = true ∧
    t.source.lookup (s.ids 0) = some 0 ∧ t.target.lookup (s.ids 0) ≠ some 0 := by
  have hpath : (machine .client tightConfig).Path (machine .client tightConfig).init
    ([_, _, _, _] ++
      _ :: [_]) _ :=
    .cons (a := .open 0) (by with_unfolding_all rfl) <|
    .cons (a := .app 0 .closeReading) (by with_unfolding_all rfl) <|
    .cons (a := .app 0 .closeWriting) (by with_unfolding_all rfl) <|
    .cons (a := .poll 0 0) (by with_unfolding_all rfl) <|
    .cons (a := .receive ⟨⟨0⟩, { finRead := true, finWrite := true }, none, none⟩ [])
      (by with_unfolding_all rfl) <|
    .cons (a := .open 0) (by with_unfolding_all rfl) (.nil _)
  have hall := (tables_consistent hpath).2.2 (by
    intro t ht v
    replace ht := List.mem_of_mem_dropLast ht
    fin_cases ht <;> exact nofun)
  have hremoved := hall.2 _ _ _ rfl 0 (by decide +kernel)
  have hclosed := hremoved.1.mpr ⟨by decide +kernel, by decide +kernel⟩
  exact ⟨_, _, _, _, hpath, rfl, by decide +kernel, by decide +kernel, by decide +kernel,
    by decide +kernel, hclosed⟩

end Streams

end Rammux
