import Rammux.Connection.Accounts

/-!
# No wake-up is lost

About a dozen operations decide on their own whether to wake the task of their stream, or the
stream that is first in line for the peer's pool. `Wakeful` is what they keep together: the task of
a stream is scheduled, or its waker is registered and the stream has nothing to send by itself; and
if the pool has room, the stream that is first in line is scheduled.
-/

namespace Rammux

namespace Streams

/-- The task of the stream waits for a wake-up. -/
def Parked (s : Streams) (r : StreamRef) : Prop :=
  s.updates r ≠ none ∧ (s.wakes.updates r).scheduled = false

/-- The selector will poll the task of the stream. -/
def Scheduled (s : Streams) (r : StreamRef) : Prop :=
  s.updates r ≠ none ∧ (s.wakes.updates r).scheduled = true

/-- No wake-up was lost. -/
structure Wakeful (s : Streams) : Prop where
  nodup : s.flow.turns.queue.Nodup
  /-- Whoever waits for a turn has a task that can take it. -/
  queued : ∀ r ∈ s.flow.turns.queue, s.updates r ≠ none
  registered : ∀ r, s.Parked r → (s.wakes.updates r).registered = true
  rests : ∀ r, s.Parked r → (s.state r).Rests (r ∈ s.flow.turns.queue)
  front : s.flow.FrontScheduled s.wakes

/-- On a new connection there is nobody to wake. -/
theorem wakeful_new (role : RammuxRole) (config : RammuxConfig) : (new role config).Wakeful where
  nodup := List.nodup_nil
  queued := nofun
  registered _ h := absurd rfl h.1
  rests _ h := absurd rfl h.1
  front := nofun

/-- Every task can run. -/
theorem Wakeful.live {s : Streams} (hw : s.Wakeful) {r : StreamRef} (h : s.updates r ≠ none) :
    (s.wakes.updates r).Live := by
  cases hs : (s.wakes.updates r).scheduled with
  | true => exact .inl hs
  | false => exact .inr (hw.registered r ⟨h, hs⟩)

/-- Whoever is in the queue of turns has a task that can be woken. -/
theorem Wakeful.live_queued {s : Streams} (hw : s.Wakeful) :
    ∀ r ∈ s.flow.turns.queue, (s.wakes.updates r).Live :=
  fun r hr => hw.live (hw.queued r hr)

/-! ## Operations without turns -/

/-- What is done with a stream without its turn loses no wake-up, if the operation loses none. -/
theorem Wakeful.put {s : Streams} {r : StreamRef} {c : StreamCtx} (hw : s.Wakeful)
    (h : (s.ctx r).Quiet r c) : (s.put r c).Wakeful := by
  have hturns : (s.put r c).flow.turns = s.flow.turns := h.turns
  -- A stream that is parked after the operation was parked before it.
  have hparked : ∀ r', (s.put r c).Parked r' →
      s.Parked r' ∧ c.wakes.updates r' = s.wakes.updates r' := by
    intro r' hp
    have heq := h.le.eq_of_parked hp.2
    exact ⟨⟨hp.1, heq ▸ hp.2⟩, heq⟩
  refine ⟨hturns ▸ hw.nodup, fun r' hr' => hw.queued r' (hturns ▸ hr'), fun r' hp => ?_,
    fun r' hp => ?_, h.front hw.front hw.live_queued⟩
  · obtain ⟨hp', heq⟩ := hparked r' hp
    exact (congrArg AtomicWaker.registered heq).trans (hw.registered r' hp')
  · obtain ⟨hp', heq⟩ := hparked r' hp
    have hr := hw.rests r' hp'
    rw [hturns]
    by_cases hne : r' = r
    · subst hne
      rw [put_state_self]
      refine (h.rests _ hr).resolve_right fun hwoken => ?_
      exact Bool.false_ne_true (hp.2.symm.trans (hwoken.scheduled_of_wake (hw.live hp'.1)))
    · rw [show (s.put r c).state r' = s.state r' from Function.update_of_ne hne _ _]
      exact hr

/-- Forgetting a stream loses no wake-up. -/
theorem Wakeful.removeIfDead {s s' : Streams} {id : StreamId} {fin : FinState} (hw : s.Wakeful)
    (h : s.removeIfDead id fin = .ok s') : s'.Wakeful := by
  rw [removeIfDead_same h]
  exact ⟨hw.nodup, hw.queued, hw.registered, hw.rests, hw.front⟩

/-- A new stream is scheduled. -/
theorem Wakeful.created {s s' : Streams} {id : StreamId} (hw : s.Wakeful)
    (h : s.Created id s') : s'.Wakeful := by
  obtain ⟨isOutbound, heq⟩ := h.eq
  have hflow := h.same.2.2.2
  have hwakes : ∀ r, r ≠ s.next → s'.wakes.updates r = s.wakes.updates r := fun r hr => by
    rw [heq]; exact Function.update_of_ne hr _ _
  have hupdates : ∀ r, r ≠ s.next → s'.updates r = s.updates r := fun r hr => by
    rw [heq]; exact Function.update_of_ne hr _ _
  -- The task of a new stream has never been polled, so it is scheduled.
  have hnew : (s'.wakes.updates s.next).scheduled = true := by
    have hself : s'.wakes.updates s.next = {} := by
      rw [heq]
      exact Function.update_self _ _ _
    rw [hself]
  -- Therefore a parked stream is an old one.
  have hparked : ∀ r, s'.Parked r → r ≠ s.next ∧ s.Parked r := by
    intro r hp
    have hne : r ≠ s.next := fun he => Bool.false_ne_true (hp.2.symm.trans (he ▸ hnew))
    exact ⟨hne, hupdates r hne ▸ hp.1, hwakes r hne ▸ hp.2⟩
  refine ⟨hflow ▸ hw.nodup, fun r hr => ?_, fun r hp => ?_, fun r hp => ?_, fun r hr hroom => ?_⟩
  · by_cases hne : r = s.next
    · obtain ⟨syn, hup⟩ := h.new.2.2
      rw [hne, hup]
      exact Option.some_ne_none _
    · rw [hupdates r hne]
      exact hw.queued r (hflow ▸ hr)
  · obtain ⟨hne, hp'⟩ := hparked r hp
    rw [hwakes r hne]
    exact hw.registered r hp'
  · obtain ⟨hne, hp'⟩ := hparked r hp
    have hstate : s'.state r = s.state r := by
      rw [heq]
      exact Function.update_of_ne hne _ _
    rw [hstate, hflow]
    exact hw.rests r hp'
  · rw [hflow] at hr hroom
    by_cases hne : r = s.next
    · rw [hne]
      exact hnew
    · rw [hwakes r hne]
      exact hw.front r hr hroom

/-! ## Polls -/

section Polls

variable {s : Streams} {r : StreamRef} {c : StreamCtx} {allowance : ℚ≥0}

/-- The other streams that are parked after a poll are at rest, as they were. -/
theorem Wakeful.others (hw : s.Wakeful) (hp : (s.ctx r).Polled r allowance c) {r' : StreamRef}
    (hne : r' ≠ r) (hup : s.updates r' ≠ none) (hparked : (c.wakes.updates r').scheduled = false) :
    (c.wakes.updates r').registered = true ∧ (s.state r').Rests (r' ∈ c.flow.turns.queue) := by
  have heq : c.wakes.updates r' = s.wakes.updates r' := by
    rcases hp.others r' hne with h | h
    · exact h
    · rw [h] at hparked ⊢
      exact AtomicWaker.wake_eq_of_parked hparked
  rw [heq] at hparked ⊢
  rw [hp.queue r' hne]
  exact ⟨hw.registered r' ⟨hup, hparked⟩, hw.rests r' ⟨hup, hparked⟩⟩

/-- The streams that are queued after a poll of another one have tasks. -/
theorem Wakeful.queued_of_polled (hw : s.Wakeful) (hp : (s.ctx r).Polled r allowance c)
    {r' : StreamRef} (hne : r' ≠ r) (hr' : r' ∈ c.flow.turns.queue) : s.updates r' ≠ none :=
  hw.queued r' ((hp.queue r' hne).mp hr')

/-- A pending poll parks a stream that is at rest. -/
theorem Wakeful.pending {task task' : StreamUpdates} (hw : s.Wakeful)
    (hup : s.updates r = some task)
    (h : (s.ctx r).pollProgress task r allowance = .ok (.pending, task', c)) :
    (s.put r c).Wakeful := by
  have hp := StreamCtx.pollProgress_polled h
  obtain ⟨hrests, hwaker, hfront⟩ := StreamCtx.pollProgress_pending h hw.nodup
  have htask : s.updates r ≠ none := hup ▸ Option.some_ne_none _
  refine ⟨hp.nodup hw.nodup, fun r' hr' => ?_, fun r' hparked => ?_, fun r' hparked => ?_,
    fun r' hr' hroom => ?_⟩
  · by_cases hne : r' = r
    · rw [hne]
      exact htask
    · exact hw.queued_of_polled hp hne hr'
  · by_cases hne : r' = r
    · subst hne
      exact congrArg AtomicWaker.registered hwaker
    · exact (hw.others hp hne hparked.1 hparked.2).1
  · by_cases hne : r' = r
    · subst hne
      rw [put_state_self]
      exact hrests
    · rw [show (s.put r c).state r' = s.state r' from Function.update_of_ne hne _ _]
      exact (hw.others hp hne hparked.1 hparked.2).2
  · by_cases hne : r' = r
    · subst hne
      have hno := hfront hw.front hw.live_queued hr'
      exact absurd hroom (by simp [show (s.put r' c).flow = c.flow from rfl, hno])
    · exact hp.front hw.front hw.live_queued hw.nodup r' hr' hroom hne

/-- A task that yields stays scheduled. -/
theorem Wakeful.continued {task : StreamUpdates} (hw : s.Wakeful)
    (hp : (s.ctx r).Polled r allowance c) : (s.continued r task c).Wakeful := by
  have hself : ((s.continued r task c).wakes.updates r).scheduled = true := by
    simp [Streams.continued, Wakes.schedule]
  have hwakes : ∀ r', r' ≠ r → (s.continued r task c).wakes.updates r' = c.wakes.updates r' :=
    fun r' hne => Function.update_of_ne hne _ _
  have hupdates : ∀ r', r' ≠ r → (s.continued r task c).updates r' = s.updates r' :=
    fun r' hne => Function.update_of_ne hne _ _
  have hparked : ∀ r', (s.continued r task c).Parked r' → r' ≠ r ∧ s.updates r' ≠ none ∧
      (c.wakes.updates r').scheduled = false := by
    intro r' hparked
    have hne : r' ≠ r := fun he => Bool.false_ne_true (hparked.2.symm.trans (he ▸ hself))
    exact ⟨hne, hupdates r' hne ▸ hparked.1, hwakes r' hne ▸ hparked.2⟩
  refine ⟨hp.nodup hw.nodup, fun r' hr' => ?_, fun r' hpark => ?_, fun r' hpark => ?_,
    fun r' hr' hroom => ?_⟩
  · by_cases hne : r' = r
    · subst hne
      rw [show (s.continued r' task c).updates r' = some task from Function.update_self _ _ _]
      exact Option.some_ne_none _
    · rw [hupdates r' hne]
      exact hw.queued_of_polled hp hne hr'
  · obtain ⟨hne, hup, hsched⟩ := hparked r' hpark
    rw [hwakes r' hne]
    exact (hw.others hp hne hup hsched).1
  · obtain ⟨hne, hup, hsched⟩ := hparked r' hpark
    rw [show (s.continued r task c).state r' = s.state r' from Function.update_of_ne hne _ _]
    exact (hw.others hp hne hup hsched).2
  · by_cases hne : r' = r
    · rw [hne]
      exact hself
    · rw [hwakes r' hne]
      exact hp.front hw.front hw.live_queued hw.nodup r' hr' hroom hne

/-- A task that is done passes its turn on. -/
theorem Wakeful.finished (hw : s.Wakeful) (hp : (s.ctx r).Polled r allowance c) :
    (s.finished r c).Wakeful := by
  have hnodup := hp.nodup hw.nodup
  have hqueue : (s.finished r c).flow.turns.queue = c.flow.turns.queue.erase r := by
    simp only [Streams.finished, ConnFlow.passTurn_fst]
  have hupdates : ∀ r', r' ≠ r → (s.finished r c).updates r' = s.updates r' :=
    fun r' hne => Function.update_of_ne hne _ _
  have hle : c.wakes.Le (s.finished r c).wakes := c.flow.le_passTurn r c.wakes
  have hparked : ∀ r', (s.finished r c).Parked r' → r' ≠ r ∧ s.updates r' ≠ none ∧
      (c.wakes.updates r').scheduled = false ∧
      (s.finished r c).wakes.updates r' = c.wakes.updates r' := by
    intro r' hparked
    have hne : r' ≠ r := fun he => hparked.1 (he ▸ Function.update_self _ _ _)
    have heq := hle.eq_of_parked hparked.2
    exact ⟨hne, hupdates r' hne ▸ hparked.1, heq ▸ hparked.2, heq⟩
  refine ⟨hqueue ▸ hnodup.erase r, fun r' hr' => ?_, fun r' hpark => ?_, fun r' hpark => ?_,
    ConnFlow.frontScheduled_passTurn (hp.front hw.front hw.live_queued hw.nodup)
      (fun r' hr' hne => ?_) hnodup⟩
  · obtain ⟨hne, hmem⟩ := hnodup.mem_erase_iff.mp (hqueue ▸ hr')
    rw [hupdates r' hne]
    exact hw.queued_of_polled hp hne hmem
  · obtain ⟨hne, hup, hsched, heq⟩ := hparked r' hpark
    rw [heq]
    exact (hw.others hp hne hup hsched).1
  · obtain ⟨hne, hup, hsched, -⟩ := hparked r' hpark
    rw [show (s.finished r c).state r' = s.state r' from Function.update_of_ne hne _ _, hqueue,
      hnodup.mem_erase_iff]
    simpa only [ne_eq, hne, not_false_eq_true, true_and] using (hw.others hp hne hup hsched).2
  · -- The others in the queue could run, and were at most woken.
    have hlive := hw.live (hw.queued_of_polled hp hne hr')
    rcases hp.others r' hne with h | h
    · rw [h]
      exact hlive
    · rw [h]
      exact .inl hlive.wake_scheduled

/-- A poll loses no wakeup. -/
theorem Wakeful.pollUpdate {s' : Streams} {res : Poll StreamUpdate} (hw : s.Wakeful)
    (h : s.pollUpdate r allowance = .ok (res, s')) : s'.Wakeful := by
  rcases pollUpdate_eq_ok h with ⟨-, -, rfl⟩ | ⟨task, task', c, poll, hup, hpoll, h⟩
  · exact hw
  · have hp := StreamCtx.pollProgress_polled hpoll
    rcases h with ⟨rfl, -, rfl⟩ | ⟨u, fin, -, -, hrem⟩ | ⟨u, fin, -, -, hrem⟩
    · exact hw.pending hup hpoll
    · exact (hw.continued hp).removeIfDead hrem
    · exact (hw.finished hp).removeIfDead hrem

end Polls

/-! ## Runs -/

/-- A frame loses no wakeup. -/
theorem Wakeful.deliver {s s' : Streams} {r : StreamRef} {header : StreamHeader} {data : Bytes}
    {newStream : Option StreamRef} {res : Except StreamViolation (Option StreamRef)}
    (hw : s.Wakeful) (h : s.deliver r header data newStream = .ok (res, s')) : s'.Wakeful := by
  obtain ⟨c, verdict, hrec, h⟩ := deliver_eq_ok h
  have hput := hw.put (StreamCtx.received_keeps hrec).2
  rcases h with ⟨-, -, -, rfl⟩ | ⟨fin, -, -, hrem⟩
  · exact hput
  · exact hput.removeIfDead hrem

/-- No step of an endpoint loses a wake-up. -/
theorem step_wakeful {s s' : Streams} {a : Action} {o : Output} (hw : s.Wakeful)
    (h : s.step a = .ok (o, s')) : s'.Wakeful := by
  cases a with
  | «open» key =>
    simp only [step] at h
    split at h
    · next hkey =>
      cases h
      rcases openOutbound_cases hkey with hopen | ⟨id, s', hopen, -, -, hcreated⟩
      · rw [hopen]
        exact hw
      · rw [hopen]
        exact hw.created hcreated
    · cases h
      exact hw
  | receive header data =>
    simp only [step, Lib.bind_eq_ok] at h
    obtain ⟨⟨res, s₁⟩, hrec, h⟩ := h
    cases h
    rcases receive_eq_ok hrec with ⟨-, -, rfl⟩ | ⟨r, -, -, hdel⟩ | ⟨hrole, hvacant, -, -, hdel⟩
    · exact hw
    · exact hw.deliver hdel
    · -- The new stream is scheduled, and then takes the frame.
      exact (hw.created (accept_created hrole hvacant)).deliver hdel
  | poll r allowance =>
    simp only [step, Lib.bind_eq_ok] at h
    obtain ⟨⟨res, s₁⟩, hpoll, h⟩ := h
    cases h
    exact hw.pollUpdate hpoll
  | app r op =>
    simp only [step] at h
    split at h
    · simp only [Lib.bind_eq_ok] at h
      obtain ⟨⟨res, c⟩, happ, h⟩ := h
      cases h
      exact hw.put (StreamCtx.app_quiet happ)
    · cases h
      exact hw
  | observe rtt =>
    cases h
    exact ⟨hw.nodup, hw.queued, hw.registered, hw.rests, hw.front⟩

/-- No run of an endpoint loses a wake-up, whatever the peer does. -/
theorem wakeful_of_run {role : RammuxRole} {config : RammuxConfig} {tr : List (Action × Output)}
    {s : Streams} (h : (machine role config).Run tr s) : s.Wakeful :=
  h.invariant (I := fun _ s => s.Wakeful) (wakeful_new role config)
    fun _ _ _ _ _ _ hw hstep => step_wakeful hw hstep

/-- A stream whose task is parked has nothing to send by itself, and if the pool has room, the
stream that is first in line for it is scheduled. -/
theorem no_lost_wakeup {role : RammuxRole} {config : RammuxConfig} {tr : List (Action × Output)}
    {s : Streams} (h : (machine role config).Run tr s) (hok : ∀ e ∈ tr, NoViolation e) :
    (∀ r, s.Parked r →
      (s.state r).inbound.credit < creditThreshold config.localRecvWindow ∧
      ((s.state r).inbound.reading = true ∨ (s.state r).inbound.finSent = true) ∧
      ((s.state r).outbound.writing = true ∨ (s.state r).outbound.unsent ≠ [] ∨
        (s.state r).outbound.finSent = true) ∧
      ((s.state r).outbound.unsent = [] ∨ (s.state r).outbound.ledger.window.baseRoom = 0)) ∧
    ∀ r, s.flow.turns.queue.head? = some r → s.flow.txPool.hasRoom = true → s.Scheduled r := by
  have hw := wakeful_of_run h
  have ht := tables_of_run h
  have hconfig := (same_of_run h).2
  refine ⟨fun r hp => ?_, fun r hr hroom =>
    ⟨hw.queued r (List.mem_of_head? hr), hw.front r hr hroom⟩⟩
  obtain ⟨task, htask⟩ := Option.ne_none_iff_exists'.mp hp.1
  have hr := (ht.taskId r task htask).1
  have hrests := hw.rests r hp
  refine ⟨?_, hrests.inbound.reading_or_finSent, ?_, hrests.outbound.idle.unsent⟩
  · rw [← hconfig]
    exact hrests.inbound.credit_lt ((held_of_run h hok).wfIn r hr)
  · exact hrests.outbound.idle.owes ((accounts_of_run h).wfOut r hr)

/-- Two streams wait for the pool when the peer returns a byte of it: the first in line is
scheduled, and the other one is parked behind it. -/
theorem no_lost_wakeup_queued : ∃ tr s, (machine .client tightConfig).Run tr s ∧
    s.flow.turns.queue = [1, 0] ∧ s.Scheduled 1 ∧ s.Parked 0 ∧
    ((s.state 0).outbound.unsent = [] ∨ (s.state 0).outbound.ledger.window.baseRoom = 0) := by
  have h := Lib.Machine.Run.init (M := machine .client tightConfig)
    |>.step (a := .observe 1) rfl |>.step (a := .open 0) rfl |>.step (a := .open 1) rfl
    |>.step (a := .app 0 (.write [1, 2, 3, 4, 5, 6])) rfl
    |>.step (a := .app 1 (.write [1, 2, 3])) rfl
    |>.step (a := .poll 0 3) (by with_unfolding_all rfl)
    |>.step (a := .poll 0 3) (by with_unfolding_all rfl)
    |>.step (a := .poll 1 3) (by with_unfolding_all rfl)
    |>.step (a := .poll 1 3) (by with_unfolding_all rfl)
    |>.step (a := .receive ⟨⟨0⟩, {}, some ⟨1, by decide⟩, none⟩ []) (by with_unfolding_all rfl)
    |>.step (a := .poll 0 3) (by with_unfolding_all rfl)
  have hw := no_lost_wakeup h (by
    simp only [List.mem_append, List.mem_singleton, List.not_mem_nil, false_or, or_imp, forall_and,
      forall_eq]
    simp [NoViolation])
  refine ⟨_, _, h, by decide +kernel, hw.2 1 (by decide +kernel) (by decide +kernel), ?_,
    (hw.1 0 ?_).2.2.2⟩
  all_goals exact ⟨by decide +kernel, by decide +kernel⟩

end Streams

end Rammux
