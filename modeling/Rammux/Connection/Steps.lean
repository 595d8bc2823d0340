import Rammux.Connection.Wakeups
import Rammux.Stream.Waiting

/-!
# What a step does to one stream

The steps of an endpoint, seen from one of its streams: the application uses the stream, the peer
sends it a frame, its task is polled, or the step is about something else (`StreamStep`). A stream
that a step starts is new, or has received the frame that started it (`Started`). The invariants of
a single stream follow from these two.
-/

namespace Rammux

namespace Streams

/-- The answer to a frame, from what its stream says to it. -/
def answer (id : StreamId) (newStream : Option StreamRef) :
    Except StreamError FinState → Except StreamViolation (Option StreamRef)
  | .error e => .error ⟨id, e⟩
  | .ok _ => .ok newStream

/-- What a step does to a stream that there is. -/
inductive StreamStep (s : Streams) (r : StreamRef) (a : Action) (o : Output) (s' : Streams) : Prop
  /-- It is about something else. -/
  | other (hstate : s'.state r = s.state r) (htask : s'.updates r = s.updates r)
      (hwoken : s.wakes.woken <+: s'.wakes.woken)
      (happ : ∀ op, a ≠ .app r op)
      (hpoll : ∀ allowance u, (a, o) ≠ (.poll r allowance, .polled (.ready u)))
      (hrec : ∀ header data, a = .receive header data → header.flags.syn = false →
        s.lookup header.id ≠ some r)
  /-- The application uses the stream. -/
  | app {op : AppOp} {res : AppResult} {c : StreamCtx} (ha : a = .app r op) (ho : o = .app res)
      (h : (s.ctx r).app op r = .ok (res, c)) (hs : s' = s.put r c)
  /-- The peer sends a frame. -/
  | received {header : StreamHeader} {data : Bytes} {verdict : Except StreamError FinState}
      {c : StreamCtx} (ha : a = .receive header data)
      (ho : o = .received (answer header.id none verdict))
      (hlookup : s.lookup header.id = some r) (hsyn : header.flags.syn = false)
      (h : (s.ctx r).received header.credit data header.flags r = .ok (verdict, c))
      (hs : s' = { s.put r c with outbound := s'.outbound, inbound := s'.inbound })
  /-- The task of the stream is polled. -/
  | polled {allowance : ℚ≥0} {task task' : StreamUpdates} {poll : Poll Progress} {c : StreamCtx}
      (ha : a = .poll r allowance) (htask : s.updates r = some task)
      (h : (s.ctx r).pollProgress task r allowance = .ok (poll, task', c))
      (hstate : s'.state = Function.update s.state r c.state)
      (hwoken : s'.wakes.woken = c.wakes.woken)
      (hres : (poll = .pending ∧ o = .polled .pending ∧ s'.updates = s.updates) ∨
        (∃ u fin, poll = .ready (.continue u fin) ∧ o = .polled (.ready u) ∧
          s'.updates = Function.update s.updates r (some task')) ∨
        ∃ u fin, poll = .ready (.break u fin) ∧ o = .polled (.ready u) ∧
          s'.updates = Function.update s.updates r none)

/-- A stream that a step started: it is new, or has received the frame that started it. -/
inductive Started (s : Streams) (a : Action) (o : Output) (s' : Streams) : Prop
  /-- The application opened it. -/
  | opened {key : ℕ} {id : StreamId} (ha : a = .open key) (ho : o = .opened (some s.next))
      (hid : StreamId.fromSlabIdx key s.role = some id) (hrole : id.initiatedBy = s.role)
      (hids : s'.ids s.next = id) (hstate : s'.state s.next = StreamState.new s.config)
      (htask : s'.updates s.next = some ⟨id, true⟩) (hwoken : s'.wakes.woken = s.wakes.woken)
  /-- The peer started it. -/
  | accepted {header : StreamHeader} {data : Bytes} {verdict : Except StreamError FinState}
      {c : StreamCtx} (ha : a = .receive header data)
      (ho : o = .received (answer header.id (some s.next) verdict))
      (hrole : header.id.initiatedBy ≠ s.role) (hvacant : s.lookup header.id = none)
      (hsyn : header.flags.syn = true)
      (h : ((s.accept header.id).ctx s.next).received header.credit data header.flags s.next =
        .ok (verdict, c))
      (hs : s' = { (s.accept header.id).put s.next c with
        outbound := s'.outbound, inbound := s'.inbound })

/-- The stream that a frame is for: the one that it starts, or the one that has its ID. -/
def addressee (s s' : Streams) (header : StreamHeader) : Option StreamRef :=
  if header.flags.syn then (if s.next < s'.next then some s.next else none)
  else s.lookup header.id

/-- Handing a frame to a stream changes no other stream, and no task. -/
theorem deliver_eq {s s' : Streams} {r : StreamRef} {header : StreamHeader} {data : Bytes}
    {newStream : Option StreamRef} {res : Except StreamViolation (Option StreamRef)}
    (h : s.deliver r header data newStream = .ok (res, s')) :
    ∃ c verdict, (s.ctx r).received header.credit data header.flags r = .ok (verdict, c) ∧
      res = answer header.id newStream verdict ∧
      s' = { s.put r c with outbound := s'.outbound, inbound := s'.inbound } := by
  obtain ⟨c, verdict, hrec, ⟨e, rfl, rfl, rfl⟩ | ⟨fin, rfl, rfl, hrem⟩⟩ := deliver_eq_ok h
  · exact ⟨c, _, hrec, rfl, rfl⟩
  · exact ⟨c, _, hrec, rfl, removeIfDead_same hrem⟩

/-- What a poll does to the streams and the tasks, whatever it comes to. -/
theorem pollUpdate_eq {s s' : Streams} {r : StreamRef} {allowance : ℚ≥0} {res : Poll StreamUpdate}
    (h : s.pollUpdate r allowance = .ok (res, s')) :
    (s.updates r = none ∧ res = .pending ∧ s' = s) ∨
      ∃ task task' c poll, s.updates r = some task ∧
        (s.ctx r).pollProgress task r allowance = .ok (poll, task', c) ∧
        s'.state = Function.update s.state r c.state ∧ s'.wakes.woken = c.wakes.woken ∧
        ((poll = .pending ∧ res = .pending ∧ s'.updates = s.updates) ∨
          (∃ u fin, poll = .ready (.continue u fin) ∧ res = .ready u ∧
            s'.updates = Function.update s.updates r (some task')) ∨
          ∃ u fin, poll = .ready (.break u fin) ∧ res = .ready u ∧
            s'.updates = Function.update s.updates r none) := by
  rcases pollUpdate_eq_ok h with hidle | ⟨task, task', c, poll, htask, hpoll, hres⟩
  · exact .inl hidle
  refine .inr ⟨task, task', c, poll, htask, hpoll, ?_⟩
  rcases hres with ⟨rfl, rfl, rfl⟩ | ⟨u, fin, rfl, rfl, hrem⟩ | ⟨u, fin, rfl, rfl, hrem⟩
  · exact ⟨rfl, rfl, .inl ⟨rfl, rfl, rfl⟩⟩
  · rw [removeIfDead_same hrem]
    exact ⟨rfl, rfl, .inr (.inl ⟨u, fin, rfl, rfl, rfl⟩)⟩
  · rw [removeIfDead_same hrem]
    exact ⟨rfl, ConnFlow.passTurn_woken _ _ _, .inr (.inr ⟨u, fin, rfl, rfl, rfl⟩)⟩

/-- What a step does to a stream that there is. -/
theorem step_stream {s s' : Streams} {a : Action} {o : Output} (h : s.step a = .ok (o, s'))
    {r : StreamRef} (hr : r < s.next) : s.StreamStep r a o s' := by
  have hnext : r ≠ s.next := hr.ne
  cases a with
  | «open» key =>
    simp only [step] at h
    split at h
    · next hkey =>
      cases h
      rcases openOutbound_cases hkey with hopen | ⟨id, s', hopen, -, hs', -⟩
      · rw [hopen]
        exact .other rfl rfl List.prefix_rfl (by simp) (by simp) (by simp)
      · rw [hopen]
        refine .other ?_ ?_ ?_ (by simp) (by simp) (by simp) <;> rw [hs']
        · exact Function.update_of_ne hnext _ _
        · exact Function.update_of_ne hnext _ _
        · exact List.prefix_rfl
    · cases h
      exact .other rfl rfl List.prefix_rfl (by simp) (by simp) (by simp)
  | receive header data =>
    simp only [step, Lib.bind_eq_ok] at h
    obtain ⟨⟨res, s₁⟩, hrec, h⟩ := h
    cases h
    by_cases hmine : s.lookup header.id = some r ∧ header.flags.syn = false
    · rw [receive_of_lookup hmine.1 hmine.2] at hrec
      obtain ⟨c, verdict, hc, rfl, hs'⟩ := deliver_eq hrec
      exact .received rfl rfl hmine.1 hmine.2 hc hs'
    -- The frame is for another stream, or for none.
    have hnot : ∀ header' data', Action.receive header data = .receive header' data' →
        header'.flags.syn = false → s.lookup header'.id ≠ some r := by
      intro header' data' heq hsyn hlookup
      cases heq
      exact hmine ⟨hlookup, hsyn⟩
    rcases receive_eq_ok hrec with ⟨e, -, rfl⟩ | ⟨r', hr', hsyn, hdel⟩ | ⟨-, -, -, -, hdel⟩
    · exact .other rfl rfl List.prefix_rfl (by simp) (by simp) hnot
    · obtain ⟨c, verdict, hc, rfl, hs'⟩ := deliver_eq hdel
      have hne : r ≠ r' := by
        rintro rfl
        exact hmine ⟨hr', hsyn⟩
      refine .other ?_ ?_ ?_ (by simp) (by simp) hnot <;> rw [hs']
      · exact put_state_of_ne s c hne
      · rfl
      · exact (StreamCtx.received_kept hc).grows
    · obtain ⟨c, verdict, hc, -, hs'⟩ := deliver_eq hdel
      refine .other ?_ ?_ ?_ (by simp) (by simp) hnot <;> rw [hs']
      · exact (put_state_of_ne _ c hnext).trans (Function.update_of_ne hnext _ _)
      · exact Function.update_of_ne hnext _ _
      · exact (StreamCtx.received_kept hc).grows
  | poll r' allowance =>
    simp only [step, Lib.bind_eq_ok] at h
    obtain ⟨⟨res, s₁⟩, hpoll, h⟩ := h
    cases h
    rcases pollUpdate_eq hpoll with ⟨-, rfl, rfl⟩ |
      ⟨task, task', c, poll, htask, hc, hstate, hwoken, hres⟩
    · exact .other rfl rfl List.prefix_rfl (by simp) (by simp) (by simp)
    by_cases heq : r = r'
    · subst heq
      refine .polled rfl htask hc hstate hwoken ?_
      rcases hres with ⟨hp, rfl, hup⟩ | ⟨u, fin, hp, rfl, hup⟩ | ⟨u, fin, hp, rfl, hup⟩
      · exact .inl ⟨hp, rfl, hup⟩
      · exact .inr (.inl ⟨u, fin, hp, rfl, hup⟩)
      · exact .inr (.inr ⟨u, fin, hp, rfl, hup⟩)
    · refine .other ?_ ?_ ?_ (by simp) ?_ (by simp)
      · rw [hstate, Function.update_of_ne heq]
      · rcases hres with ⟨-, -, hup⟩ | ⟨u, fin, -, -, hup⟩ | ⟨u, fin, -, -, hup⟩ <;> rw [hup]
        · rw [Function.update_of_ne heq]
        · rw [Function.update_of_ne heq]
      · rw [hwoken]
        exact (StreamCtx.pollProgress_kept hc).grows
      · intro allowance' u hev
        exact heq (Action.poll.inj (Prod.mk.inj hev).1).1.symm
  | app r' op =>
    simp only [step] at h
    split at h
    · simp only [Lib.bind_eq_ok] at h
      obtain ⟨⟨res, c⟩, happ, h⟩ := h
      cases h
      by_cases heq : r = r'
      · subst heq
        exact .app rfl rfl happ rfl
      · refine .other (put_state_of_ne s c heq) rfl ?_ ?_ (by simp) (by simp)
        · show s.wakes.woken <+: c.wakes.woken
          rw [(StreamCtx.app_kept happ).1]
          exact List.prefix_rfl
        · intro op' hop
          exact heq (Action.app.inj hop).1.symm
    · next hlt =>
      cases h
      refine .other rfl rfl List.prefix_rfl ?_ (by simp) (by simp)
      intro op' hop
      exact hlt ((Action.app.inj hop).1 ▸ hr)
  | observe rtt =>
    cases h
    exact .other rfl rfl List.prefix_rfl (by simp) (by simp) (by simp)

/-- A step starts no stream, or one. -/
theorem step_next {s s' : Streams} {a : Action} {o : Output} (h : s.step a = .ok (o, s')) :
    s'.next = s.next ∨ (s'.next = s.next + 1 ∧ s.Started a o s') := by
  cases a with
  | «open» key =>
    simp only [step] at h
    split at h
    · cases h
      -- No slot is left, or none that an ID can be made of; otherwise the stream is new.
      unfold openOutbound
      split
      · exact .inl rfl
      · split
        · exact .inl rfl
        · next id hid =>
          refine .inr ⟨rfl, .opened rfl rfl hid (StreamId.fromSlabIdx_eq_some hid).2 ?_ ?_ ?_ rfl⟩
          · exact Function.update_self _ _ _
          · exact Function.update_self _ _ _
          · exact Function.update_self _ _ _
    · cases h
      exact .inl rfl
  | receive header data =>
    simp only [step, Lib.bind_eq_ok] at h
    obtain ⟨⟨res, s₁⟩, hrec, h⟩ := h
    cases h
    rcases receive_eq_ok hrec with ⟨e, -, rfl⟩ | ⟨r', -, -, hdel⟩ | ⟨hrole, hvacant, hsyn, -, hdel⟩
    · exact .inl rfl
    · obtain ⟨c, verdict, -, -, hs'⟩ := deliver_eq hdel
      exact .inl (by rw [hs']; rfl)
    · obtain ⟨c, verdict, hc, rfl, hs'⟩ := deliver_eq hdel
      exact .inr ⟨by rw [hs']; rfl, .accepted rfl rfl hrole hvacant hsyn hc hs'⟩
  | poll r' allowance =>
    -- Nothing but opening and receiving starts a stream.
    simp only [step, Lib.bind_eq_ok] at h
    obtain ⟨⟨res, s₁⟩, hpoll, h⟩ := h
    cases h
    exact .inl (pollUpdate_next hpoll)
  | app r' op =>
    simp only [step] at h
    split at h
    · simp only [Lib.bind_eq_ok] at h
      obtain ⟨⟨res, c⟩, -, h⟩ := h
      cases h
      exact .inl rfl
    · cases h
      exact .inl rfl
  | observe rtt =>
    cases h
    exact .inl rfl

/-- A step makes no stream disappear from the heap. -/
theorem next_le_of_step {s s' : Streams} {a : Action} {o : Output} (h : s.step a = .ok (o, s')) :
    s.next ≤ s'.next := by
  rcases step_next h with hnext | ⟨hnext, -⟩
  · exact hnext.ge
  · rw [hnext]
    exact Nat.le_succ _

/-- The state of a stream that was started, and its task. -/
theorem Started.new {s s' : Streams} {a : Action} {o : Output} (h : s.Started a o s') :
    (s'.state s.next).inbound.finSent = false ∧ (s'.state s.next).outbound.finSent = false ∧
      ∃ task, s'.updates s.next = some task ∧
        (task.syn = true ↔ ∃ key, (a, o) = (.open key, .opened (some s.next))) := by
  cases h with
  | opened ha ho hid hrole hids hstate htask =>
    rw [hstate]
    exact ⟨rfl, rfl, _, htask, fun _ => ⟨_, by rw [ha, ho]⟩, fun _ => rfl⟩
  | @accepted header data verdict c ha ho hrole hvacant hsyn hc hs =>
    obtain ⟨hin, hout⟩ := StreamCtx.received_finSent hc
    have hnew : ((s.accept header.id).ctx s.next).state = StreamState.new s.config :=
      Function.update_self _ _ _
    rw [hnew] at hin hout
    have hstate : s'.state s.next = c.state := by
      rw [hs]
      exact put_state_self _ _ _
    rw [hstate]
    refine ⟨hin, hout, ⟨header.id, false⟩, ?_, nofun, ?_⟩
    · rw [hs]
      exact Function.update_self _ _ _
    · rintro ⟨key, hev⟩
      rw [ha] at hev
      cases hev

end Streams

end Rammux
