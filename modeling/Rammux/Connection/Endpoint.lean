import Rammux.Connection.Steps
import Rammux.Stream.Leaving

/-!
# An endpoint whose connection may be gone

`Endpoint` is the streams of a connection, and whether the connection is gone: it failed, was
dropped, or was downgraded. Its streams were then aborted (`Drop for Streams`), nothing is sent or
received any more, and the application may still use what it holds.

The two halves of a stream wait on their own. `waits_until_woken` says that a half that was told to
wait may go on waiting as long as its waker is not woken, whatever else happens to the endpoint.
When the connection goes, the application reads what arrived and then the end of the stream, and can
write nothing (`abort_leaves`).
-/

namespace Rammux

/-! ## Aborted streams -/

namespace Streams

variable {s : Streams} {r : StreamRef}

/-- The streams that have an ID are aborted. -/
theorem mem_handles_of_lookup {id : StreamId} (h : s.lookup id = some r) : r ∈ s.handles := by
  rw [lookup] at h
  split at h
  · refine List.mem_append_left _ (List.mem_filterMap.mpr ⟨some r, ?_, rfl⟩)
    rw [Lib.Slab.get, Option.join_eq_some_iff] at h
    exact List.mem_of_getElem? h
  · refine List.mem_append_right _ (List.mem_map.mpr ⟨⟨id, r⟩, ?_, rfl⟩)
    exact AList.mem_lookup_iff.mp h

/-- The application starts no stream by using one, and gives none another ID. -/
theorem app_names {s' : Streams} {op : AppOp} {o : Output} (h : s.step (.app r op) = .ok (o, s')) :
    s'.next = s.next ∧ s'.role = s.role ∧ s'.ids = s.ids := by
  rw [step] at h
  split_ifs at h
  · obtain ⟨⟨res, c⟩, -, h⟩ := Lib.bind_eq_ok.mp h
    cases h
    exact ⟨rfl, rfl, rfl⟩
  · cases h
    exact ⟨rfl, rfl, rfl⟩

/-- The abort starts no stream, and gives none another ID. -/
theorem abort_names (s : Streams) :
    s.abort.next = s.next ∧ s.abort.role = s.role ∧ s.abort.ids = s.ids := by
  rw [abort]
  generalize s.handles = rs
  induction rs generalizing s with
  | nil => exact ⟨rfl, rfl, rfl⟩
  | cons r rs ih => exact ih _

/-- What aborting some streams does to one of them: what an abort does, as often as it is aborted,
and what a change of the wakers does. -/
theorem foldl_abort_rel {R : StreamCtx → StreamCtx → Prop} (hrefl : ∀ c, R c c)
    (htrans : ∀ {a b c}, R a b → R b c → R a c) (habort : ∀ c, R c (c.abort r))
    (hother : ∀ c c' : StreamCtx, c'.state = c.state → c.wakes.Grows c'.wakes → R c c')
    (rs : List StreamRef) (s : Streams) :
    R (s.ctx r) ((rs.foldl (fun s r => s.put r ((s.ctx r).abort r)) s).ctx r) := by
  induction rs generalizing s with
  | nil => exact hrefl _
  | cons r' rs ih =>
    refine htrans ?_ (ih _)
    by_cases hr : r = r'
    · subst hr
      rw [put_ctx]
      exact habort _
    · exact hother _ _ (put_state_of_ne _ _ hr) (StreamCtx.abort_kept (s.ctx r') r').grows

/-- What an abort establishes, and keeps, holds of a stream that was aborted. -/
theorem foldl_abort_mem {P : StreamState → Prop} (hP : ∀ c : StreamCtx, P (c.abort r).state)
    (rs : List StreamRef) (s : Streams) (h : P (s.state r) ∨ r ∈ rs) :
    P ((rs.foldl (fun s r => s.put r ((s.ctx r).abort r)) s).state r) := by
  induction rs generalizing s with
  | nil => exact h.resolve_right List.not_mem_nil
  | cons r' rs ih =>
    refine ih _ ?_
    by_cases hr : r = r'
    · subst hr
      rw [put_state_self]
      exact .inl (hP _)
    · rw [put_state_of_ne _ _ hr]
      exact h.imp_right fun hmem => (List.mem_cons.mp hmem).resolve_left hr

/-- Nobody who waits is forgotten when the connection goes. -/
theorem abort_kept (s : Streams) (r : StreamRef) : (s.ctx r).Kept (s.abort.ctx r) := by
  refine foldl_abort_rel StreamCtx.Kept.refl StreamCtx.Kept.trans
    (fun c => c.abort_kept r) (fun c c' hstate hgrows => ?_) s.handles s
  refine ⟨hgrows, fun _ _ h => ?_, fun _ _ _ h => ?_⟩
  · rwa [hstate]
  · rwa [hstate]

/-- The abort keeps what was received. -/
theorem abort_buffered (s : Streams) (r : StreamRef) :
    (s.abort.state r).inbound.buffered = (s.state r).inbound.buffered :=
  foldl_abort_rel
    (R := fun c c' => c'.state.inbound.buffered = c.state.inbound.buffered) (fun _ => rfl)
    (fun h h' => h'.trans h) (fun _ => InboundTraffic.buffered_receivedFinWrite _ _ _)
    (fun _ _ hstate _ => by rw [hstate]) s.handles s

/-- What was received can still be read. -/
theorem abort_readable (s : Streams) (r : StreamRef) (h : (s.state r).inbound.Readable) :
    (s.abort.state r).inbound.Readable :=
  foldl_abort_rel (r := r)
    (R := fun c c' => c.state.inbound.Readable → c'.state.inbound.Readable) (fun _ h => h)
    (fun h h' hr => h' (h hr)) (fun _ hr => hr.receivedFinWrite _ _)
    (fun _ _ hstate _ hr => by rwa [hstate]) s.handles s h

/-- A stream that has an ID has ended, and nothing can be written to it. -/
theorem abort_closed {id : StreamId} (h : s.lookup id = some r) :
    (s.abort.state r).inbound.ended = true ∧ (s.abort.state r).outbound.writing = false :=
  foldl_abort_mem (P := fun state => state.inbound.ended = true ∧ state.outbound.writing = false)
    (fun _ => ⟨InboundTraffic.ended_receivedFinWrite _ _ _, OutboundTraffic.writing_abort _ _ _⟩)
    s.handles s (.inr (mem_handles_of_lookup h))

/-- After the abort nothing can be written to any stream. -/
theorem abort_writing (ht : s.Tables) (hr : r < s.next) :
    (s.abort.state r).outbound.writing = false := by
  by_cases hd : s.Dead r
  · -- A dead stream was not writing before.
    refine foldl_abort_mem (P := fun state => state.outbound.writing = false)
      (fun _ => OutboundTraffic.writing_abort _ _ _) s.handles s (.inl ?_)
    exact OutboundTraffic.not_writing_of_finSent (StreamState.isDead_iff.mp hd).1.2
  · exact (abort_closed (ht.listed r hr hd)).2

/-- In one step, a half that waits goes on to wait or is woken, unless the application used it. -/
theorem step_waits {s s' : Streams} {a : Action} {o : Output} (h : s.step a = .ok (o, s'))
    {q : Await} {w : Waker} (hr : r < s.next)
    (huse : ∀ op, a = .app r op → op.ofReader ≠ q.ofReader) :
    s.wakes.Grows s'.wakes ∧ (w ∉ s.wakes.since s'.wakes → q.Waits w (s.state r) →
      q.Waits w (s'.state r)) := by
  cases step_stream h hr with
  | other hstate htask hwoken happ hpoll =>
    rw [hstate]
    exact ⟨hwoken, fun _ hwaits => hwaits⟩
  | app ha ho happ hs =>
    rw [hs, put_state_self]
    exact ⟨.of_eq (StreamCtx.app_kept happ).1, fun _ hwaits => hwaits.app happ (huse _ ha)⟩
  | received ha ho hlookup hsyn hrec hs =>
    have hkept := StreamCtx.received_kept hrec
    rw [hs]
    refine ⟨hkept.grows, fun hw hwaits => ?_⟩
    rw [put_state_self]
    exact Await.Waits.kept hkept hw hwaits
  | @polled allowance task task' poll c ha htask hpoll hstate hwoken hres =>
    have hkept := StreamCtx.pollProgress_kept hpoll
    have hsince : s.wakes.since s'.wakes = s.wakes.since c.wakes := by
      rw [Wakes.since, Wakes.since, hwoken]
    refine ⟨hkept.grows.trans (.of_eq hwoken), fun hw hwaits => ?_⟩
    rw [hstate, Function.update_self]
    exact Await.Waits.kept hkept (hsince ▸ hw) hwaits

end Streams

/-! ## The machine -/

/-- The streams of a connection that may be gone. -/
structure Endpoint where
  streams : Streams
  /-- The connection failed, was dropped, or was downgraded. -/
  gone : Bool

namespace Endpoint

/-- What happens to an endpoint. -/
inductive Action where
  | act (a : Streams.Action)
  /-- The connection goes, and its streams are dropped. -/
  | abort

/-- What can happen without a connection: the application uses the streams that it holds. -/
def canAct (e : Endpoint) : Streams.Action → Bool
  | .app .. => true
  | _ => !e.gone

/-- One step of an endpoint. -/
def step (e : Endpoint) : Action → Except Panic (Streams.Output × Endpoint)
  | .act a =>
    if e.canAct a then do
      let (o, streams) ← e.streams.step a
      return (o, { e with streams })
    else .ok (.none, e)
  | .abort => if e.gone then .ok (.none, e) else .ok (.none, ⟨e.streams.abort, true⟩)

/-- An endpoint, from the start of its connection. -/
def machine (role : RammuxRole) (config : RammuxConfig) :
    Lib.Machine Panic Endpoint Action Streams.Output :=
  ⟨⟨Streams.new role config, false⟩, step⟩

/-- What a step of an endpoint is: a step of its streams, the end of the connection, or nothing. -/
theorem step_cases {e e' : Endpoint} {a : Action} {o : Streams.Output}
    (h : e.step a = .ok (o, e')) :
    (∃ b s', a = .act b ∧ e.canAct b = true ∧ e.streams.step b = .ok (o, s') ∧
        e' = { e with streams := s' }) ∨
      (a = .abort ∧ o = .none ∧ e.gone = false ∧ e' = ⟨e.streams.abort, true⟩) ∨
      (o = .none ∧ e' = e ∧ ∀ r op, a ≠ .act (.app r op)) := by
  cases a with
  | act b =>
    simp only [step] at h
    split at h
    · next hcan =>
      obtain ⟨⟨o', s'⟩, hstep, h⟩ := Lib.bind_eq_ok.mp h
      cases h
      exact .inl ⟨b, s', rfl, hcan, hstep, rfl⟩
    · next hcan =>
      cases h
      refine .inr (.inr ⟨rfl, rfl, fun r op hop => ?_⟩)
      cases hop
      exact hcan rfl
  | abort =>
    simp only [step] at h
    split at h
    · cases h
      exact .inr (.inr ⟨rfl, rfl, nofun⟩)
    · next hgone =>
      cases h
      exact .inr (.inl ⟨rfl, rfl, by simpa using hgone, rfl⟩)

/-- The application can always use a stream that it holds. -/
theorem step_app {e : Endpoint} {r : StreamRef} {op : AppOp} {res : AppResult} {c : StreamCtx}
    (hr : r < e.streams.next) (h : (e.streams.ctx r).app op r = .ok (res, c)) :
    e.step (.act (.app r op)) = .ok (.app res, { e with streams := e.streams.put r c }) := by
  have hstep : e.streams.step (.app r op) = .ok (.app res, e.streams.put r c) := by
    rw [Streams.step, if_pos hr]
    exact Lib.bind_eq_ok.mpr ⟨_, h, rfl⟩
  rw [step, if_pos (show e.canAct (.app r op) = true from rfl)]
  exact Lib.bind_eq_ok.mpr ⟨_, hstep, rfl⟩

/-- What the application gets is what the stream gives. -/
theorem app_of_step {e e' : Endpoint} {r : StreamRef} {op : AppOp} {res : AppResult}
    (h : e.step (.act (.app r op)) = .ok (.app res, e')) :
    r < e.streams.next ∧ ∃ c, (e.streams.ctx r).app op r = .ok (res, c) ∧
      e' = { e with streams := e.streams.put r c } := by
  simp only [step, canAct, if_true] at h
  obtain ⟨⟨o, s'⟩, hstep, h⟩ := Lib.bind_eq_ok.mp h
  cases h
  simp only [Streams.step] at hstep
  split at hstep
  · next hr =>
    obtain ⟨⟨res', c⟩, happ, hstep⟩ := Lib.bind_eq_ok.mp hstep
    cases hstep
    exact ⟨hr, c, happ, rfl⟩
  · cases hstep

/-! ## Waiting -/

section Waiting

variable {role : RammuxRole} {config : RammuxConfig} {e e' : Endpoint} {r : StreamRef} {q : Await}
  {w : Waker}

/-- In one step, a half that waits goes on to wait or is woken, unless the application used it. -/
theorem step_waits {a : Action} {o : Streams.Output} (h : e.step a = .ok (o, e'))
    (hr : r < e.streams.next) (huse : ∀ op, a = .act (.app r op) → op.ofReader ≠ q.ofReader) :
    r < e'.streams.next ∧ e.streams.wakes.Grows e'.streams.wakes ∧
      (w ∉ e.streams.wakes.since e'.streams.wakes → q.Waits w (e.streams.state r) →
        q.Waits w (e'.streams.state r)) := by
  rcases step_cases h with ⟨b, s', rfl, -, hstep, rfl⟩ | ⟨-, -, -, rfl⟩ | ⟨-, rfl, -⟩
  · refine ⟨hr.trans_le (Streams.next_le_of_step hstep), ?_⟩
    exact Streams.step_waits hstep hr fun op hop => huse op (by rw [hop])
  · have hkept := e.streams.abort_kept r
    refine ⟨?_, hkept.grows, fun hw hwaits => Await.Waits.kept hkept hw hwaits⟩
    rw [e.streams.abort_names.1]
    exact hr
  · exact ⟨hr, .refl _, fun _ hwaits => hwaits⟩

/-- So it is along a path. -/
theorem path_waits {steps : List (Lib.Machine.Taken Endpoint Action Streams.Output)}
    (h : (machine role config).Path e steps e') (hr : r < e.streams.next)
    (huse : ∀ t ∈ steps, ∀ op, t.action = .act (.app r op) → op.ofReader ≠ q.ofReader) :
    r < e'.streams.next ∧ e.streams.wakes.Grows e'.streams.wakes ∧
      (w ∉ e.streams.wakes.since e'.streams.wakes → q.Waits w (e.streams.state r) →
        q.Waits w (e'.streams.state r)) := by
  induction h with
  | nil e => exact ⟨hr, .refl _, fun _ hwaits => hwaits⟩
  | cons hstep _ ih =>
    obtain ⟨hr₁, hgrows₁, hwaits₁⟩ := step_waits (w := w) hstep hr (huse _ List.mem_cons_self)
    obtain ⟨hr₂, hgrows₂, hwaits₂⟩ := ih hr₁ fun t ht => huse t (List.mem_cons_of_mem _ ht)
    refine ⟨hr₂, hgrows₁.trans hgrows₂, fun hw hwaits => ?_⟩
    obtain ⟨hw₁, hw₂⟩ := not_or.mp (mt (Wakes.mem_since_trans hgrows₁ hgrows₂).mpr hw)
    exact hwaits₂ hw₂ (hwaits₁ hw₁ hwaits)

/-- Nobody waits for nothing. An operation of the application on a stream was pending, and then
anything happened to the endpoint, but the application did not use that half of the stream, and the
waker was not woken. Then the operation is still pending. -/
theorem waits_until_woken {e₁ e₂ : Endpoint} (q : Await)
    {steps : List (Lib.Machine.Taken Endpoint Action Streams.Output)}
    (hpending : (machine role config).step e (.act (.app r (q.op w))) = .ok (.app q.pending, e₁))
    (hpath : (machine role config).Path e₁ steps e₂)
    (huse : ∀ t ∈ steps, ∀ op, t.action = .act (.app r op) → op.ofReader ≠ q.ofReader)
    (hwoken : w ∉ e₁.streams.wakes.since e₂.streams.wakes) (w' : Waker) :
    ∃ e₃, (machine role config).step e₂ (.act (.app r (q.op w'))) = .ok (.app q.pending, e₃) := by
  obtain ⟨hr, c, happ, rfl⟩ := app_of_step hpending
  have hwaits : q.Waits w ((e.streams.put r c).state r) := by
    rw [Streams.put_state_self]
    exact Await.waits_of_pending happ
  obtain ⟨hr₂, -, hkept⟩ := path_waits hpath hr huse
  obtain ⟨c', happ'⟩ :=
    Await.pending_of_waits (c := e₂.streams.ctx r) (hkept hwoken hwaits) w' r
  exact ⟨_, step_app hr₂ happ'⟩

/-- A writer waits for its data to be sent. The base window takes two of the three bytes, and the
peer sends data of its own: the writer still waits. -/
theorem waits_until_woken_partly : ∃ tr e e₁ steps e₂,
    (machine .client Streams.tightConfig).Run tr e ∧
    (machine .client Streams.tightConfig).step e (.act (.app 0 (.pollFlushed 7))) =
      .ok (.app (.flushed .pending), e₁) ∧
    (machine .client Streams.tightConfig).Path e₁ steps e₂ ∧
    steps.map (fun t => t.answer matches .polled (.ready _)) = [true, false] ∧
    ∃ e₃, (machine .client Streams.tightConfig).step e₂ (.act (.app 0 (.pollFlushed 8))) =
      .ok (.app (.flushed .pending), e₃) := by
  have hrun := Lib.Machine.Run.init (M := machine .client Streams.tightConfig)
    |>.step (a := .act (.open 0)) rfl
    |>.step (a := .act (.app 0 (.write [1, 2, 3]))) (by with_unfolding_all rfl)
  obtain ⟨tr, e, e₁, steps, e₂, hrun, hpending, hpath, hyields, huse, hwoken⟩ :
      ∃ tr e e₁ steps e₂, (machine .client Streams.tightConfig).Run tr e ∧
      (machine .client Streams.tightConfig).step e (.act (.app 0 (.pollFlushed 7))) =
        .ok (.app (.flushed .pending), e₁) ∧
      (machine .client Streams.tightConfig).Path e₁ steps e₂ ∧
      steps.map (fun t => t.answer matches .polled (.ready _)) = [true, false] ∧
      (∀ t ∈ steps, ∀ op, t.action ≠ .act (.app 0 op)) ∧
      7 ∉ e₁.streams.wakes.since e₂.streams.wakes :=
    ⟨_, _, _, _, _, hrun, by with_unfolding_all rfl,
      .cons (a := .act (.poll 0 0)) (by with_unfolding_all rfl)
        (.cons (a := .act (.receive ⟨⟨0⟩, {}, none, none⟩ [4])) (by with_unfolding_all rfl)
        (.nil _)),
      by with_unfolding_all rfl, by simp, by decide +kernel⟩
  have hstays := waits_until_woken .flushed hpending hpath
    (fun t ht op hop => absurd hop (huse t ht op)) hwoken 8
  exact ⟨tr, e, e₁, steps, e₂, hrun, hpending, hpath, hyields, hstays⟩

end Waiting

end Endpoint

end Rammux
