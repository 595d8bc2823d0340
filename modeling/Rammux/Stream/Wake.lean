import Rammux.Flow

/-!
# Wakers, the turn queue, and what the streams of a connection share

The wakers of `src/stream/waker.rs` and of the streams, the turn queue of `src/stream/turns.rs`, and
`ConnFlow` of `src/stream/conn_flow.rs`.

A stream is known by the identity of its shared state, a `StreamRef`. Behind its atomic waker is one
task of the connection's selector, `StreamUpdates`, so the model keeps the two together:
`registered` is whether the waker holds the task's waker, and `scheduled` is whether the selector
will poll the task. A task that was pushed, or that yielded, is scheduled; one that returned
`Pending` is parked, and waking the registered waker schedules it again. `Wakes` is all that the
operations of the streams do to wakers: the atomic wakers of the connection, and the wakers of the
application woken so far.
-/

namespace Rammux

/-- The identity of a stream: IDs are reused, this is not. -/
abbrev StreamRef := ℕ

/-- The identity of a waker of the application. -/
abbrev Waker := ℕ

/-- Slot for a single waker of the application. -/
abbrev WakerSlot := Option Waker

/-- Registers a waker, replacing the previous one. -/
def WakerSlot.register (_slot : WakerSlot) (waker : Waker) : WakerSlot := some waker

/-- The atomic waker of a stream, with the state of the task behind it. -/
structure AtomicWaker where
  /-- Whether the waker of the task is registered. -/
  registered : Bool := false
  /-- Whether the selector will poll the task. -/
  scheduled : Bool := true
  deriving DecidableEq, Repr

/-- Takes the registered waker and wakes the task. -/
def AtomicWaker.wake (w : AtomicWaker) : AtomicWaker := if w.registered then ⟨false, true⟩ else w

/-- The task can run: it is scheduled, or a wake-up will schedule it. -/
def AtomicWaker.Live (w : AtomicWaker) : Prop := w.scheduled = true ∨ w.registered = true

/-- The wakers that the operations of the streams touch. -/
structure Wakes where
  /-- The atomic wakers of the streams. -/
  updates : StreamRef → AtomicWaker
  /-- The wakers of the application that were woken, oldest first. -/
  woken : List Waker

/-- Wakes the task of a stream. -/
def Wakes.wake (wk : Wakes) (r : StreamRef) : Wakes :=
  { wk with updates := Function.update wk.updates r (wk.updates r).wake }

/-- A task returned `Pending`: it registered its waker, and the selector parks it. -/
def Wakes.park (wk : Wakes) (r : StreamRef) : Wakes :=
  { wk with updates := Function.update wk.updates r { registered := true, scheduled := false } }

/-- A task was pushed, or it yielded: the selector will poll it. -/
def Wakes.schedule (wk : Wakes) (r : StreamRef) : Wakes :=
  { wk with updates := Function.update wk.updates r { wk.updates r with scheduled := true } }

/-- Takes the waker out of a slot of the application and wakes it. -/
def WakerSlot.wake (slot : WakerSlot) (wk : Wakes) : Wakes :=
  match slot with
  | none => wk
  | some waker => { wk with woken := wk.woken ++ [waker] }

/-! ## What wake-ups preserve -/

/-- Waking twice is waking once. -/
@[simp] theorem AtomicWaker.wake_wake (w : AtomicWaker) : w.wake.wake = w.wake := by
  by_cases h : w.registered = true
  · simp [AtomicWaker.wake, h]
  · simp [AtomicWaker.wake, h]

/-- Waking a task that can run schedules it. -/
theorem AtomicWaker.Live.wake_scheduled {w : AtomicWaker} (h : w.Live) :
    w.wake.scheduled = true := by
  unfold AtomicWaker.wake
  rcases h with h | h
  · split_ifs
    · rfl
    · exact h
  · rw [if_pos h]

/-- A task that is scheduled stays so when it is woken. -/
theorem AtomicWaker.scheduled_wake {w : AtomicWaker} (h : w.scheduled = true) :
    w.wake.scheduled = true :=
  AtomicWaker.Live.wake_scheduled (.inl h)

/-- A task that is parked after a wake-up was not woken: its waker is what it was. -/
theorem AtomicWaker.wake_eq_of_parked {w : AtomicWaker} (h : w.wake.scheduled = false) :
    w.wake = w := by
  unfold AtomicWaker.wake at h ⊢
  split_ifs at h ⊢
  rfl

/-- `wk'` is `wk` after some wake-ups. -/
def Wakes.Le (wk wk' : Wakes) : Prop :=
  ∀ r, wk'.updates r = wk.updates r ∨ wk'.updates r = (wk.updates r).wake

/-- Where nothing happens no wake-up is taken back. -/
theorem Wakes.Le.refl (wk : Wakes) : wk.Le wk := fun _ => .inl rfl

/-- No wake-up is taken back, step after step. -/
theorem Wakes.Le.trans {a b c : Wakes} (h : a.Le b) (h' : b.Le c) : a.Le c := by
  intro r
  rcases h r with hr | hr <;> rcases h' r with hr' | hr'
  · exact .inl (hr'.trans hr)
  · exact .inr (by rw [hr', hr])
  · exact .inr (hr'.trans hr)
  · exact .inr (by rw [hr', hr, AtomicWaker.wake_wake])

/-- Waking a stream takes no wake-up back. -/
theorem Wakes.le_wake (wk : Wakes) (r : StreamRef) : wk.Le (wk.wake r) := by
  intro r'
  by_cases h : r' = r
  · subst h; exact .inr (by simp [Wakes.wake])
  · exact .inl (by simp [Wakes.wake, h])

/-- Waking a stream after some wake-ups is some wake-ups after waking it. -/
theorem Wakes.Le.wake {wk wk' : Wakes} (h : wk.Le wk') (r : StreamRef) :
    (wk.wake r).Le (wk'.wake r) := by
  intro r'
  by_cases hr : r' = r
  · subst hr
    left
    simp only [Wakes.wake, Function.update_self]
    rcases h r' with h | h
    · rw [h]
    · rw [h, AtomicWaker.wake_wake]
  · simpa only [Wakes.wake, Function.update_of_ne hr] using h r'

/-- Only the atomic wakers matter for the order. -/
theorem Wakes.Le.of_updates {wk wk₁ wk' : Wakes} (h : wk.Le wk₁) (he : wk'.updates = wk₁.updates) :
    wk.Le wk' := fun r => by rw [he]; exact h r

/-- Waking a slot schedules no stream. -/
@[simp] theorem WakerSlot.wake_updates (slot : WakerSlot) (wk : Wakes) :
    (WakerSlot.wake slot wk).updates = wk.updates := by
  cases slot <;> rfl

/-- Waking a slot takes no wake-up back. -/
theorem WakerSlot.le_wake (slot : WakerSlot) (wk : Wakes) : wk.Le (WakerSlot.wake slot wk) :=
  fun r => .inl (by rw [WakerSlot.wake_updates])

/-- A task that can run still can after some wake-ups. -/
theorem Wakes.Le.live {wk wk' : Wakes} (h : wk.Le wk') {r : StreamRef} (hr : (wk.updates r).Live) :
    (wk'.updates r).Live := by
  rcases h r with h | h
  · rw [h]; exact hr
  · rw [h]; exact .inl hr.wake_scheduled

/-- A scheduled task is still scheduled after some wake-ups. -/
theorem Wakes.Le.scheduled {wk wk' : Wakes} (h : wk.Le wk') {r : StreamRef}
    (hr : (wk.updates r).scheduled = true) : (wk'.updates r).scheduled = true := by
  rcases h r with h | h
  · rw [h]; exact hr
  · rw [h]; exact AtomicWaker.scheduled_wake hr

/-- A task that is parked after some wake-ups was not woken. -/
theorem Wakes.Le.eq_of_parked {wk wk' : Wakes} (h : wk.Le wk') {r : StreamRef}
    (hr : (wk'.updates r).scheduled = false) : wk'.updates r = wk.updates r := by
  rcases h r with h | h
  · exact h
  · rw [h] at hr ⊢
    exact AtomicWaker.wake_eq_of_parked hr

/-- A woken task that could run is scheduled, whatever else was woken after it. -/
theorem Wakes.Le.scheduled_of_wake {wk wk' : Wakes} {r : StreamRef} (h : (wk.wake r).Le wk')
    (hr : (wk.updates r).Live) : (wk'.updates r).scheduled = true :=
  h.scheduled (by simpa [Wakes.wake] using hr.wake_scheduled)

/-! ## The turn queue -/

/-- Streams that wait for their turn to borrow from the peer's pool, in the order of their
turns. -/
structure Turns where
  queue : List StreamRef := []
  deriving DecidableEq, Repr

/-- Whether the stream may borrow now: nobody waits, or the stream is first in line. -/
def Turns.hasTurn (t : Turns) (me : StreamRef) : Bool :=
  match t.queue.head? with
  | none => true
  | some front => front == me

/-- Puts the stream at the back of the queue, unless it is in the queue already. -/
def Turns.join (t : Turns) (me : StreamRef) : Turns :=
  if me ∈ t.queue then t else ⟨t.queue ++ [me]⟩

/-- Takes the stream out of the queue, wherever it is. The first result is whether it was in the
queue. -/
def Turns.leave (t : Turns) (me : StreamRef) : Bool × Turns :=
  (decide (me ∈ t.queue), ⟨t.queue.erase me⟩)

/-- Wakes the stream that is first in line, if any. -/
def Turns.wakeFront (t : Turns) (wk : Wakes) : Wakes :=
  match t.queue.head? with
  | none => wk
  | some front => wk.wake front

/-- Waking the first of the queue takes no wake-up back. -/
theorem Turns.le_wakeFront (t : Turns) (wk : Wakes) : wk.Le (t.wakeFront wk) := by
  unfold Turns.wakeFront
  split
  · exact Wakes.Le.refl wk
  · exact wk.le_wake _

/-- Waking the first of the queue wakes no waker of an application. -/
@[simp] theorem Turns.wakeFront_woken (t : Turns) (wk : Wakes) :
    (t.wakeFront wk).woken = wk.woken := by
  unfold Turns.wakeFront; split <;> rfl

/-- Who joins the queue is in it, with those that were. -/
theorem Turns.mem_join {t : Turns} {me r : StreamRef} :
    r ∈ (t.join me).queue ↔ r ∈ t.queue ∨ r = me := by
  unfold Turns.join
  split_ifs with h
  · exact ⟨.inl, fun hr => hr.elim id fun he => he ▸ h⟩
  · simp

/-- Who joins the queue is in it once. -/
theorem Turns.nodup_join {t : Turns} (me : StreamRef) (h : t.queue.Nodup) :
    (t.join me).queue.Nodup := by
  unfold Turns.join
  split_ifs with hm
  · exact h
  · exact List.nodup_append.mpr ⟨h, List.nodup_singleton me, by
      intro a ha b hb hab
      rw [List.mem_singleton.mp hb] at hab
      exact hm (hab ▸ ha)⟩

/-- Who leaves the queue leaves the others in it. -/
theorem Turns.mem_leave {t : Turns} {me r : StreamRef} (hr : r ≠ me) :
    r ∈ (t.leave me).2.queue ↔ r ∈ t.queue := List.mem_erase_of_ne hr

/-- A stream that joins is first in line only if it was its turn. -/
theorem Turns.hasTurn_of_head_join {t : Turns} {me : StreamRef}
    (h : (t.join me).queue.head? = some me) : t.hasTurn me = true := by
  unfold Turns.join at h
  unfold Turns.hasTurn
  split_ifs at h with hm
  · simp [h]
  · cases hq : t.queue with
    | nil => simp
    | cons a q => simpa [hq] using h

/-- Joining does not change who is first in line, unless it is the one who joins. -/
theorem Turns.head_of_head_join {t : Turns} {me r : StreamRef} (hr : r ≠ me)
    (h : (t.join me).queue.head? = some r) : t.queue.head? = some r := by
  unfold Turns.join at h
  split_ifs at h with hm
  · exact h
  · cases hq : t.queue with
    | nil => simp [hq] at h; exact absurd h.symm hr
    | cons a q => simpa [hq] using h

/-! ## What the streams of a connection share -/

/-- The state that the streams of a connection share. -/
structure ConnFlow where
  /-- Smoothed round trip time of the connection. -/
  srtt : Srtt
  /-- Our receive pool, which the inbound directions use. -/
  rxPool : Pool
  /-- The peer's receive pool, which the outbound directions use. -/
  txPool : Pool
  /-- Streams that wait for their turn to borrow from `txPool`. -/
  turns : Turns

/-- The state of a new connection. -/
def ConnFlow.new (rxPool txPool : ℕ) : ConnFlow := ⟨none, Pool.new rxPool, Pool.new txPool, ⟨[]⟩⟩

/-- Takes the stream out of the turn queue, and lets the next one borrow if there is room. -/
def ConnFlow.passTurn (flow : ConnFlow) (me : StreamRef) (wk : Wakes) : ConnFlow × Wakes :=
  let left := flow.turns.leave me
  let flow := { flow with turns := left.2 }
  if left.1 && flow.txPool.hasRoom then (flow, flow.turns.wakeFront wk) else (flow, wk)

/-- Passing the turn changes nothing but the queue and the wakers. -/
theorem ConnFlow.passTurn_fst (flow : ConnFlow) (me : StreamRef) (wk : Wakes) :
    (flow.passTurn me wk).1 = { flow with turns := ⟨flow.turns.queue.erase me⟩ } := by
  unfold ConnFlow.passTurn
  dsimp only [Turns.leave]
  split <;> rfl

/-- Passing the turn wakes the next in line if there was a turn to pass and there is room. -/
theorem ConnFlow.passTurn_snd (flow : ConnFlow) (me : StreamRef) (wk : Wakes) :
    (flow.passTurn me wk).2 =
      if me ∈ flow.turns.queue ∧ flow.txPool.hasRoom = true then
        (⟨flow.turns.queue.erase me⟩ : Turns).wakeFront wk
      else wk := by
  unfold ConnFlow.passTurn
  dsimp only [Turns.leave]
  by_cases h : me ∈ flow.turns.queue ∧ flow.txPool.hasRoom = true
  · rw [if_pos (by simp [h.1, h.2]), if_pos h]
  · rw [if_neg (by simpa using h), if_neg h]

/-- Passing the turn on takes no wake-up back. -/
theorem ConnFlow.le_passTurn (flow : ConnFlow) (me : StreamRef) (wk : Wakes) :
    wk.Le (flow.passTurn me wk).2 := by
  rw [ConnFlow.passTurn_snd]
  split_ifs
  · exact Turns.le_wakeFront _ _
  · exact Wakes.Le.refl wk

/-- If the pool has room, the stream that is first in line is scheduled. -/
def ConnFlow.FrontScheduled (flow : ConnFlow) (wk : Wakes) : Prop :=
  ∀ r, flow.turns.queue.head? = some r → flow.txPool.hasRoom = true →
    (wk.updates r).scheduled = true

/-- Waking the front schedules it, if every task in the queue can run. -/
theorem ConnFlow.frontScheduled_wakeFront (flow : ConnFlow) {wk : Wakes}
    (h : ∀ r ∈ flow.turns.queue, (wk.updates r).Live) :
    flow.FrontScheduled (flow.turns.wakeFront wk) := by
  intro r hr _
  simp only [Turns.wakeFront, hr]
  exact (Wakes.Le.refl _).scheduled_of_wake (h r (List.mem_of_head? hr))

/-- Wake-ups keep the front scheduled. -/
theorem ConnFlow.FrontScheduled.mono {flow : ConnFlow} {wk wk' : Wakes}
    (h : flow.FrontScheduled wk) (hle : wk.Le wk') : flow.FrontScheduled wk' :=
  fun r hr hroom => hle.scheduled (h r hr hroom)

/-- After a turn is passed the front is scheduled, if it was or was the stream that passes. -/
theorem ConnFlow.frontScheduled_passTurn {flow : ConnFlow} {wk : Wakes} {me : StreamRef}
    (h : ∀ r, flow.turns.queue.head? = some r → flow.txPool.hasRoom = true → r ≠ me →
      (wk.updates r).scheduled = true)
    (hlive : ∀ r ∈ flow.turns.queue, r ≠ me → (wk.updates r).Live)
    (hq : flow.turns.queue.Nodup) :
    (flow.passTurn me wk).1.FrontScheduled (flow.passTurn me wk).2 := by
  rw [ConnFlow.passTurn_fst, ConnFlow.passTurn_snd]
  split_ifs with hc
  · refine ConnFlow.frontScheduled_wakeFront _ fun r hr => ?_
    obtain ⟨hne, hmem⟩ := hq.mem_erase_iff.mp hr
    exact hlive r hmem hne
  · intro r hr hroom
    -- Without a turn to pass, the queue is what it was.
    have hnot : me ∉ flow.turns.queue := fun hmem => hc ⟨hmem, hroom⟩
    simp only [List.erase_of_not_mem hnot] at hr
    exact h r hr hroom fun he => hnot (he ▸ List.mem_of_head? hr)

end Rammux
