import Rammux.Stream.State

/-!
# The application waits for a stream

A reader that found nothing to read has its waker in the slot of the receiving direction, and the
direction has nothing to read (`InboundTraffic.Waits`). A writer that found no room, or data that is
not sent yet, has its waker in the slot of the sending direction, which holds that data
(`OutboundTraffic.Waits`). Whatever the peer sends, however the task is polled, and when the
connection goes, they go on to wait, or their waker is woken (`StreamCtx.Kept`).
-/

namespace Rammux

/-- Whether it is the reading half of a stream that the application uses. -/
def AppOp.ofReader : AppOp → Bool
  | .pollRead _ | .closeReading => true
  | _ => false

/-- The reader waits with a waker: there is nothing to read, and more may come. -/
def InboundTraffic.Waits (t : InboundTraffic) (w : Waker) : Prop := t.state = .open [] (some w)

/-- The writer waits with a waker: there is data that is not sent. Once the application closed
writing, it can only wait for the flush. -/
def OutboundTraffic.Waits (t : OutboundTraffic) (flush : Bool) (w : Waker) : Prop :=
  ∃ data, (data ≠ [] ∧ t.state = .open data (some w)) ∨
    (flush = true ∧ t.state = .halfClosed data (some w))

/-- The wakers of the application that were woken since. -/
def Wakes.since (wk wk' : Wakes) : List Waker := wk'.woken.drop wk.woken.length

/-- Of the wakers of the application, more were woken. -/
def Wakes.Grows (wk wk' : Wakes) : Prop := wk.woken <+: wk'.woken

namespace Wakes

variable {wk wk₁ wk' : Wakes}

/-- Where nothing happens no waker is woken. -/
theorem Grows.refl (wk : Wakes) : wk.Grows wk := List.prefix_rfl

/-- The same wakers are a beginning of themselves. -/
theorem Grows.of_eq (h : wk'.woken = wk.woken) : wk.Grows wk' := by
  unfold Grows
  rw [h]

/-- More wakers are woken, step after step. -/
theorem Grows.trans (h : wk.Grows wk₁) (h' : wk₁.Grows wk') : wk.Grows wk' :=
  List.IsPrefix.trans h h'

/-- The wakers that were woken are those before and those since. -/
theorem since_of_grows (h : wk.Grows wk') : wk'.woken = wk.woken ++ wk.since wk' := by
  obtain ⟨more, hmore⟩ := h
  rw [since, ← hmore, List.drop_left]

/-- What was woken since, from one point to the next. -/
theorem mem_since_trans (h : wk.Grows wk₁) (h' : wk₁.Grows wk') {w : Waker} :
    w ∈ wk.since wk' ↔ w ∈ wk.since wk₁ ∨ w ∈ wk₁.since wk' := by
  have hwoken := since_of_grows h'
  rw [since_of_grows h, List.append_assoc] at hwoken
  rw [show wk.since wk' = wk.since wk₁ ++ wk₁.since wk' by
    rw [since, hwoken, List.drop_left], List.mem_append]

/-- Waking a stream for an update wakes no waker of an application. -/
@[simp] theorem wake_woken (wk : Wakes) (r : StreamRef) : (wk.wake r).woken = wk.woken := rfl

end Wakes

/-- Waking a slot adds to the wakers that were woken. -/
theorem WakerSlot.wake_grows (slot : WakerSlot) (wk : Wakes) :
    wk.Grows (WakerSlot.wake slot wk) := by
  cases slot with
  | none => exact .refl wk
  | some w => exact List.prefix_append _ _

/-- A waker that is taken out of its slot is woken. -/
theorem WakerSlot.mem_since_wake {wk wk₁ : Wakes} (w : Waker) (h : wk₁.woken = wk.woken) :
    w ∈ wk.since (WakerSlot.wake (some w) wk₁) := by
  unfold Wakes.since WakerSlot.wake
  rw [h]
  simp

/-- Passing the turn on wakes no waker of an application. -/
theorem ConnFlow.passTurn_woken (flow : ConnFlow) (me : StreamRef) (wk : Wakes) :
    (flow.passTurn me wk).2.woken = wk.woken := by
  rw [ConnFlow.passTurn_snd]
  split_ifs
  · exact Turns.wakeFront_woken _ _
  · rfl

/-- A plan wakes no application. -/
theorem Ledger.Planned.woken {l l' : Ledger} {flow flow' : ConnFlow} {me : StreamRef}
    {allowance : ℚ≥0} {wk wk' : Wakes} {waiting : ℕ} {res : Option ℕ}
    (h : l.Planned flow me allowance wk waiting res l' flow' wk') : wk'.woken = wk.woken := by
  cases h with
  | nothing | exhausted => exact ConnFlow.passTurn_woken _ _ _
  | fits | queued => rfl
  | borrows => split_ifs <;> simp

/-! ## The two directions -/

namespace InboundTraffic

variable {t t' : InboundTraffic} {wk wk' : Wakes} (w : Waker)

/-- A reader that waits when data arrives is woken. -/
theorem Waits.receivedData {data : Bytes} {pool pool' : Pool} {verdict : Except StreamError Unit}
    (h : t.receivedData data pool wk = .ok (verdict, t', pool', wk')) :
    wk.Grows wk' ∧ (w ∉ wk.since wk' → t.Waits w → t'.Waits w) := by
  rcases receivedData_cases h with ⟨-, -, rfl, -, rfl⟩ | ⟨-, -, ⟨rd, reader, hs, rfl, rfl⟩, -⟩ |
    ⟨-, -, hr, -, -, rfl, rfl, -⟩ | ⟨-, -, -, rfl, -, rfl⟩ | ⟨-, -, -, -, rfl, rfl, -⟩
  · exact ⟨.refl _, fun _ h => h⟩
  · refine ⟨WakerSlot.wake_grows _ _, fun hw hwaits => ?_⟩
    rw [Waits, hs] at hwaits
    cases hwaits
    exact absurd (WakerSlot.mem_since_wake w rfl) hw
  · exact ⟨.refl _, fun _ h => h⟩
  · exact ⟨.refl _, fun _ h => h⟩
  · exact ⟨.refl _, fun _ h => h⟩

/-- A reader that waits when the stream ends is woken. -/
theorem Waits.receivedFinWrite (t : InboundTraffic) (me : StreamRef) (wk : Wakes) :
    wk.Grows (t.receivedFinWrite me wk).2.2 ∧
      (w ∉ wk.since (t.receivedFinWrite me wk).2.2 → t.Waits w →
        (t.receivedFinWrite me wk).2.1.Waits w) := by
  rcases t.receivedFinWrite_cases me wk with ⟨-, hf⟩ | ⟨-, data, rest, reader, hs, hf⟩ |
    ⟨-, reader, hs, hf⟩ | ⟨-, hr, hf⟩
  · rw [hf]
    exact ⟨.refl _, fun _ h => h⟩
  · rw [hf]
    refine ⟨.refl _, fun _ hwaits => ?_⟩
    rw [Waits, hs] at hwaits
    cases hwaits
  · rw [hf]
    refine ⟨(Wakes.Grows.of_eq (Wakes.wake_woken wk me)).trans (WakerSlot.wake_grows _ _),
      fun hw hwaits => ?_⟩
    rw [Waits, hs] at hwaits
    cases hwaits
    exact absurd (WakerSlot.mem_since_wake w (wk.wake_woken me)) hw
  · rw [hf]
    refine ⟨.refl _, fun _ hwaits => ?_⟩
    rw [reading, hwaits] at hr
    cases hr

/-- Reading wakes no application. -/
theorem pollRead_woken {waker : Waker} {me : StreamRef} {res : Poll (Option Bytes)}
    (h : t.pollRead waker me wk = .ok (res, t', wk')) : wk'.woken = wk.woken := by
  have htook : ∀ {t t' : InboundTraffic} {data : Bytes} {wk wk' : Wakes}
    {res : Poll (Option Bytes)},
      t.took data me wk = .ok (res, t', wk') → wk'.woken = wk.woken := by
    intro t t' data wk wk' res h
    obtain ⟨credit, -, h⟩ := Lib.bind_eq_ok.mp h
    cases h
    split_ifs <;> rfl
  unfold pollRead at h
  split at h
  · cases h
    rfl
  · exact htook h
  · cases h
  · exact (htook h).trans (wk.wake_woken me)
  · exact htook h
  · cases h
    rfl

/-- A poll of the task is nothing to the reader. -/
theorem Waits.pollUpdate {pool pool' : Pool} {res : Poll (UInt32 × Bool)}
    (h : t.pollUpdate pool = .ok (res, t', pool')) (hwaits : t.Waits w) : t'.Waits w := by
  rcases pollUpdate_cases h with ⟨-, -, rfl, -⟩ | ⟨credit, -, -, -, -, -, rfl, -⟩ | ⟨-, hr, -⟩
  · exact hwaits
  · exact hwaits
  · rw [reading, hwaits] at hr
    cases hr

end InboundTraffic

namespace OutboundTraffic

variable {t t' : OutboundTraffic} {flow flow' : ConnFlow} {me : StreamRef} {wk wk' : Wakes}
  (flush : Bool) (w : Waker)

/-- Credit is nothing to the writer. -/
theorem Waits.receivedWindowUpdate {credit : NonZeroU32} {verdict : Except StreamError Unit}
    (h : t.receivedWindowUpdate credit flow me wk = .ok (verdict, t', flow', wk')) :
    wk'.woken = wk.woken ∧ (t.Waits flush w → t'.Waits flush w) := by
  have hwaits : t.Waits flush w → t'.Waits flush w := by
    rcases receivedWindowUpdate_cases h with ⟨-, rfl, -, -⟩ | ⟨-, -, -, rfl, -⟩
    · exact id
    · exact id
  refine ⟨?_, hwaits⟩
  unfold OutboundTraffic.receivedWindowUpdate at h
  dsimp only at h
  split at h
  · cases h
    rfl
  split at h
  · cases h
    rfl
  obtain ⟨⟨freed, window, pool⟩, -, h⟩ := Lib.bind_eq_ok.mp h
  cases h
  cases freed <;> cases t.hasUnsent <;> simp

/-- A writer that waits when the direction is closed from the other side is woken. -/
theorem Waits.closeReadingSide (t : OutboundTraffic) (me : StreamRef) (wk : Wakes) :
    wk.Grows (t.closeReadingSide me wk).2.2 ∧
      (w ∉ wk.since (t.closeReadingSide me wk).2.2 → t.Waits flush w →
        (t.closeReadingSide me wk).2.1.Waits flush w) := by
  unfold OutboundTraffic.closeReadingSide
  split
  · next data writer hs =>
    refine ⟨WakerSlot.wake_grows writer wk, fun hw ⟨d, hd⟩ => ?_⟩
    rcases hd with ⟨-, hd⟩ | ⟨-, hd⟩
    · rw [hs] at hd
      cases hd
      exact absurd (WakerSlot.mem_since_wake w rfl) hw
    · rw [hs] at hd
      cases hd
  · next data writer hs =>
    refine ⟨WakerSlot.wake_grows writer wk, fun hw ⟨d, hd⟩ => ?_⟩
    rcases hd with ⟨-, hd⟩ | ⟨-, hd⟩
    · rw [hs] at hd
      cases hd
    · rw [hs] at hd
      cases hd
      exact absurd (WakerSlot.mem_since_wake w rfl) hw
  · next fin hs =>
    have hnot : ¬ t.Waits flush w := by
      rintro ⟨d, ⟨-, hd⟩ | ⟨-, hd⟩⟩ <;> rw [hs] at hd <;> cases hd
    split_ifs
    · exact ⟨.refl _, fun _ h => h⟩
    · exact ⟨.refl _, fun _ h => absurd h hnot⟩

/-- At a `FIN_READ` whoever waits for the sending direction still does, or is woken. -/
theorem Waits.receivedFinRead {verdict : Except StreamError Unit}
    (h : t.receivedFinRead flow me wk = .ok (verdict, t', flow', wk')) :
    wk.Grows wk' ∧ (w ∉ wk.since wk' → t.Waits flush w → t'.Waits flush w) := by
  have hclose := Waits.closeReadingSide flush w t me wk
  unfold OutboundTraffic.receivedFinRead at h
  dsimp only at h
  split at h
  · cases h
    exact hclose
  · obtain ⟨⟨freed, window, pool⟩, -, h⟩ := Lib.bind_eq_ok.mp h
    cases h
    have hwoken : (if freed then flow.turns.wakeFront (t.closeReadingSide me wk).2.2
        else (t.closeReadingSide me wk).2.2).woken = (t.closeReadingSide me wk).2.2.woken := by
      split_ifs
      · exact Turns.wakeFront_woken _ _
      · rfl
    unfold Wakes.Grows Wakes.since at hclose ⊢
    rw [hwoken]
    exact hclose

/-- A writer that waits while the task is polled is woken when nothing is left to send. -/
theorem Waits.pollUpdate {allowance : ℚ≥0} {res : Poll (Bytes × Bool)}
    (h : t.pollUpdate flow me allowance wk = .ok (res, t', flow', wk')) :
    wk.Grows wk' ∧ (w ∉ wk.since wk' → t.Waits flush w → t'.Waits flush w) := by
  unfold OutboundTraffic.pollUpdate at h
  split at h
  · next data writer hs =>
    obtain ⟨⟨n, l, f, wk₁⟩, hplan, h⟩ := Lib.bind_eq_ok.mp h
    have hwoken := (Ledger.plan_planned hplan).woken
    cases n with
    | none =>
      cases h
      exact ⟨.of_eq hwoken, fun _ hwaits => hwaits⟩
    | some n =>
      obtain ⟨⟨chunk, rest⟩, hsplit, h⟩ := Lib.bind_eq_ok.mp h
      dsimp only at h
      split at h
      · cases h
        refine ⟨(Wakes.Grows.of_eq hwoken).trans (WakerSlot.wake_grows writer wk₁), ?_⟩
        rintro hw ⟨d, hd⟩
        rw [hs] at hd
        obtain ⟨-, rfl, rfl⟩ : d ≠ [] ∧ data = d ∧ writer = some w := by simpa using hd
        exact absurd (WakerSlot.mem_since_wake w hwoken) hw
      · next hrest =>
        cases h
        refine ⟨.of_eq hwoken, ?_⟩
        rintro hw ⟨d, hd⟩
        rw [hs] at hd
        obtain ⟨-, rfl, rfl⟩ : d ≠ [] ∧ data = d ∧ writer = some w := by simpa using hd
        exact ⟨rest, .inl ⟨hrest, rfl⟩⟩
  · next data writer hs =>
    obtain ⟨⟨n, l, f, wk₁⟩, hplan, h⟩ := Lib.bind_eq_ok.mp h
    have hwoken := (Ledger.plan_planned hplan).woken
    cases n with
    | none =>
      cases h
      exact ⟨.of_eq hwoken, fun _ hwaits => hwaits⟩
    | some n =>
      obtain ⟨⟨chunk, rest⟩, hsplit, h⟩ := Lib.bind_eq_ok.mp h
      dsimp only at h
      split at h
      · cases h
        refine ⟨(Wakes.Grows.of_eq hwoken).trans (WakerSlot.wake_grows writer wk₁), ?_⟩
        rintro hw ⟨d, hd⟩
        rw [hs] at hd
        obtain ⟨-, rfl, rfl⟩ : flush = true ∧ data = d ∧ writer = some w := by simpa using hd
        exact absurd (WakerSlot.mem_since_wake w hwoken) hw
      · next hrest =>
        cases h
        refine ⟨.of_eq hwoken, ?_⟩
        rintro hw ⟨d, hd⟩
        rw [hs] at hd
        obtain ⟨hflush, rfl, rfl⟩ : flush = true ∧ data = d ∧ writer = some w := by simpa using hd
        exact ⟨rest, .inr ⟨hflush, rfl⟩⟩
  · next fin hs =>
    have hnot : ¬ t.Waits flush w := by
      rintro ⟨d, ⟨-, hd⟩ | ⟨-, hd⟩⟩ <;> rw [hs] at hd <;> cases hd
    have hpass := flow.passTurn_woken me wk
    dsimp only at h
    split at h <;> cases h
    · exact ⟨.of_eq hpass, fun _ hwaits => hwaits⟩
    · exact ⟨.of_eq hpass, fun _ hwaits => absurd hwaits hnot⟩

end OutboundTraffic

/-! ## A stream -/

namespace StreamCtx

/-- Nobody who waits is forgotten: from one point to the next, whoever waits with a waker still
does, or the waker was woken. -/
structure Kept (c c' : StreamCtx) : Prop where
  grows : c.wakes.Grows c'.wakes
  reader : ∀ w, w ∉ c.wakes.since c'.wakes → c.state.inbound.Waits w → c'.state.inbound.Waits w
  writer : ∀ flush w, w ∉ c.wakes.since c'.wakes → c.state.outbound.Waits flush w →
    c'.state.outbound.Waits flush w

/-- Where nothing happens whoever waits still does. -/
theorem Kept.refl (c : StreamCtx) : c.Kept c := ⟨.refl _, fun _ _ h => h, fun _ _ _ h => h⟩

/-- Nobody who waits is forgotten, step after step. -/
theorem Kept.trans {c c₁ c' : StreamCtx} (h : c.Kept c₁) (h' : c₁.Kept c') : c.Kept c' := by
  have hsince (w : Waker) := Wakes.mem_since_trans (w := w) h.grows h'.grows
  refine ⟨h.grows.trans h'.grows, fun w hw hwaits => ?_, fun flush w hw hwaits => ?_⟩
  · obtain ⟨hw₁, hw₂⟩ := not_or.mp (mt (hsince w).mpr hw)
    exact h'.reader w hw₂ (h.reader w hw₁ hwaits)
  · obtain ⟨hw₁, hw₂⟩ := not_or.mp (mt (hsince w).mpr hw)
    exact h'.writer flush w hw₂ (h.writer flush w hw₁ hwaits)

section Stages

variable {c c' : StreamCtx} {me : StreamRef}

/-- Whatever the peer sends, nobody who waits is forgotten. -/
theorem received_kept {credit : Option NonZeroU32} {data : Bytes} {flags : ControlFlags}
    {verdict : Except StreamError FinState}
    (h : c.received credit data flags me = .ok (verdict, c')) : c.Kept c' := by
  refine received_rel Kept.refl Kept.trans ?_ ?_ ?_ ?_ h
  · intro c v c' h
    rcases receivedCredit_split h with ⟨-, -, rfl⟩ | ⟨k, o, f, wk, -, hup, rfl⟩
    · exact .refl _
    · exact ⟨.of_eq (OutboundTraffic.Waits.receivedWindowUpdate true 0 hup).1, fun _ _ h => h,
        fun flush w _ => (OutboundTraffic.Waits.receivedWindowUpdate flush w hup).2⟩
  · intro c v c' h
    obtain ⟨i, rxPool, wk, hd, rfl⟩ := receivedData_split h
    exact ⟨(InboundTraffic.Waits.receivedData 0 hd).1,
      fun w => (InboundTraffic.Waits.receivedData w hd).2, fun _ _ _ h => h⟩
  · intro c v c' h
    rcases receivedFinWrite_split h with ⟨-, -, rfl⟩ | ⟨i, wk, -, hfin, rfl⟩
    · exact .refl _
    · have hwaits (w : Waker) := InboundTraffic.Waits.receivedFinWrite w c.state.inbound me c.wakes
      rw [hfin] at hwaits
      exact ⟨(hwaits 0).1, fun w => (hwaits w).2, fun _ _ _ h => h⟩
  · intro c v c' h
    rcases receivedFinRead_split h with ⟨-, -, rfl⟩ | ⟨o, f, wk, -, hfin, rfl⟩
    · exact .refl _
    · exact ⟨(OutboundTraffic.Waits.receivedFinRead true 0 hfin).1, fun _ _ h => h,
        fun flush w => (OutboundTraffic.Waits.receivedFinRead flush w hfin).2⟩

/-- However the task is polled, nobody who waits is forgotten. -/
theorem pollProgress_kept {task task' : StreamUpdates} {allowance : ℚ≥0} {res : Poll Progress}
    (h : c.pollProgress task me allowance = .ok (res, task', c')) : c.Kept c' := by
  obtain ⟨inRes, outRes, rxPool, wk, hin, hout, hres⟩ := pollProgress_split h
  have hwoken : c'.wakes.woken = wk.woken := by
    rcases hres with ⟨-, -, -, -, hw⟩ | ⟨-, hw, -⟩
    · rw [hw]
      rfl
    · rw [hw]
  have hpoll (flush : Bool) (w : Waker) :=
    OutboundTraffic.Waits.pollUpdate flush w hout
  unfold Wakes.Grows Wakes.since at hpoll
  rw [← hwoken] at hpoll
  exact ⟨(hpoll true 0).1, fun w _ => InboundTraffic.Waits.pollUpdate w hin,
    fun flush w => (hpoll flush w).2⟩

/-- When the connection goes, nobody who waits is forgotten. -/
theorem abort_kept (c : StreamCtx) (me : StreamRef) : c.Kept (c.abort me) := by
  have hin : c.Kept ⟨⟨(c.state.inbound.receivedFinWrite me c.wakes).2.1, c.state.outbound⟩, c.flow,
      (c.state.inbound.receivedFinWrite me c.wakes).2.2⟩ :=
    ⟨(InboundTraffic.Waits.receivedFinWrite 0 c.state.inbound me c.wakes).1,
      fun w => (InboundTraffic.Waits.receivedFinWrite w c.state.inbound me c.wakes).2,
      fun _ _ _ h => h⟩
  refine hin.trans ⟨?_, fun _ _ h => h, fun flush w => ?_⟩
  · exact (OutboundTraffic.Waits.closeReadingSide true 0 c.state.outbound me _).1
  · exact (OutboundTraffic.Waits.closeReadingSide flush w c.state.outbound me _).2

/-- The application itself wakes none of its wakers. What it does with one half is nothing to the
other. -/
theorem app_kept {op : AppOp} {res : AppResult} (h : c.app op me = .ok (res, c')) :
    c'.wakes.woken = c.wakes.woken ∧
      (op.ofReader = false → c'.state.inbound = c.state.inbound) ∧
      (op.ofReader = true → c'.state.outbound = c.state.outbound) := by
  unfold app at h
  cases op with
  | pollRead waker =>
    obtain ⟨⟨chunk, i, wk⟩, hread, h⟩ := Lib.bind_eq_ok.mp h
    cases h
    exact ⟨InboundTraffic.pollRead_woken hread, nofun, fun _ => rfl⟩
  | closeReading =>
    cases h
    refine ⟨?_, nofun, fun _ => rfl⟩
    rcases c.state.inbound.closeReading_cases me c.wakes with ⟨-, h⟩ | ⟨-, h⟩ <;>
      simp [h]
  | pollWriteReady waker =>
    cases h
    exact ⟨rfl, fun _ => rfl, nofun⟩
  | write data =>
    cases h
    refine ⟨?_, fun _ => rfl, nofun⟩
    rcases c.state.outbound.write_cases data me c.wakes with (⟨e, h⟩ | ⟨-, -, h⟩) | ⟨w, -, -, h⟩ <;>
      simp [h]
  | pollFlushed waker =>
    cases h
    exact ⟨rfl, fun _ => rfl, nofun⟩
  | closeWriting =>
    cases h
    refine ⟨?_, fun _ => rfl, nofun⟩
    rcases c.state.outbound.closeWriting_cases me c.wakes with ⟨-, h⟩ | ⟨w, -, h⟩ |
      ⟨d, w, -, -, h⟩ <;>
      simp [h]

end Stages

end StreamCtx

/-! ## What the application is told to wait for -/

/-- The operations that can be pending. -/
inductive Await where
  | read
  | writeReady
  | flushed

namespace Await

/-- The operation, with the waker to register. -/
def op : Await → Waker → AppOp
  | .read, w => .pollRead w
  | .writeReady, w => .pollWriteReady w
  | .flushed, w => .pollFlushed w

/-- The answer of an operation that is pending. -/
def pending : Await → AppResult
  | .read => .read .pending
  | .writeReady => .writeReady .pending
  | .flushed => .flushed .pending

/-- Whether it is the reading half that waits. -/
def ofReader : Await → Bool
  | .read => true
  | .writeReady | .flushed => false

/-- The half that waits has its waker in its slot, and a reason to wait. -/
def Waits (q : Await) (w : Waker) (s : StreamState) : Prop :=
  match q with
  | .read => s.inbound.Waits w
  | .writeReady => s.outbound.Waits false w
  | .flushed => s.outbound.Waits true w

variable {c c' : StreamCtx} {q : Await} {w : Waker} {me : StreamRef}

/-- An operation that is pending leaves its waker. -/
theorem waits_of_pending (h : c.app (q.op w) me = .ok (q.pending, c')) : q.Waits w c'.state := by
  cases q with
  | read =>
    obtain ⟨⟨chunk, i, wk⟩, hread, h⟩ := Lib.bind_eq_ok.mp h
    cases h
    rcases InboundTraffic.pollRead_cases hread with ⟨-, -, -, -, rfl, -⟩ | ⟨hres, -⟩ | ⟨d, hres, -⟩
    · rfl
    · cases hres
    · cases hres
  | writeReady =>
    simp only [op, pending, StreamCtx.app, OutboundTraffic.pollWriteReady] at h
    split at h
    · next data writer hs =>
      split at h
      · cases h
      · next hne =>
        cases h
        -- Pending with data unsent: the waker is in the slot.
        exact ⟨data, .inl ⟨hne, rfl⟩⟩
    · cases h
    · cases h
  | flushed =>
    simp only [op, pending, StreamCtx.app, OutboundTraffic.pollFlushed] at h
    split at h
    · next data writer hs =>
      split at h
      · cases h
      · next hne =>
        cases h
        exact ⟨data, .inl ⟨hne, rfl⟩⟩
    · next data writer hs =>
      cases h
      exact ⟨data, .inr ⟨rfl, rfl⟩⟩
    · cases h

/-- As long as it waits, the operation is pending. -/
theorem pending_of_waits (h : q.Waits w c.state) (w' : Waker) (me : StreamRef) :
    ∃ c', c.app (q.op w') me = .ok (q.pending, c') := by
  cases q with
  | read =>
    have hread : c.state.inbound.pollRead w' me c.wakes =
        .ok (.pending, { c.state.inbound with state := .open [] (some w') }, c.wakes) := by
      rw [InboundTraffic.pollRead, show c.state.inbound.state = _ from h]
      rfl
    exact ⟨_, Lib.bind_eq_ok.mpr ⟨_, hread, rfl⟩⟩
  | writeReady =>
    have hpend : (c.state.outbound.pollWriteReady w').1 = .pending := by
      obtain ⟨data, ⟨hne, hs⟩ | ⟨hflush, -⟩⟩ := h
      · simp [OutboundTraffic.pollWriteReady, hs, hne]
      · cases hflush
    simp only [op, pending, StreamCtx.app, hpend]
    exact ⟨_, rfl⟩
  | flushed =>
    have hpend : (c.state.outbound.pollFlushed w').1 = .pending := by
      obtain ⟨data, ⟨hne, hs⟩ | ⟨-, hs⟩⟩ := h
      · simp [OutboundTraffic.pollFlushed, hs, hne]
      · simp [OutboundTraffic.pollFlushed, hs]
    simp only [op, pending, StreamCtx.app, hpend]
    exact ⟨_, rfl⟩

/-- Whoever is not forgotten waits on, unless woken. -/
theorem Waits.kept (hk : c.Kept c') (hw : w ∉ c.wakes.since c'.wakes) (h : q.Waits w c.state) :
    q.Waits w c'.state := by
  cases q with
  | read => exact hk.reader w hw h
  | writeReady => exact hk.writer false w hw h
  | flushed => exact hk.writer true w hw h

/-- What the application does with the other half is nothing to the one that waits. -/
theorem Waits.app {op : AppOp} {res : AppResult} (happ : c.app op me = .ok (res, c'))
    (hother : op.ofReader ≠ q.ofReader) (h : q.Waits w c.state) : q.Waits w c'.state := by
  obtain ⟨-, hin, hout⟩ := StreamCtx.app_kept happ
  cases q with
  | read =>
    have hi := hin (Bool.eq_false_iff.mpr hother)
    rw [Waits, hi]
    exact h
  | writeReady =>
    have ho := hout (Bool.eq_true_of_not_eq_false hother)
    rw [Waits, ho]
    exact h
  | flushed =>
    have ho := hout (Bool.eq_true_of_not_eq_false hother)
    rw [Waits, ho]
    exact h

end Await

end Rammux
