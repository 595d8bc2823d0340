import Rammux.Stream.Wake

/-!
# The sending direction of a stream

`OutboundTraffic` and `Ledger` of `src/stream/outbound.rs`. The sender decides how much of the
peer's pool a stream uses: what its allowance permits and the pool has room for, when it is its
turn.

The allowance is an input of a poll, a nonnegative rational that stands for the estimate of the
rate at the time of the poll. The subtraction of the borrowed bytes from it is exact here; so it is
in the code, where the borrowed bytes are below `2^33` and an allowance beyond `2^53` exceeds what
any pool holds.

`Ledger.Planned` lists what a plan can do, with the conditions; everything else is proved from it.
`OutboundTraffic.WF` is the invariant of the direction: once `FIN_READ` is received nothing is in
flight (`WF.received`).
-/

namespace Rammux

/-! ## The ledger -/

/-- What the sender knows about the bytes of a stream in flight. -/
structure Ledger where
  /-- Bytes in flight, against the base window and the peer's pool. -/
  window : Window
  /-- Largest `DATA` payload. -/
  frameLimit : ℕ
  frameLimit_pos : 0 < frameLimit
  deriving DecidableEq

namespace Ledger

/-- Whole bytes of the allowance that are not borrowed yet. Without a round trip time there is no
allowance. -/
def mayBorrow (ledger : Ledger) (srtt : Srtt) (allowance : ℚ≥0) : ℕ :=
  let allowance : ℚ≥0 := if srtt.isSome then allowance else 0
  ⌊max ((allowance : ℚ) - ledger.window.borrowed) 0⌋.toNat

/-- Decides how many of the `waiting` bytes the stream sends now, and accounts for them. -/
def plan (ledger : Ledger) (flow : ConnFlow) (me : StreamRef) (allowance : ℚ≥0) (wk : Wakes)
    (waiting : ℕ) : Except Panic (Option ℕ × Ledger × ConnFlow × Wakes) :=
  if waiting = 0 then
    -- Nothing waits, so a turn is passed on.
    let passed := flow.passTurn me wk
    .ok (none, ledger, passed.1, passed.2)
  else
    let baseRoom := ledger.window.baseRoom
    let full := min ledger.frameLimit waiting
    -- No borrowing is needed, and the turn is nobody's matter.
    if full ≤ baseRoom then do
      let (window, txPool) ← ledger.window.add flow.txPool full
      return (some full, { ledger with window }, { flow with txPool }, wk)
    else
      let mayBorrow := ledger.mayBorrow flow.srtt allowance
      -- Only the stream that has the turn may borrow.
      let shared := if flow.turns.hasTurn me then min mayBorrow flow.txPool.room else 0
      let n := min full (baseRoom + shared)
      if n = 0 then
        -- With its allowance used up the stream must not block the queue.
        if mayBorrow = 0 then
          let passed := flow.passTurn me wk
          .ok (none, ledger, passed.1, passed.2)
        else .ok (none, ledger, { flow with turns := flow.turns.join me }, wk)
      else do
        let (window, txPool) ← ledger.window.add flow.txPool n
        if baseRoom < n then
          -- After a turn with more to send, the stream goes to the end of the queue.
          let turns := (flow.turns.leave me).2
          let turns := if n < waiting then turns.join me else turns
          let wk := if txPool.hasRoom then turns.wakeFront wk else wk
          return (some n, { ledger with window }, { flow with txPool, turns }, wk)
        else return (some n, { ledger with window }, { flow with txPool }, wk)

/-- The window after `n` more bytes were sent. -/
def sent (ledger : Ledger) (n : ℕ) : Ledger :=
  { ledger with window := { ledger.window with unacked := ledger.window.unacked + n } }

/-- What a plan can do. -/
inductive Planned (l : Ledger) (flow : ConnFlow) (me : StreamRef) (allowance : ℚ≥0) (wk : Wakes)
    (waiting : ℕ) : Option ℕ → Ledger → ConnFlow → Wakes → Prop where
  /-- Nothing waits. -/
  | nothing (hwaiting : waiting = 0) :
      Planned l flow me allowance wk waiting none l (flow.passTurn me wk).1 (flow.passTurn me wk).2
  /-- What is sent fits in the base window. -/
  | fits {n : ℕ} {txPool : Pool} (hpos : 0 < n) (hn : n ≤ min l.frameLimit waiting)
      (hbase : n ≤ l.window.baseRoom)
      (hmoves : l.window.Moves flow.txPool (l.sent n).window txPool) :
      Planned l flow me allowance wk waiting (some n) (l.sent n) { flow with txPool } wk
  /-- The stream has its turn, and borrows. -/
  | borrows {n : ℕ} {txPool : Pool} (hn : n ≤ min l.frameLimit waiting)
      (hbase : l.window.baseRoom < n) (hturn : flow.turns.hasTurn me = true)
      (hallowance : n ≤ l.window.baseRoom + l.mayBorrow flow.srtt allowance)
      (hroom : n ≤ l.window.baseRoom + flow.txPool.room)
      (hmoves : l.window.Moves flow.txPool (l.sent n).window txPool) :
      Planned l flow me allowance wk waiting (some n) (l.sent n)
        { flow with txPool, turns := if n < waiting then (flow.turns.leave me).2.join me
                                     else (flow.turns.leave me).2 }
        (if txPool.hasRoom then
          (if n < waiting then (flow.turns.leave me).2.join me
            else (flow.turns.leave me).2).wakeFront wk
        else wk)
  /-- The allowance is used up: only credit of the stream's own can help. -/
  | exhausted (hpos : 0 < waiting) (hbase : l.window.baseRoom = 0)
      (hallowance : l.mayBorrow flow.srtt allowance = 0) :
      Planned l flow me allowance wk waiting none l (flow.passTurn me wk).1 (flow.passTurn me wk).2
  /-- It is not the stream's turn, or the pool is empty. -/
  | queued (hpos : 0 < waiting) (hbase : l.window.baseRoom = 0)
      (hallowance : 0 < l.mayBorrow flow.srtt allowance)
      (hturn : flow.turns.hasTurn me = true → flow.txPool.hasRoom = false) :
      Planned l flow me allowance wk waiting none l { flow with turns := flow.turns.join me } wk

/-- `plan` does one of the things that `Planned` lists. -/
theorem plan_planned {l l' : Ledger} {flow flow' : ConnFlow} {me : StreamRef} {allowance : ℚ≥0}
    {wk wk' : Wakes} {waiting : ℕ} {res : Option ℕ}
    (h : l.plan flow me allowance wk waiting = .ok (res, l', flow', wk')) :
    l.Planned flow me allowance wk waiting res l' flow' wk' := by
  have hlimit := l.frameLimit_pos
  unfold plan at h
  by_cases hw : waiting = 0
  · rw [if_pos hw] at h
    cases h
    exact .nothing hw
  rw [if_neg hw] at h
  dsimp only at h
  -- The base window has room for a whole frame, or for all that waits.
  by_cases hfull : min l.frameLimit waiting ≤ l.window.baseRoom
  · rw [if_pos hfull] at h
    simp only [Lib.bind_eq_ok] at h
    obtain ⟨⟨w, p⟩, hadd, h⟩ := h
    obtain ⟨rfl, hmoves⟩ := Window.add_eq_ok hadd
    cases h
    exact .fits (by omega) le_rfl hfull hmoves
  rw [if_neg hfull] at h
  -- What may be borrowed: nothing out of turn.
  generalize hshared : (if flow.turns.hasTurn me = true then
    min (l.mayBorrow flow.srtt allowance) flow.txPool.room else 0) = shared at h
  by_cases hn : min (min l.frameLimit waiting) (l.window.baseRoom + shared) = 0
  · rw [if_pos hn] at h
    have hbase : l.window.baseRoom = 0 := by omega
    -- Nothing can be sent: without leave to borrow there is no reason to queue.
    by_cases hmay : l.mayBorrow flow.srtt allowance = 0
    · rw [if_pos hmay] at h
      cases h
      exact .exhausted (by omega) hbase hmay
    · rw [if_neg hmay] at h
      cases h
      refine .queued (by omega) hbase (by omega) fun hturn => ?_
      rw [if_pos hturn] at hshared
      simp only [Pool.hasRoom, decide_eq_false_iff_not]
      omega
  rw [if_neg hn] at h
  simp only [Lib.bind_eq_ok] at h
  obtain ⟨⟨w, p⟩, hadd, h⟩ := h
  obtain ⟨rfl, hmoves⟩ := Window.add_eq_ok hadd
  dsimp only at h
  -- More than the base window has room for is sent only by the stream whose turn it is.
  by_cases hbase : l.window.baseRoom < min (min l.frameLimit waiting) (l.window.baseRoom + shared)
  · rw [if_pos hbase] at h
    cases h
    have hturn : flow.turns.hasTurn me = true := by
      by_contra hno
      rw [if_neg hno] at hshared
      omega
    rw [if_pos hturn] at hshared
    exact .borrows (by omega) hbase hturn (by omega) (by omega) hmoves
  · rw [if_neg hbase] at h
    cases h
    exact .fits (by omega) (by omega) (by omega) hmoves

/-- A plan is made where the pool counts what the window borrows, and the counts of a frame more
fit. -/
theorem plan_returns {l : Ledger} {flow : ConnFlow} (me : StreamRef) (allowance : ℚ≥0) (wk : Wakes)
    (waiting : ℕ) (hle : l.window.borrowed ≤ flow.txPool.used)
    (hlt : flow.txPool.used + l.window.unacked + l.frameLimit < 2^64) :
    ∃ r, l.plan flow me allowance wk waiting = .ok r := by
  have hadd (n : ℕ) (hn : n ≤ min l.frameLimit waiting) :
      ∃ r, l.window.add flow.txPool n = .ok r := Window.add_ok hle (by omega)
  unfold plan
  dsimp only
  -- What the stream may borrow does not matter: a frame is never longer than the limit.
  generalize (if flow.turns.hasTurn me = true then _ else 0) = shared
  by_cases hwaiting : waiting = 0
  · exact ⟨_, if_pos hwaiting⟩
  rw [if_neg hwaiting]
  by_cases hfits : min l.frameLimit waiting ≤ l.window.baseRoom
  · obtain ⟨r, hr⟩ := hadd _ (Nat.le_refl _)
    exact ⟨_, (if_pos hfits).trans (Lib.bind_eq_ok.mpr ⟨r, hr, rfl⟩)⟩
  rw [if_neg hfits]
  obtain ⟨r, hr⟩ := hadd _ (Nat.min_le_left _ (l.window.baseRoom + shared))
  split_ifs
  · exact ⟨_, rfl⟩
  · exact ⟨_, rfl⟩
  all_goals exact ⟨_, Lib.bind_eq_ok.mpr ⟨r, hr, rfl⟩⟩

/-- The whole bytes that may still be borrowed, on top of those that are, are those of the
allowance. -/
theorem mayBorrow_le (l : Ledger) (srtt : Srtt) (allowance : ℚ≥0) :
    l.mayBorrow srtt allowance ≤ ⌊allowance⌋₊ - l.window.borrowed := by
  have hle : (if srtt.isSome then allowance else 0) ≤ allowance := by
    split_ifs
    · exact le_rfl
    · exact zero_le
  have hfloor : ∀ (a : ℚ≥0) (b : ℕ), ⌊max ((a : ℚ) - b) 0⌋.toNat = ⌊a⌋₊ - b := by
    intro a b
    rw [Int.floor_toNat, ← NNRat.floor_coe a, ← Nat.floor_sub_natCast]
    rcases le_total ((a : ℚ) - b) 0 with h | h
    · rw [max_eq_right h, Nat.floor_of_nonpos h, Nat.floor_zero]
    · rw [max_eq_left h]
  unfold mayBorrow
  rw [hfloor]
  exact Nat.sub_le_sub_right (Nat.floor_mono hle) _

section Planned

variable {l l' : Ledger} {flow flow' : ConnFlow} {me : StreamRef} {allowance : ℚ≥0}
  {wk wk' : Wakes} {waiting : ℕ} {res : Option ℕ}

/-- What is planned to be sent is counted as sent. -/
theorem Planned.eq_sent (h : l.Planned flow me allowance wk waiting res l' flow' wk') :
    l' = l.sent (res.getD 0) := by
  cases h <;> rfl

/-- What is sent is something, fits in a frame, and was waiting. -/
theorem Planned.bounds {n : ℕ}
    (h : l.Planned flow me allowance wk waiting (some n) l' flow' wk') :
    0 < n ∧ n ≤ l.frameLimit ∧ n ≤ waiting := by
  cases h with
  | fits hpos hn => exact ⟨hpos, by omega, by omega⟩
  | borrows hn hbase => exact ⟨by omega, by omega, by omega⟩

/-- If nothing is sent, nothing waits or the base window is used up. -/
theorem Planned.idle (h : l.Planned flow me allowance wk waiting none l' flow' wk') :
    waiting = 0 ∨ l.window.baseRoom = 0 := by
  cases h with
  | nothing hw => exact .inl hw
  | exhausted _ hbase => exact .inr hbase
  | queued _ hbase => exact .inr hbase

/-- A plan moves room between the window and the pool. -/
theorem Planned.moves (h : l.Planned flow me allowance wk waiting res l' flow' wk') :
    l.window.Moves flow.txPool l'.window flow'.txPool := by
  cases h with
  | nothing | exhausted => rw [ConnFlow.passTurn_fst]; exact Window.Moves.refl _ _
  | queued => exact Window.Moves.refl _ _
  | fits _ _ _ hmoves => exact hmoves
  | borrows _ _ _ _ _ hmoves => exact hmoves

/-- A plan touches nothing of the flow but the peer's pool and the turns. -/
theorem Planned.keeps (h : l.Planned flow me allowance wk waiting res l' flow' wk') :
    flow'.srtt = flow.srtt ∧ flow'.rxPool = flow.rxPool := by
  cases h with
  | nothing | exhausted => rw [ConnFlow.passTurn_fst]; exact ⟨rfl, rfl⟩
  | queued | fits | borrows => exact ⟨rfl, rfl⟩

/-- A plan never overdraws the pool. -/
theorem Planned.within (h : l.Planned flow me allowance wk waiting res l' flow' wk')
    (hw : flow.txPool.used ≤ flow.txPool.size) : flow'.txPool.used ≤ flow'.txPool.size := by
  cases h with
  | nothing | exhausted => rw [ConnFlow.passTurn_fst]; exact hw
  | queued => exact hw
  | fits _ _ hbase hmoves =>
    have hused := hmoves.used
    have hsize := hmoves.size
    simp only [sent, Window.borrowed, Window.borrowedAt, Window.baseRoom] at hused hbase
    dsimp only
    omega
  | borrows _ _ _ _ hroom hmoves =>
    have hused := hmoves.used
    have hsize := hmoves.size
    simp only [sent, Window.borrowed, Window.borrowedAt, Window.baseRoom, Pool.room] at hused hroom
    dsimp only
    omega

/-- A plan borrows no more than the allowance. -/
theorem Planned.borrowed_le (h : l.Planned flow me allowance wk waiting res l' flow' wk') :
    l'.window.borrowed ≤ max l.window.borrowed ⌊allowance⌋₊ := by
  cases h with
  | nothing | exhausted | queued => exact le_max_left _ _
  | fits _ _ hbase =>
    simp only [sent, Window.borrowed, Window.borrowedAt, Window.baseRoom] at hbase ⊢
    omega
  | borrows _ _ _ hallowance =>
    have hmay := l.mayBorrow_le flow.srtt allowance
    simp only [sent, Window.borrowed, Window.borrowedAt, Window.baseRoom] at hallowance hmay ⊢
    omega

/-! ### The turn queue -/

/-- A plan takes no wake-up back. -/
theorem Planned.le (h : l.Planned flow me allowance wk waiting res l' flow' wk') : wk.Le wk' := by
  cases h with
  | nothing | exhausted => exact ConnFlow.le_passTurn _ _ _
  | queued | fits => exact Wakes.Le.refl _
  | borrows =>
    split_ifs
    · exact Turns.le_wakeFront _ _
    · exact Turns.le_wakeFront _ _
    · exact Wakes.Le.refl _

/-- A plan moves no other stream into the queue, or out of it. -/
theorem Planned.mem_queue (h : l.Planned flow me allowance wk waiting res l' flow' wk')
    {r : StreamRef} (hr : r ≠ me) : r ∈ flow'.turns.queue ↔ r ∈ flow.turns.queue := by
  cases h with
  | nothing | exhausted => rw [ConnFlow.passTurn_fst]; exact List.mem_erase_of_ne hr
  | queued => simp [Turns.mem_join, hr]
  | fits => exact Iff.rfl
  | borrows =>
    dsimp only
    split_ifs
    · simp only [Turns.mem_join, hr, or_false, Turns.mem_leave hr]
    · exact Turns.mem_leave hr

/-- A plan queues no stream twice. -/
theorem Planned.nodup (h : l.Planned flow me allowance wk waiting res l' flow' wk')
    (hq : flow.turns.queue.Nodup) : flow'.turns.queue.Nodup := by
  cases h with
  | nothing | exhausted => rw [ConnFlow.passTurn_fst]; exact hq.erase me
  | queued => exact Turns.nodup_join me hq
  | fits => exact hq
  | borrows =>
    dsimp only
    split_ifs
    · exact Turns.nodup_join me (hq.erase me)
    · exact hq.erase me

/-- A stream that sends nothing is in the queue after it only with data it has no room for. -/
theorem Planned.me_queue (h : l.Planned flow me allowance wk waiting none l' flow' wk')
    (hq : flow.turns.queue.Nodup) (hme : me ∈ flow'.turns.queue) :
    0 < waiting ∧ l.window.baseRoom = 0 := by
  cases h with
  | nothing | exhausted =>
    rw [ConnFlow.passTurn_fst] at hme
    exact absurd hme (by simp [hq.mem_erase_iff])
  | queued hpos hbase => exact ⟨hpos, hbase⟩

/-- After a plan, if the pool has room, the stream that is first in line is scheduled, unless it is
this stream; and then it sent something. -/
theorem Planned.front (h : l.Planned flow me allowance wk waiting res l' flow' wk')
    (hfront : flow.FrontScheduled wk) (hlive : ∀ r ∈ flow.turns.queue, (wk.updates r).Live)
    (hq : flow.turns.queue.Nodup) {r : StreamRef} (hr : flow'.turns.queue.head? = some r)
    (hroom : flow'.txPool.hasRoom = true) :
    (r ≠ me → (wk'.updates r).scheduled = true) ∧ (r = me → res ≠ none) := by
  cases h with
  | nothing | exhausted =>
    -- The turn is passed on, which wakes the next in line.
    refine ⟨fun _ => ConnFlow.frontScheduled_passTurn (fun r hr hroom _ => hfront r hr hroom)
      (fun r hr _ => hlive r hr) hq r hr hroom, ?_⟩
    rintro rfl
    rw [ConnFlow.passTurn_fst] at hr
    exact absurd (List.mem_of_head? hr) (by simp [hq.mem_erase_iff])
  | queued _ _ _ hturn =>
    -- Whoever has the turn and cannot borrow has found the pool empty.
    refine ⟨fun hrm => hfront r (Turns.head_of_head_join hrm hr) hroom, ?_⟩
    rintro rfl
    rw [hturn (Turns.hasTurn_of_head_join hr)] at hroom
    cases hroom
  | fits _ _ hbase hmoves =>
    refine ⟨fun _ => hfront r hr ?_, by simp⟩
    -- Nothing was borrowed, so the pool had the same room before.
    have hused := hmoves.used
    have hsize := hmoves.size
    simp only [sent, Window.borrowed, Window.borrowedAt, Window.baseRoom] at hused hbase
    rw [Pool.hasRoom_iff] at hroom ⊢
    dsimp only at hroom
    omega
  | borrows =>
    refine ⟨fun hrm => ?_, by simp⟩
    -- Borrowing wakes the next in line itself, if the pool has room left.
    rw [if_pos hroom]
    generalize hturns : (if _ < waiting then (flow.turns.leave me).2.join me
      else (flow.turns.leave me).2) = turns at hr
    have hmem : r ∈ flow.turns.queue := by
      have := List.mem_of_head? hr
      rw [← hturns] at this
      dsimp only at this
      split_ifs at this
      · simpa only [Turns.mem_join, hrm, or_false, Turns.mem_leave hrm] using this
      · exact (Turns.mem_leave hrm).mp this
    simp only [Turns.wakeFront, hr]
    exact (Wakes.Le.refl _).scheduled_of_wake (hlive r hmem)

end Planned

end Ledger

/-! ## The direction -/

/-- The state of a sending direction. -/
inductive OutboundState where
  /-- The application may write. The data is what it wrote and was not sent yet. -/
  | open (readyData : Bytes) (writer : WakerSlot)
  /-- The application closed writing, and there is data to send before `FIN_WRITE`. -/
  | halfClosed (readyData : Bytes) (writer : WakerSlot)
  /-- Nothing more will be sent but `FIN_WRITE`, if it was not sent yet. -/
  | closed (finState : FinState)
  deriving DecidableEq

/-- The sending direction of a stream. -/
structure OutboundTraffic where
  state : OutboundState
  ledger : Ledger
  deriving DecidableEq

/-- Why a write is refused. -/
inductive WriteError where
  | brokenPipe
  | notReady
  deriving DecidableEq, Repr

namespace OutboundTraffic

/-- A direction on which nothing was sent. -/
def new (frameLimit : ℕ) (frameLimit_pos : 0 < frameLimit) (baseWindow : ℕ) : OutboundTraffic where
  state := .open [] none
  ledger := { window := Window.new baseWindow, frameLimit, frameLimit_pos }

/-- The `FIN_*` state of the direction. -/
def finState (t : OutboundTraffic) : FinState :=
  match t.state with
  | .open .. | .halfClosed .. => {}
  | .closed finState => finState

/-! ### The application side -/

/-- Whether the application can write. -/
def pollWriteReady (t : OutboundTraffic) (waker : Waker) :
    Poll (Except WriteError Unit) × OutboundTraffic :=
  match t.state with
  | .open readyData writer =>
    if readyData = [] then (.ready (.ok ()), t)
    else (.pending, { t with state := .open readyData (writer.register waker) })
  | .halfClosed .. | .closed _ => (.ready (.error .brokenPipe), t)

/-- Takes data from the application. -/
def write (t : OutboundTraffic) (data : Bytes) (me : StreamRef) (wk : Wakes) :
    Except WriteError Unit × OutboundTraffic × Wakes :=
  match t.state with
  | .open readyData writer =>
    if readyData ≠ [] then (.error .notReady, t, wk)
    else if data ≠ [] then (.ok (), { t with state := .open data writer }, wk.wake me)
    else (.ok (), t, wk)
  | .halfClosed .. | .closed _ => (.error .brokenPipe, t, wk)

/-- Whether everything the application wrote was handed to the connection. -/
def pollFlushed (t : OutboundTraffic) (waker : Waker) : Poll Unit × OutboundTraffic :=
  match t.state with
  | .open readyData writer =>
    if readyData = [] then (.ready (), t)
    else (.pending, { t with state := .open readyData (writer.register waker) })
  | .halfClosed readyData writer =>
    (.pending, { t with state := .halfClosed readyData (writer.register waker) })
  | .closed _ => (.ready (), t)

/-- The application closes writing. `FIN_WRITE` follows the data that is not sent yet. -/
def closeWriting (t : OutboundTraffic) (me : StreamRef) (wk : Wakes) : OutboundTraffic × Wakes :=
  match t.state with
  | .open readyData writer =>
    if readyData = [] then ({ t with state := .closed {} }, wk.wake me)
    else ({ t with state := .halfClosed readyData writer }, wk)
  | .halfClosed .. | .closed _ => (t, wk)

/-! ### The connection side -/

/-- `Bytes::split_to`: the first `len` bytes, and the rest. -/
def splitTo (data : Bytes) (len : ℕ) : Except Panic (Bytes × Bytes) :=
  if len ≤ data.length then .ok (data.take len, data.drop len) else .error .splitTo

/-- Polls for what the direction sends next: a chunk of data, and whether `FIN_WRITE` follows. -/
def pollUpdate (t : OutboundTraffic) (flow : ConnFlow) (me : StreamRef) (allowance : ℚ≥0)
    (wk : Wakes) : Except Panic (Poll (Bytes × Bool) × OutboundTraffic × ConnFlow × Wakes) :=
  match t.state with
  | .open readyData writer => do
    let (len, ledger, flow, wk) ← t.ledger.plan flow me allowance wk readyData.length
    match len with
    | none => return (.pending, { t with ledger }, flow, wk)
    | some len =>
      let (chunk, rest) ← splitTo readyData len
      if rest = [] then
        return (.ready (chunk, false), ⟨.open rest none, ledger⟩, flow, writer.wake wk)
      else return (.ready (chunk, false), ⟨.open rest writer, ledger⟩, flow, wk)
  | .halfClosed readyData writer => do
    let (len, ledger, flow, wk) ← t.ledger.plan flow me allowance wk readyData.length
    match len with
    | none => return (.pending, { t with ledger }, flow, wk)
    | some len =>
      let (chunk, rest) ← splitTo readyData len
      if rest = [] then
        return (.ready (chunk, true), ⟨.closed { sent := true, received := false }, ledger⟩, flow,
          writer.wake wk)
      else return (.ready (chunk, false), ⟨.halfClosed rest writer, ledger⟩, flow, wk)
  | .closed finState =>
    -- A closed stream must not hold up the others.
    let passed := flow.passTurn me wk
    if finState.sent then .ok (.pending, t, passed.1, passed.2)
    else
      let state := .closed { finState with sent := true }
      .ok (.ready ([], true), { t with state }, passed.1, passed.2)

/-- Whether there is data that was not sent. -/
def hasUnsent (t : OutboundTraffic) : Bool :=
  match t.state with
  | .open readyData _ | .halfClosed readyData _ => !readyData.isEmpty
  | .closed _ => false

/-- The peer returned credit. The bytes go back to the shared pool, not to this stream. -/
def receivedWindowUpdate (t : OutboundTraffic) (credit : NonZeroU32) (flow : ConnFlow)
    (me : StreamRef) (wk : Wakes) :
    Except Panic (Except StreamError Unit × OutboundTraffic × ConnFlow × Wakes) :=
  let credit := credit.get.toNat
  if t.finState.received then .ok (.error .windowAfterFinRead, t, flow, wk)
  else if t.ledger.window.unacked < credit then .ok (.error .excessCredit, t, flow, wk)
  else do
    let (freed, window, txPool) ← t.ledger.window.set flow.txPool (t.ledger.window.unacked - credit)
    let flow := { flow with txPool }
    let wk := if freed then flow.turns.wakeFront wk else wk
    -- A larger allowance, and the stream may have been waiting for it.
    let wk := if t.hasUnsent then wk.wake me else wk
    return (.ok (), { t with ledger := { t.ledger with window } }, flow, wk)

/-- The peer does not read the direction any more. -/
def closeReadingSide (t : OutboundTraffic) (me : StreamRef) (wk : Wakes) :
    Except StreamError Unit × OutboundTraffic × Wakes :=
  match t.state with
  | .open _ writer | .halfClosed _ writer =>
    (.ok (), { t with state := .closed { sent := false, received := true } },
      (writer.wake wk).wake me)
  | .closed finState =>
    if finState.received then (.error .duplicateFinRead, t, wk)
    else (.ok (), { t with state := .closed { finState with received := true } }, wk)

/-- The peer stopped reading. The bytes in flight are forgotten, which returns the share of the
pool that the stream used. -/
def receivedFinRead (t : OutboundTraffic) (flow : ConnFlow) (me : StreamRef) (wk : Wakes) :
    Except Panic (Except StreamError Unit × OutboundTraffic × ConnFlow × Wakes) :=
  let closed := t.closeReadingSide me wk
  match closed.1 with
  | .error e => .ok (.error e, closed.2.1, flow, closed.2.2)
  | .ok () => do
    let t := closed.2.1
    let (freed, window, txPool) ← t.ledger.window.set flow.txPool 0
    let flow := { flow with txPool }
    let wk := if freed then flow.turns.wakeFront closed.2.2 else closed.2.2
    return (.ok (), { t with ledger := { t.ledger with window } }, flow, wk)

/-- Closes the direction without the accounting, when the connection is gone. -/
def abort (t : OutboundTraffic) (me : StreamRef) (wk : Wakes) : OutboundTraffic × Wakes :=
  (t.closeReadingSide me wk).2

/-! ### What the rest of the connection sees -/

/-- The bytes written and not sent. -/
def unsent (t : OutboundTraffic) : Bytes :=
  match t.state with
  | .open readyData _ | .halfClosed readyData _ => readyData
  | .closed _ => []

/-- The bytes in flight. -/
def unacked (t : OutboundTraffic) : ℕ := t.ledger.window.unacked

/-- Whether the application may write. -/
def writing (t : OutboundTraffic) : Bool :=
  match t.state with
  | .open .. => true
  | .halfClosed .. | .closed _ => false

/-- Whether `FIN_WRITE` was sent. -/
def finSent (t : OutboundTraffic) : Bool := t.finState.sent

/-- Whether `FIN_READ` was received. -/
def finReceived (t : OutboundTraffic) : Bool := t.finState.received

/-- The direction has nothing to send by itself: no data, or no room in its base window; and no
`FIN_WRITE`. -/
def Idle (t : OutboundTraffic) : Prop :=
  match t.state with
  | .open readyData _ | .halfClosed readyData _ => readyData = [] ∨ t.ledger.window.baseRoom = 0
  | .closed finState => finState.sent = true

/-- The invariant of a sending direction with the given frame limit and base window. -/
structure WF (frameLimit baseWindow : ℕ) (t : OutboundTraffic) : Prop where
  limit : t.ledger.frameLimit = frameLimit
  base : t.ledger.window.base = baseWindow
  halfClosed : ∀ readyData writer, t.state = .halfClosed readyData writer → readyData ≠ []
  received : t.finReceived = true → t.unacked = 0

/-- A new direction is well formed. -/
theorem wf_new (frameLimit : ℕ) (hpos : 0 < frameLimit) (base : ℕ) :
    (new frameLimit hpos base).WF frameLimit base where
  limit := rfl
  base := rfl
  halfClosed := by simp [new]
  received := by simp [new, finReceived, finState]

/-- `has_unsent` says whether anything is unsent. -/
theorem hasUnsent_iff {t : OutboundTraffic} : t.hasUnsent = true ↔ t.unsent ≠ [] := by
  unfold hasUnsent unsent
  split <;> simp

/-- The direction has nothing to send by itself, and it is in the turn queue (`queued`) only with
data it has no room for. This is what a parked stream looks like. -/
structure Rests (t : OutboundTraffic) (queued : Prop) : Prop where
  idle : t.Idle
  queued : queued → t.unsent ≠ [] ∧ t.ledger.window.baseRoom = 0

/-- With nothing to send, everything is sent, or there is no room for the rest. -/
theorem Idle.unsent {t : OutboundTraffic} (h : t.Idle) :
    t.unsent = [] ∨ t.ledger.window.baseRoom = 0 := by
  unfold Idle at h
  unfold OutboundTraffic.unsent
  split at h
  · exact h
  · exact h
  · exact .inl rfl

/-- A `FIN_WRITE` that was not sent waits behind data. -/
theorem Idle.owes {t : OutboundTraffic} {limit b : ℕ} (h : t.Idle) (hw : t.WF limit b) :
    t.writing = true ∨ t.unsent ≠ [] ∨ t.finSent = true := by
  unfold Idle at h
  unfold OutboundTraffic.writing OutboundTraffic.unsent OutboundTraffic.finSent finState
  split at h
  · exact .inl rfl
  · next hs => exact .inr (.inl (hw.halfClosed _ _ hs))
  · exact .inr (.inr h)

/-- Once `FIN_WRITE` was sent, nothing is unsent. -/
theorem unsent_of_finSent {t : OutboundTraffic} (h : t.finSent = true) : t.unsent = [] := by
  unfold finSent finState at h
  unfold unsent
  split at h
  · cases h
  · cases h
  · rfl

/-- Once `FIN_WRITE` was sent, the stream is not written to. -/
theorem not_writing_of_finSent {t : OutboundTraffic} (h : t.finSent = true) :
    t.writing = false := by
  unfold finSent finState at h
  unfold writing
  split at h
  · cases h
  · rfl
  · rfl

/-- Once `FIN_READ` was received, the stream is not written to. -/
theorem not_writing_of_finReceived {t : OutboundTraffic} (h : t.finReceived = true) :
    t.writing = false := by
  unfold finReceived finState at h
  unfold writing
  split at h
  · cases h
  · rfl
  · rfl

/-! ### The application side -/

/-- What a write does. -/
theorem write_cases (t : OutboundTraffic) (data : Bytes) (me : StreamRef) (wk : Wakes) :
    ((∃ e, t.write data me wk = (.error e, t, wk)) ∨
      (t.writing = true ∧ data = [] ∧ t.write data me wk = (.ok (), t, wk))) ∨
      ∃ writer, t.state = .open [] writer ∧ data ≠ [] ∧
        t.write data me wk = (.ok (), { t with state := .open data writer }, wk.wake me) := by
  unfold write
  split
  · next readyData writer hs =>
    by_cases hr : readyData = []
    · rw [if_neg (by simpa using hr)]
      by_cases hd : data = []
      · rw [if_neg (by simpa using hd)]
        exact .inl (.inr ⟨by simp [writing, hs], hd, rfl⟩)
      · rw [if_pos hd]
        exact .inr ⟨writer, by rw [hs, hr], hd, rfl⟩
    · rw [if_pos hr]
      exact .inl (.inl ⟨_, rfl⟩)
  · exact .inl (.inl ⟨_, rfl⟩)
  · exact .inl (.inl ⟨_, rfl⟩)

/-- What closing does: `FIN_WRITE` is owed at once if there is no data to send before it. -/
theorem closeWriting_cases (t : OutboundTraffic) (me : StreamRef) (wk : Wakes) :
    (t.writing = false ∧ t.closeWriting me wk = (t, wk)) ∨
      (∃ writer, t.state = .open [] writer ∧
        t.closeWriting me wk = ({ t with state := .closed {} }, wk.wake me)) ∨
      ∃ readyData writer, readyData ≠ [] ∧ t.state = .open readyData writer ∧
        t.closeWriting me wk = ({ t with state := .halfClosed readyData writer }, wk) := by
  unfold closeWriting
  split
  · next readyData writer hs =>
    by_cases hr : readyData = []
    · rw [if_pos hr]
      exact .inr (.inl ⟨writer, by rw [hs, hr], rfl⟩)
    · rw [if_neg hr]
      exact .inr (.inr ⟨readyData, writer, hr, hs, rfl⟩)
  · next hs => exact .inl ⟨by simp [writing, hs], rfl⟩
  · next hs => exact .inl ⟨by simp [writing, hs], rfl⟩

/-- `t'` is `t` but for the waker of the writer. -/
def Rewaked (t t' : OutboundTraffic) : Prop :=
  t' = t ∨ (∃ data w w', t.state = .open data w ∧ t' = { t with state := .open data w' }) ∨
    ∃ data w w', t.state = .halfClosed data w ∧ t' = { t with state := .halfClosed data w' }

/-- `poll_write_ready` changes at most the waker of the writer. -/
theorem pollWriteReady_rewaked (t : OutboundTraffic) (waker : Waker) :
    t.Rewaked (t.pollWriteReady waker).2 := by
  unfold pollWriteReady
  split
  · next data w hs =>
    split_ifs
    · exact .inl rfl
    · exact .inr (.inl ⟨data, w, _, hs, rfl⟩)
  · exact .inl rfl
  · exact .inl rfl

/-- `poll_flushed` changes at most the waker of the writer. -/
theorem pollFlushed_rewaked (t : OutboundTraffic) (waker : Waker) :
    t.Rewaked (t.pollFlushed waker).2 := by
  unfold pollFlushed
  split
  · next data w hs =>
    split_ifs
    · exact .inl rfl
    · exact .inr (.inl ⟨data, w, _, hs, rfl⟩)
  · next data w hs => exact .inr (.inr ⟨data, w, _, hs, rfl⟩)
  · exact .inl rfl

/-- The waker of the writer changes nothing that the rest of the connection sees. -/
theorem Rewaked.same {t t' : OutboundTraffic} (h : t.Rewaked t') :
    t'.ledger = t.ledger ∧ t'.unsent = t.unsent ∧ t'.writing = t.writing ∧
      t'.finState = t.finState ∧ (t'.Idle ↔ t.Idle) := by
  rcases h with rfl | ⟨data, w, w', hs, rfl⟩ | ⟨data, w, w', hs, rfl⟩
  · exact ⟨rfl, rfl, rfl, rfl, Iff.rfl⟩
  · simp [unsent, writing, finState, Idle, hs]
  · simp [unsent, writing, finState, Idle, hs]

/-- Another waker leaves the direction well formed. -/
theorem WF.rewaked {t t' : OutboundTraffic} {limit b : ℕ} (hw : t.WF limit b)
    (h : t.Rewaked t') : t'.WF limit b := by
  obtain ⟨hl, -, -, hf, -⟩ := h.same
  refine ⟨by rw [hl, hw.limit], by rw [hl, hw.base], ?_, ?_⟩
  · rcases h with rfl | ⟨data, w, w', hs, rfl⟩ | ⟨data, w, w', hs, rfl⟩
    · exact hw.halfClosed
    · simp
    · rintro _ _ ⟨⟩
      exact hw.halfClosed _ _ hs
  · intro hr
    rw [unacked, hl]
    exact hw.received (by rwa [finReceived, ← hf])

/-- A write leaves the direction well formed. -/
theorem WF.write {t : OutboundTraffic} {limit b : ℕ} (hw : t.WF limit b) (data : Bytes)
    (me : StreamRef) (wk : Wakes) : (t.write data me wk).2.1.WF limit b := by
  rcases t.write_cases data me wk with (⟨e, h⟩ | ⟨-, -, h⟩) | ⟨writer, hs, -, h⟩
  · rw [h]; exact hw
  · rw [h]; exact hw
  · rw [h]
    exact ⟨hw.limit, hw.base, by simp, by simp [finReceived, finState]⟩

/-- Closing the writer leaves the direction well formed. -/
theorem WF.closeWriting {t : OutboundTraffic} {limit b : ℕ} (hw : t.WF limit b) (me : StreamRef)
    (wk : Wakes) : (t.closeWriting me wk).1.WF limit b := by
  rcases t.closeWriting_cases me wk with ⟨-, h⟩ | ⟨writer, hs, h⟩ | ⟨data, writer, hne, hs, h⟩
  · rw [h]; exact hw
  · rw [h]
    exact ⟨hw.limit, hw.base, by simp, by simp [finReceived, finState]⟩
  · rw [h]
    exact ⟨hw.limit, hw.base, by rintro _ _ ⟨⟩; exact hne, by simp [finReceived, finState]⟩

/-! ### What the direction sends -/

/-- `split_to` cuts the data where it is asked to. -/
theorem splitTo_eq_ok {data chunk rest : Bytes} {len : ℕ}
    (h : splitTo data len = .ok (chunk, rest)) :
    data = chunk ++ rest ∧ chunk.length = len := by
  unfold splitTo at h
  split_ifs at h with hle
  cases h
  exact ⟨(List.take_append_drop len data).symm, List.length_take_of_le hle⟩

/-- What sending does to the direction. -/
structure Sends (t : OutboundTraffic) (chunk : Bytes) (fin : Bool) (t' : OutboundTraffic) :
    Prop where
  unsent : t.unsent = chunk ++ t'.unsent
  ledger : t'.ledger = t.ledger.sent chunk.length
  limit : chunk.length ≤ t.ledger.frameLimit
  something : chunk ≠ [] ∨ fin = true
  notSent : t.finSent = false
  finSent : t'.finSent = fin
  finReceived : t'.finReceived = t.finReceived
  writing : t'.writing = t.writing
  /-- `FIN_WRITE` follows the last byte, once the application or the peer closed the direction. -/
  closes : fin = true → t'.unsent = [] ∧ t.writing = false
  halfClosed : ∀ readyData writer, t'.state = .halfClosed readyData writer → readyData ≠ []
  /-- The state is still what it was, but for the data, unless `FIN_WRITE` is sent. -/
  kept : fin = false → (∃ data w data' w', t.state = .open data w ∧ t'.state = .open data' w') ∨
    (∃ data w data' w', t.state = .halfClosed data w ∧ t'.state = .halfClosed data' w')

/-- What a poll sends, and what it does. The ledger plans for the data that waits, also where the
direction is closed and nothing does. -/
theorem pollUpdate_cases {t t' : OutboundTraffic} {flow flow' : ConnFlow} {me : StreamRef}
    {allowance : ℚ≥0} {wk wk' : Wakes} {res : Poll (Bytes × Bool)}
    (h : t.pollUpdate flow me allowance wk = .ok (res, t', flow', wk')) :
    ∃ n wk₁, t.ledger.Planned flow me allowance wk t.unsent.length n t'.ledger flow' wk₁ ∧
      wk'.updates = wk₁.updates ∧
      ((res = .pending ∧ n = none ∧ t' = t ∧ t.Idle) ∨
        ∃ chunk fin, res = .ready (chunk, fin) ∧ t.Sends chunk fin t') := by
  unfold pollUpdate at h
  split at h
  · next data writer hs =>
    have hun : t.unsent = data := by simp [OutboundTraffic.unsent, hs]
    simp only [Lib.bind_eq_ok] at h
    obtain ⟨⟨n, l, f, wk₁⟩, hplan, h⟩ := h
    have hp := Ledger.plan_planned hplan
    have hl := hp.eq_sent
    cases n with
    | none =>
      cases h
      refine ⟨none, _, by rw [hun]; exact hp, rfl, .inl ⟨rfl, rfl, ?_, ?_⟩⟩
      · rw [hl]; rfl
      · simpa [Idle, hs] using hp.idle
    | some n =>
      simp only [Lib.bind_eq_ok] at h
      obtain ⟨⟨chunk, rest⟩, hsplit, h⟩ := h
      obtain ⟨hdata, rfl⟩ := splitTo_eq_ok hsplit
      obtain ⟨hpos, hlimit, -⟩ := hp.bounds
      have hchunk : chunk ≠ [] := List.ne_nil_of_length_pos hpos
      -- Both branches differ in the waker of the writer only.
      have hsends : ∀ w, t.Sends chunk false ⟨.open rest w, l⟩ := by
        intro w
        constructor <;> simp [OutboundTraffic.unsent, OutboundTraffic.finSent,
          OutboundTraffic.finReceived, OutboundTraffic.writing, finState, hs, hdata, hl, hlimit,
          hchunk]
      dsimp only at h
      split at h
      · cases h
        exact ⟨_, wk₁, by rw [hun]; exact hp, by simp, .inr ⟨_, _, rfl, hsends none⟩⟩
      · cases h
        exact ⟨_, _, by rw [hun]; exact hp, rfl, .inr ⟨_, _, rfl, hsends writer⟩⟩
  · next data writer hs =>
    have hun : t.unsent = data := by simp [OutboundTraffic.unsent, hs]
    simp only [Lib.bind_eq_ok] at h
    obtain ⟨⟨n, l, f, wk₁⟩, hplan, h⟩ := h
    have hp := Ledger.plan_planned hplan
    have hl := hp.eq_sent
    cases n with
    | none =>
      cases h
      refine ⟨none, _, by rw [hun]; exact hp, rfl, .inl ⟨rfl, rfl, ?_, ?_⟩⟩
      · rw [hl]; rfl
      · simpa [Idle, hs] using hp.idle
    | some n =>
      simp only [Lib.bind_eq_ok] at h
      obtain ⟨⟨chunk, rest⟩, hsplit, h⟩ := h
      obtain ⟨hdata, rfl⟩ := splitTo_eq_ok hsplit
      obtain ⟨hpos, hlimit, -⟩ := hp.bounds
      have hchunk : chunk ≠ [] := List.ne_nil_of_length_pos hpos
      dsimp only at h
      split at h
      · next hrest =>
        -- The last chunk carries `FIN_WRITE`.
        cases h
        refine ⟨_, wk₁, by rw [hun]; exact hp, by simp, .inr ⟨_, _, rfl, ?_⟩⟩
        constructor <;> simp [OutboundTraffic.unsent, OutboundTraffic.finSent,
          OutboundTraffic.finReceived, OutboundTraffic.writing, finState, hs, hdata, hl, hlimit,
          hrest]
      · next hrest =>
        cases h
        refine ⟨_, _, by rw [hun]; exact hp, rfl, .inr ⟨_, _, rfl, ?_⟩⟩
        constructor <;> simp [OutboundTraffic.unsent, OutboundTraffic.finSent,
          OutboundTraffic.finReceived, OutboundTraffic.writing, finState, hs, hdata, hl, hlimit,
          hrest, hchunk]
  · next fin hs =>
    have hun : t.unsent = [] := by simp [OutboundTraffic.unsent, hs]
    rw [hun]
    dsimp only at h
    split at h
    · next hsent =>
      cases h
      exact ⟨none, _, .nothing rfl, rfl, .inl ⟨rfl, rfl, rfl, by simpa [Idle, hs] using hsent⟩⟩
    · next hsent =>
      cases h
      refine ⟨none, _, .nothing rfl, rfl, .inr ⟨[], true, rfl, ?_⟩⟩
      constructor <;> simp [OutboundTraffic.unsent, OutboundTraffic.finSent,
        OutboundTraffic.finReceived, OutboundTraffic.writing, finState, hs, hsent, Ledger.sent]

/-- Data that was not sent is data of a direction that neither side closed for good. -/
theorem open_of_unsent {t : OutboundTraffic} (h : t.unsent ≠ []) :
    t.finSent = false ∧ t.finReceived = false := by
  unfold OutboundTraffic.unsent at h
  unfold OutboundTraffic.finSent OutboundTraffic.finReceived finState
  split at h
  · exact ⟨rfl, rfl⟩
  · exact ⟨rfl, rfl⟩
  · exact absurd rfl h

/-- What a poll did to the direction, with the data it sent (empty for none) and whether it sent
`FIN_WRITE`. -/
structure Emits (t : OutboundTraffic) (chunk : Bytes) (fin : Bool) (t' : OutboundTraffic) :
    Prop where
  unsent : t.unsent = chunk ++ t'.unsent
  unacked : t'.unacked = t.unacked + chunk.length
  limit : chunk.length ≤ t.ledger.frameLimit
  finOpen : fin = true → t.finSent = false ∧ t'.unsent = [] ∧ t.writing = false
  finSent : t'.finSent = (t.finSent || fin)
  finReceived : t'.finReceived = t.finReceived
  writing : t'.writing = t.writing

/-- Data is only sent before `FIN_WRITE`, and before `FIN_READ` is received. -/
theorem Emits.dataOpen {t t' : OutboundTraffic} {chunk : Bytes} {fin : Bool}
    (h : t.Emits chunk fin t') (hne : chunk ≠ []) : t.finSent = false ∧ t.finReceived = false :=
  open_of_unsent fun hun => hne (List.append_eq_nil_iff.mp (h.unsent ▸ hun)).1

/-- A poll sends the data and the `FIN_WRITE` that it returns. -/
theorem pollUpdate_emits {t t' : OutboundTraffic} {flow flow' : ConnFlow} {me : StreamRef}
    {allowance : ℚ≥0} {wk wk' : Wakes} {res : Poll (Bytes × Bool)}
    (h : t.pollUpdate flow me allowance wk = .ok (res, t', flow', wk')) :
    t.Emits (res.getD ([], false)).1 (res.getD ([], false)).2 t' := by
  obtain ⟨n, wk₁, -, -, ⟨rfl, -, rfl, -⟩ | ⟨chunk, fin, rfl, hs⟩⟩ := pollUpdate_cases h
  · constructor <;> simp [Poll.getD]
  · refine ⟨hs.unsent, ?_, hs.limit, fun hf => ⟨hs.notSent, hs.closes hf⟩, ?_, hs.finReceived,
      hs.writing⟩
    · rw [OutboundTraffic.unacked, hs.ledger]; rfl
    · rw [hs.finSent, hs.notSent]; rfl

/-- Sending leaves the direction well formed. -/
theorem WF.sends {t t' : OutboundTraffic} {chunk : Bytes} {fin : Bool} {limit b : ℕ}
    (hw : t.WF limit b) (h : t.Sends chunk fin t') : t'.WF limit b := by
  refine ⟨by rw [h.ledger]; exact hw.limit, by rw [h.ledger]; exact hw.base, h.halfClosed, ?_⟩
  intro hr
  have hzero := hw.received (by rwa [← h.finReceived])
  -- `FIN_READ` was received, so there is no data to send.
  have hchunk : chunk = [] := by
    have hun : t.unsent = [] := by
      rw [h.finReceived, finReceived, finState] at hr
      unfold OutboundTraffic.unsent
      split at hr
      · cases hr
      · cases hr
      · rfl
    rw [h.unsent] at hun
    exact List.append_eq_nil_iff.mp hun |>.1
  rw [unacked, h.ledger, hchunk]
  exact hzero

/-- A poll leaves the direction well formed. -/
theorem WF.pollUpdate {t t' : OutboundTraffic} {flow flow' : ConnFlow} {me : StreamRef}
    {allowance : ℚ≥0} {wk wk' : Wakes} {res : Poll (Bytes × Bool)} {limit b : ℕ}
    (hw : t.WF limit b) (h : t.pollUpdate flow me allowance wk = .ok (res, t', flow', wk')) :
    t'.WF limit b := by
  obtain ⟨n, wk₁, -, -, ⟨-, -, rfl, -⟩ | ⟨chunk, fin, -, hs⟩⟩ := pollUpdate_cases h
  · exact hw
  · exact hw.sends hs

/-! ### What the peer sends -/

/-- Setting the window of a stream keeps the front of the queue scheduled, because the front is
woken whenever some of the pool is given back. -/
theorem frontScheduled_set {w w' : Window} {flow : ConnFlow} {txPool : Pool} {unacked : ℕ}
    {freed : Bool} {wk : Wakes} (h : w.set flow.txPool unacked = .ok (freed, w', txPool))
    (hfront : flow.FrontScheduled wk) (hlive : ∀ r ∈ flow.turns.queue, (wk.updates r).Live) :
    ({ flow with txPool } : ConnFlow).FrontScheduled
      (if freed then flow.turns.wakeFront wk else wk) := by
  obtain ⟨rfl, hmoves, rfl⟩ := Window.set_eq_ok h
  by_cases hfreed : txPool.used < flow.txPool.used
  · rw [if_pos (decide_eq_true hfreed)]
    exact ConnFlow.frontScheduled_wakeFront { flow with txPool } hlive
  · rw [if_neg (by simpa using hfreed)]
    intro r hr hroom
    refine hfront r hr ?_
    have hused := hmoves.used
    have hsize := hmoves.size
    rw [Pool.hasRoom_iff] at hroom ⊢
    simp only [Window.borrowed, Window.borrowedAt] at hused
    dsimp only at hroom
    omega

/-- What returned credit does. -/
theorem receivedWindowUpdate_cases {t t' : OutboundTraffic} {credit : NonZeroU32}
    {flow flow' : ConnFlow} {me : StreamRef} {wk wk' : Wakes} {verdict : Except StreamError Unit}
    (h : t.receivedWindowUpdate credit flow me wk = .ok (verdict, t', flow', wk')) :
    ((verdict = .error .windowAfterFinRead ∧ t.finReceived = true ∨
        verdict = .error .excessCredit ∧ t.finReceived = false ∧
          t.unacked < credit.get.toNat) ∧ t' = t ∧ flow' = flow ∧ wk' = wk) ∨
      (verdict = .ok () ∧ t.finReceived = false ∧ credit.get.toNat ≤ t.unacked ∧
        t' = { t with ledger := { t.ledger with
          window := { t.ledger.window with unacked := t.unacked - credit.get.toNat } } } ∧
        (∃ txPool, flow' = { flow with txPool } ∧
          t.ledger.window.Moves flow.txPool t'.ledger.window txPool) ∧
        wk.Le wk' ∧ (t.unsent = [] ∨ (wk.wake me).Le wk') ∧
        (flow.FrontScheduled wk → (∀ r ∈ flow.turns.queue, (wk.updates r).Live) →
          flow'.FrontScheduled wk')) := by
  unfold receivedWindowUpdate at h
  dsimp only at h
  -- The two violations come first, and leave everything as it is.
  by_cases hr : t.finState.received = true
  · rw [if_pos hr] at h
    cases h
    exact .inl ⟨.inl ⟨rfl, hr⟩, rfl, rfl, rfl⟩
  rw [if_neg hr] at h
  have hrec : t.finReceived = false := by simpa [finReceived] using hr
  by_cases hc : t.ledger.window.unacked < credit.get.toNat
  · rw [if_pos hc] at h
    cases h
    exact .inl ⟨.inr ⟨rfl, hrec, hc⟩, rfl, rfl, rfl⟩
  rw [if_neg hc] at h
  simp only [Lib.bind_eq_ok] at h
  obtain ⟨⟨freed, w, p⟩, hset, h⟩ := h
  obtain ⟨hw, hmoves, -⟩ := Window.set_eq_ok hset
  -- Room that is given back to the pool wakes the stream whose turn it is.
  have hwoken : wk.Le (if freed then flow.turns.wakeFront wk else wk) := by
    split_ifs
    · exact Turns.le_wakeFront _ _
    · exact Wakes.Le.refl _
  cases h
  -- The stream itself is woken if it has anything to send.
  have hlast : ∀ wk₁ : Wakes, wk₁.Le (if t.hasUnsent = true then wk₁.wake me else wk₁) := by
    intro wk₁
    split_ifs
    · exact wk₁.le_wake me
    · exact Wakes.Le.refl wk₁
  refine .inr ⟨rfl, hrec, by simpa [unacked] using hc, by rw [hw]; rfl, ⟨p, rfl, hmoves⟩,
    hwoken.trans (hlast _), ?_, fun hfront hlive => (frontScheduled_set hset hfront hlive).mono
      (hlast _)⟩
  by_cases hun : t.hasUnsent = true
  · rw [if_pos hun]
    exact .inr (hwoken.wake me)
  · exact .inl (by simpa [hasUnsent_iff] using hun)

/-- A second `FIN_READ` is refused; the first one closes the direction, with what was unsent. -/
theorem closeReadingSide_cases (t : OutboundTraffic) (me : StreamRef) (wk : Wakes) :
    (t.finReceived = true ∧ t.closeReadingSide me wk = (.error .duplicateFinRead, t, wk)) ∨
      (t.finReceived = false ∧ ∃ wk', t.closeReadingSide me wk =
          (.ok (), { t with state := .closed { sent := t.finSent, received := true } }, wk') ∧
        wk.Le wk' ∧ ((∃ fin, t.state = .closed fin) ∨ (wk.wake me).Le wk')) := by
  unfold closeReadingSide
  split
  · next data writer hs =>
    exact .inr ⟨by simp [finReceived, finState, hs], (writer.wake wk).wake me,
      by simp [finSent, finState, hs], (WakerSlot.le_wake _ _).trans (Wakes.le_wake _ _),
      .inr ((WakerSlot.le_wake _ _).wake me)⟩
  · next data writer hs =>
    exact .inr ⟨by simp [finReceived, finState, hs], (writer.wake wk).wake me,
      by simp [finSent, finState, hs], (WakerSlot.le_wake _ _).trans (Wakes.le_wake _ _),
      .inr ((WakerSlot.le_wake _ _).wake me)⟩
  · next fin hs =>
    have hrec : t.finReceived = fin.received := by simp [finReceived, finState, hs]
    by_cases hr : fin.received = true
    · rw [if_pos hr]
      exact .inl ⟨by rw [hrec, hr], rfl⟩
    · rw [if_neg hr]
      exact .inr ⟨by simpa [hrec] using hr, wk, by simp [finSent, finState, hs],
        Wakes.Le.refl wk, .inl ⟨fin, hs⟩⟩

/-- What a received `FIN_READ` does. -/
theorem receivedFinRead_cases {t t' : OutboundTraffic} {flow flow' : ConnFlow} {me : StreamRef}
    {wk wk' : Wakes} {verdict : Except StreamError Unit}
    (h : t.receivedFinRead flow me wk = .ok (verdict, t', flow', wk')) :
    (verdict = .error .duplicateFinRead ∧ t.finReceived = true ∧ t' = t ∧ flow' = flow ∧
        wk' = wk) ∨
      (verdict = .ok () ∧ t.finReceived = false ∧
        t' = ⟨.closed { sent := t.finSent, received := true },
          { t.ledger with window := { t.ledger.window with unacked := 0 } }⟩ ∧
        (∃ txPool, flow' = { flow with txPool } ∧
          t.ledger.window.Moves flow.txPool t'.ledger.window txPool) ∧
        wk.Le wk' ∧ ((∃ fin, t.state = .closed fin) ∨ (wk.wake me).Le wk') ∧
        (flow.FrontScheduled wk → (∀ r ∈ flow.turns.queue, (wk.updates r).Live) →
          flow'.FrontScheduled wk')) := by
  unfold receivedFinRead at h
  rcases t.closeReadingSide_cases me wk with ⟨hrec, hc⟩ | ⟨hrec, wk₁, hc, hle, hwake⟩
  · rw [hc] at h
    cases h
    exact .inl ⟨rfl, hrec, rfl, rfl, rfl⟩
  rw [hc] at h
  simp only [Lib.bind_eq_ok] at h
  obtain ⟨⟨freed, w, p⟩, hset, h⟩ := h
  obtain ⟨hw, hmoves, -⟩ := Window.set_eq_ok hset
  have hlast : wk₁.Le (if freed then flow.turns.wakeFront wk₁ else wk₁) := by
    split_ifs
    · exact Turns.le_wakeFront _ _
    · exact Wakes.Le.refl _
  cases h
  refine .inr ⟨rfl, hrec, by rw [hw], ⟨p, rfl, hmoves⟩, hle.trans hlast,
    hwake.imp_right fun h => h.trans hlast, fun hfront hlive => ?_⟩
  exact frontScheduled_set hset (hfront.mono hle) fun r hr => hle.live (hlive r hr)

/-- Credit leaves the direction well formed, accepted or not. -/
theorem WF.receivedWindowUpdate {t t' : OutboundTraffic} {credit : NonZeroU32}
    {flow flow' : ConnFlow} {me : StreamRef} {wk wk' : Wakes} {verdict : Except StreamError Unit}
    {limit b : ℕ} (hw : t.WF limit b)
    (h : t.receivedWindowUpdate credit flow me wk = .ok (verdict, t', flow', wk')) :
    t'.WF limit b := by
  rcases receivedWindowUpdate_cases h with ⟨-, rfl, -⟩ | ⟨-, hr, -, rfl, -⟩
  · exact hw
  · refine ⟨hw.limit, hw.base, hw.halfClosed, fun hr' => ?_⟩
    exact absurd hr (by rw [show t.finReceived = true from hr']; simp)

/-- `FIN_READ` leaves the direction well formed, accepted or not. -/
theorem WF.receivedFinRead {t t' : OutboundTraffic} {flow flow' : ConnFlow} {me : StreamRef}
    {wk wk' : Wakes} {verdict : Except StreamError Unit} {limit b : ℕ} (hw : t.WF limit b)
    (h : t.receivedFinRead flow me wk = .ok (verdict, t', flow', wk')) : t'.WF limit b := by
  rcases receivedFinRead_cases h with ⟨-, -, rfl, -⟩ | ⟨-, -, rfl, -⟩
  · exact hw
  · exact ⟨hw.limit, hw.base, by simp, fun _ => rfl⟩

/-! ### A whole frame -/

/-- What the `WINDOW` and `FIN_READ` of an accepted frame do to the direction; `credit` is 0 for
none. -/
structure Received (t : OutboundTraffic) (credit : ℕ) (finRead : Bool) (t' : OutboundTraffic) :
    Prop where
  creditOpen : 0 < credit → t.finReceived = false
  credit_le : credit ≤ t.unacked
  finOpen : finRead = true → t.finReceived = false
  unacked : t'.unacked = if finRead then 0 else t.unacked - credit
  unsent : t'.unsent = if finRead then [] else t.unsent
  finSent : t'.finSent = t.finSent
  finReceived : t'.finReceived = (t.finReceived || finRead)
  writing : t'.writing = (t.writing && !finRead)

/-- A frame without the two parts does nothing. -/
theorem Received.refl (t : OutboundTraffic) : t.Received 0 false t := by
  constructor <;> simp

/-- What accepted credit does. -/
theorem receivedWindowUpdate_received {t t' : OutboundTraffic} {credit : NonZeroU32}
    {flow flow' : ConnFlow} {me : StreamRef} {wk wk' : Wakes}
    (h : t.receivedWindowUpdate credit flow me wk = .ok (.ok (), t', flow', wk')) :
    t.Received credit.get.toNat false t' := by
  rcases receivedWindowUpdate_cases h with ⟨⟨hv, -⟩ | ⟨hv, -⟩, -⟩ | ⟨-, hr, hle, rfl, -⟩
  · cases hv
  · cases hv
  · refine ⟨fun _ => hr, hle, by simp, by simp [OutboundTraffic.unacked], ?_, ?_, ?_, ?_⟩
    all_goals simp [OutboundTraffic.unsent, OutboundTraffic.finSent, OutboundTraffic.finReceived,
      OutboundTraffic.writing, finState]

/-- What an accepted `FIN_READ` does after the credit of its frame. -/
theorem Received.finRead {t t₁ t' : OutboundTraffic} {credit : ℕ} {flow flow' : ConnFlow}
    {me : StreamRef} {wk wk' : Wakes} (h : t.Received credit false t₁)
    (hfin : t₁.receivedFinRead flow me wk = .ok (.ok (), t', flow', wk')) :
    t.Received credit true t' := by
  rcases receivedFinRead_cases hfin with ⟨hv, -⟩ | ⟨-, hr, rfl, -⟩
  · cases hv
  · have hr' : t.finReceived = false := by simpa [h.finReceived] using hr
    refine ⟨h.creditOpen, h.credit_le, fun _ => hr', by simp [OutboundTraffic.unacked],
      by simp [OutboundTraffic.unsent], ?_, ?_, by simp [OutboundTraffic.writing]⟩
    · rw [← h.finSent]
      simp [OutboundTraffic.finSent, finState]
    · simp [OutboundTraffic.finReceived, finState]

/-- A task is polled where the pool counts what the window borrows. -/
theorem pollUpdate_returns {t : OutboundTraffic} (flow : ConnFlow) (me : StreamRef)
    (allowance : ℚ≥0) (wk : Wakes) (hle : t.ledger.window.borrowed ≤ flow.txPool.used)
    (hlt : flow.txPool.used + t.unacked + t.ledger.frameLimit < 2^64) :
    ∃ r, t.pollUpdate flow me allowance wk = .ok r := by
  have hplan (data : Bytes) : ∃ len ledger flow' wk',
      t.ledger.plan flow me allowance wk data.length = .ok (len, ledger, flow', wk') ∧
        ∀ n, len = some n → ∃ r, splitTo data n = .ok r := by
    obtain ⟨⟨len, ledger, flow', wk'⟩, hr⟩ :=
      Ledger.plan_returns me allowance wk data.length hle hlt
    refine ⟨len, ledger, flow', wk', hr, ?_⟩
    rintro n rfl
    exact ⟨_, if_pos (Ledger.plan_planned hr).bounds.2.2⟩
  unfold pollUpdate
  split
  iterate 2
    next data writer _ =>
    obtain ⟨len, ledger, flow', wk', hr, hsplit⟩ := hplan data
    cases len with
    | none => exact ⟨_, Lib.bind_eq_ok.mpr ⟨_, hr, rfl⟩⟩
    | some n =>
      obtain ⟨⟨chunk, rest⟩, hchunk⟩ := hsplit n rfl
      by_cases hrest : rest = []
      · exact ⟨_, Lib.bind_eq_ok.mpr ⟨_, hr, Lib.bind_eq_ok.mpr ⟨_, hchunk, if_pos hrest⟩⟩⟩
      · exact ⟨_, Lib.bind_eq_ok.mpr ⟨_, hr, Lib.bind_eq_ok.mpr ⟨_, hchunk, if_neg hrest⟩⟩⟩
  · dsimp only
    split_ifs <;> exact ⟨_, rfl⟩

/-- Credit is accepted if the peer may return it, and returns no more than is in flight. -/
theorem receivedWindowUpdate_ok {t : OutboundTraffic} {credit : NonZeroU32} {flow : ConnFlow}
    (me : StreamRef) (wk : Wakes) (hopen : t.finReceived = false)
    (hcredit : credit.get.toNat ≤ t.unacked) (hle : t.ledger.window.borrowed ≤ flow.txPool.used)
    (hlt : flow.txPool.used + t.unacked < 2^64) :
    ∃ t' flow' wk',
      t.receivedWindowUpdate credit flow me wk = .ok (.ok (), t', flow', wk') := by
  obtain ⟨⟨freed, w, p⟩, hset⟩ := Window.set_ok (t.ledger.window.unacked - credit.get.toNat) hle
    (by unfold unacked at hlt; omega)
  unfold receivedWindowUpdate
  dsimp only
  rw [if_neg (by simpa [finReceived] using hopen), if_neg (by unfold unacked at hcredit; omega),
    hset]
  exact ⟨_, _, _, rfl⟩

/-- Credit is accepted or refused where the pool counts what the window borrows. -/
theorem receivedWindowUpdate_returns {t : OutboundTraffic} (credit : NonZeroU32) (flow : ConnFlow)
    (me : StreamRef) (wk : Wakes) (hle : t.ledger.window.borrowed ≤ flow.txPool.used)
    (hlt : flow.txPool.used + t.unacked < 2^64) :
    ∃ r, t.receivedWindowUpdate credit flow me wk = .ok r := by
  obtain ⟨⟨freed, w, p⟩, hset⟩ := Window.set_ok (t.ledger.window.unacked - credit.get.toNat) hle
    (by unfold unacked at hlt; omega)
  unfold receivedWindowUpdate
  dsimp only
  by_cases hrec : t.finState.received = true
  · exact ⟨_, if_pos hrec⟩
  · rw [if_neg hrec]
    by_cases hexcess : t.ledger.window.unacked < credit.get.toNat
    · exact ⟨_, if_pos hexcess⟩
    · rw [if_neg hexcess, hset]
      exact ⟨_, rfl⟩

/-- `FIN_READ` is accepted or refused where the pool counts what the window borrows. -/
theorem receivedFinRead_returns {t : OutboundTraffic} (flow : ConnFlow) (me : StreamRef)
    (wk : Wakes)
    (hle : t.ledger.window.borrowed ≤ flow.txPool.used) (hlt : flow.txPool.used < 2^64) :
    ∃ r, t.receivedFinRead flow me wk = .ok r := by
  obtain ⟨⟨freed, w, p⟩, hset⟩ := Window.set_ok 0 hle (by omega)
  unfold receivedFinRead
  rcases t.closeReadingSide_cases me wk with ⟨-, hc⟩ | ⟨-, wk₁, hc, -⟩
  · rw [hc]
    exact ⟨_, rfl⟩
  · rw [hc]
    dsimp only
    rw [hset]
    exact ⟨_, rfl⟩

/-- `FIN_READ` is accepted once. -/
theorem receivedFinRead_ok {t : OutboundTraffic} (flow : ConnFlow) (me : StreamRef) (wk : Wakes)
    (hopen : t.finReceived = false) (hle : t.ledger.window.borrowed ≤ flow.txPool.used)
    (hlt : flow.txPool.used < 2^64) :
    ∃ t' flow' wk', t.receivedFinRead flow me wk = .ok (.ok (), t', flow', wk') := by
  obtain ⟨⟨freed, w, p⟩, hset⟩ := Window.set_ok 0 hle (by omega)
  unfold receivedFinRead
  rcases t.closeReadingSide_cases me wk with ⟨hrec, -⟩ | ⟨-, wk₁, hc, -⟩
  · rw [hopen] at hrec; cases hrec
  · rw [hc]
    dsimp only
    rw [hset]
    exact ⟨_, _, _, rfl⟩

/-! ### Rest -/

/-- A direction at rest without data stays at rest whatever its window does. -/
theorem Rests.window {t : OutboundTraffic} {queued : Prop} (h : t.Rests queued)
    (hun : t.unsent = []) (ledger : Ledger) :
    ({ t with ledger } : OutboundTraffic).Rests queued := by
  refine ⟨?_, fun hq => absurd hun (h.queued hq).1⟩
  have hidle := h.idle
  cases hs : t.state with
  | «open» data w =>
    simp only [OutboundTraffic.unsent, hs] at hun
    simp [Idle, hun]
  | halfClosed data w =>
    simp only [OutboundTraffic.unsent, hs] at hun
    simp [Idle, hun]
  | closed fin => simpa [Idle, hs] using hidle

/-- Credit leaves the direction at rest, or wakes the stream. -/
theorem Rests.receivedWindowUpdate {t t' : OutboundTraffic} {credit : NonZeroU32}
    {flow flow' : ConnFlow} {me : StreamRef} {wk wk' : Wakes} {verdict : Except StreamError Unit}
    {queued : Prop} (hrests : t.Rests queued)
    (h : t.receivedWindowUpdate credit flow me wk = .ok (verdict, t', flow', wk')) :
    t'.Rests queued ∨ (wk.wake me).Le wk' := by
  rcases receivedWindowUpdate_cases h with ⟨-, rfl, -⟩ | ⟨-, -, -, rfl, -, -, hun | hwake, -⟩
  · exact .inl hrests
  · exact .inl (hrests.window hun _)
  · exact .inr hwake

/-- `FIN_READ` leaves the direction at rest, or wakes the stream. -/
theorem Rests.receivedFinRead {t t' : OutboundTraffic} {flow flow' : ConnFlow} {me : StreamRef}
    {wk wk' : Wakes} {verdict : Except StreamError Unit} {queued : Prop} (hrests : t.Rests queued)
    (h : t.receivedFinRead flow me wk = .ok (verdict, t', flow', wk')) :
    t'.Rests queued ∨ (wk.wake me).Le wk' := by
  rcases receivedFinRead_cases h with ⟨-, -, rfl, -⟩ | ⟨-, -, rfl, -, -, ⟨fin, hs⟩ | hwake, -⟩
  · exact .inl hrests
  · refine .inl ⟨?_, fun hq => absurd (by simp [OutboundTraffic.unsent, hs]) (hrests.queued hq).1⟩
    have hidle := hrests.idle
    simp only [Idle, hs] at hidle
    simpa [Idle, finSent, finState, hs] using hidle
  · exact .inr hwake

/-- What an operation of the application keeps: the ledger and the `FIN_*`s; and no wake-up is
lost. -/
structure Used (me : StreamRef) (t : OutboundTraffic) (wk : Wakes) (t' : OutboundTraffic)
    (wk' : Wakes) : Prop where
  ledger : t'.ledger = t.ledger
  finSent : t'.finSent = t.finSent
  finReceived : t'.finReceived = t.finReceived
  le : wk.Le wk'
  rests : ∀ queued, t.Rests queued → t'.Rests queued ∨ (wk.wake me).Le wk'

/-- Another waker keeps the ledger and the `FIN_*`s, and loses no wake-up. -/
theorem Rewaked.used {t t' : OutboundTraffic} (h : t.Rewaked t') (me : StreamRef) (wk : Wakes) :
    Used me t wk t' wk := by
  obtain ⟨hl, hun, -, hf, hidle⟩ := h.same
  refine ⟨hl, by rw [finSent, hf, finSent], by rw [finReceived, hf, finReceived], .refl _,
    fun queued hr => .inl ⟨hidle.mpr hr.idle, fun hq => ?_⟩⟩
  rw [hun, hl]
  exact hr.queued hq

/-- A write keeps the ledger and the `FIN_*`s, and loses no wake-up. -/
theorem write_used (t : OutboundTraffic) (data : Bytes) (me : StreamRef) (wk : Wakes) :
    Used me t wk (t.write data me wk).2.1 (t.write data me wk).2.2 := by
  rcases t.write_cases data me wk with (⟨e, h⟩ | ⟨-, -, h⟩) | ⟨writer, hs, -, h⟩
  · rw [h]; exact ⟨rfl, rfl, rfl, .refl _, fun _ => .inl⟩
  · rw [h]; exact ⟨rfl, rfl, rfl, .refl _, fun _ => .inl⟩
  · rw [h]
    exact ⟨rfl, by simp [finSent, finState, hs], by simp [finReceived, finState, hs],
      wk.le_wake me, fun _ _ => .inr (.refl _)⟩

/-- So does closing the writer. -/
theorem closeWriting_used (t : OutboundTraffic) (me : StreamRef) (wk : Wakes) :
    Used me t wk (t.closeWriting me wk).1 (t.closeWriting me wk).2 := by
  rcases t.closeWriting_cases me wk with ⟨-, h⟩ | ⟨writer, hs, h⟩ | ⟨data, writer, hne, hs, h⟩
  · rw [h]; exact ⟨rfl, rfl, rfl, .refl _, fun _ => .inl⟩
  · rw [h]
    exact ⟨rfl, by simp [finSent, finState, hs], by simp [finReceived, finState, hs],
      wk.le_wake me, fun _ _ => .inr (.refl _)⟩
  · rw [h]
    refine ⟨rfl, by simp [finSent, finState, hs], by simp [finReceived, finState, hs], .refl _,
      fun queued hr => .inl ⟨?_, fun hq => ?_⟩⟩
    · simpa [Idle, hs] using hr.idle
    · simpa [OutboundTraffic.unsent, hs] using hr.queued hq

end OutboundTraffic

end Rammux
