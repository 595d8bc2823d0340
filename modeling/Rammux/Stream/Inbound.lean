import Rammux.Stream.Wake

/-!
# The receiving direction of a stream

`InboundTraffic` of `src/stream/inbound.rs`. The receiver counts what was received and not credited
back (`window`), checks the pool, and returns credit as the application reads.

`InboundTraffic.WF` is the invariant of the direction: while the application may read, the bytes
counted are the bytes it has not read and the bytes it has read that were not credited
(`WF.held`), and once `FIN_READ` is sent nothing is counted (`WF.sent`). Every operation keeps it.
The other theorems say what an operation does to what the rest of the connection sees: the chunks
held, the `FIN_*`s, the window and the pool, and the wake-ups.
-/

namespace Rammux

/-- The state of a receiving direction. The chunks are those received and not read yet. -/
inductive InboundState where
  /-- The peer may send. -/
  | open (readyData : List Bytes) (reader : WakerSlot)
  /-- `FIN_WRITE` was received, and the application still reads the rest of the data. -/
  | halfClosed (readyData : List Bytes)
  /-- Nothing more will be read. -/
  | closed (finState : FinState)
  deriving DecidableEq

/-- The receiving direction of a stream. -/
structure InboundTraffic where
  state : InboundState
  /-- Bytes received and not credited back. -/
  window : Window
  /-- Bytes read by the application and not credited back yet. -/
  credit : ℕ
  /-- Credit is sent when this much accumulates. -/
  creditThreshold : ℕ
  deriving DecidableEq

namespace InboundTraffic

/-- A direction on which nothing was received. -/
def new (baseWindow : ℕ) : InboundTraffic where
  state := .open [] none
  window := Window.new baseWindow
  credit := 0
  creditThreshold := Rammux.creditThreshold baseWindow

/-- The `FIN_*` state of the direction. -/
def finState (t : InboundTraffic) : FinState :=
  match t.state with
  | .open .. | .halfClosed _ => {}
  | .closed finState => finState

/-! ## The application side -/

/-- Counts a chunk that the application took. -/
def took (t : InboundTraffic) (data : Bytes) (me : StreamRef) (wk : Wakes) :
    Except Panic (Poll (Option Bytes) × InboundTraffic × Wakes) := do
  let credit ← u64Add t.credit data.length
  let wk := if t.creditThreshold ≤ credit then wk.wake me else wk
  return (.ready (some data), { t with credit }, wk)

/-- The next chunk of data for the application, or `none` at the end of the stream. -/
def pollRead (t : InboundTraffic) (waker : Waker) (me : StreamRef) (wk : Wakes) :
    Except Panic (Poll (Option Bytes) × InboundTraffic × Wakes) :=
  match t.state with
  | .open [] reader => .ok (.pending, { t with state := .open [] (reader.register waker) }, wk)
  | .open (data :: rest) reader => took { t with state := .open rest reader } data me wk
  | .halfClosed [] => .error .halfClosedEmpty
  | .halfClosed [data] =>
    -- Everything is read. The sender gets `FIN_READ`, and the stream's share of the pool back.
    took { t with state := .closed { sent := false, received := true } } data me (wk.wake me)
  | .halfClosed (data :: next :: rest) =>
    took { t with state := .halfClosed (next :: rest) } data me wk
  | .closed _ => .ok (.ready none, t, wk)

/-- The application stops reading. `FIN_READ` follows, and the data that arrives is discarded. -/
def closeReading (t : InboundTraffic) (me : StreamRef) (wk : Wakes) : InboundTraffic × Wakes :=
  match t.state with
  | .open .. => ({ t with state := .closed { sent := false, received := false } }, wk.wake me)
  | .halfClosed _ => ({ t with state := .closed { sent := false, received := true } }, wk.wake me)
  | .closed _ => (t, wk)

/-! ## The connection side -/

/-- Saturating conversion to `u32`. -/
def toU32 (n : ℕ) : UInt32 := UInt32.ofNat (min n (2^32 - 1))

/-- Polls for what the direction sends next: credit, and whether it is `FIN_READ`. -/
def pollUpdate (t : InboundTraffic) (pool : Pool) :
    Except Panic (Poll (UInt32 × Bool) × InboundTraffic × Pool) :=
  match t.state with
  | .open .. | .halfClosed _ =>
    if t.credit < t.creditThreshold then .ok (.pending, t, pool)
    else do
      let credit := toU32 t.credit
      let rest ← u64Sub t.credit credit.toNat
      let unacked ← u64Sub t.window.unacked credit.toNat
      let (_, window, pool) ← t.window.set pool unacked
      return (.ready (credit, false), { t with credit := rest, window }, pool)
  | .closed finState =>
    if finState.sent then .ok (.pending, t, pool)
    else do
      -- The sender forgets the bytes in flight when it reads `FIN_READ`.
      let (_, window, pool) ← t.window.set pool 0
      let state := .closed { finState with sent := true }
      return (.ready (0, true), { t with state, credit := 0, window }, pool)

/-- Accounts for received data, and checks that the sender stays within the pool. -/
def count (window : Window) (pool : Pool) (len : ℕ) :
    Except Panic (Except StreamError Unit × Window × Pool) := do
  let (window, pool) ← window.add pool len
  if pool.isOverdrawn then return (.error .exceededPool, window, pool)
  else return (.ok (), window, pool)

/-- The peer sent data. -/
def receivedData (t : InboundTraffic) (data : Bytes) (pool : Pool) (wk : Wakes) :
    Except Panic (Except StreamError Unit × InboundTraffic × Pool × Wakes) :=
  if data.length = 0 then .ok (.ok (), t, pool, wk)
  else
    match t.state with
    | .open readyData reader => do
      let (verdict, window, pool) ← count t.window pool data.length
      match verdict with
      | .error e => return (.error e, { t with window }, pool, wk)
      | .ok () =>
        let state := .open (readyData ++ [data]) none
        return (.ok (), { t with state, window }, pool, reader.wake wk)
    | .halfClosed _ => .ok (.error .dataAfterFinWrite, t, pool, wk)
    | .closed finState =>
      if finState.received then .ok (.error .dataAfterFinWrite, t, pool, wk)
      else if finState.sent then .ok (.ok (), t, pool, wk)
      else do
        -- The data counts until `FIN_READ` is written, but it is dropped.
        let (verdict, window, pool) ← count t.window pool data.length
        return (verdict, { t with window }, pool, wk)

/-- The peer stopped writing. -/
def receivedFinWrite (t : InboundTraffic) (me : StreamRef) (wk : Wakes) :
    Except StreamError Unit × InboundTraffic × Wakes :=
  match t.state with
  | .open (data :: rest) _ => (.ok (), { t with state := .halfClosed (data :: rest) }, wk)
  | .open [] reader =>
    (.ok (), { t with state := .closed { sent := false, received := true } },
      reader.wake (wk.wake me))
  | .halfClosed _ => (.error .duplicateFinWrite, t, wk)
  | .closed finState =>
    if finState.received then (.error .duplicateFinWrite, t, wk)
    else (.ok (), { t with state := .closed { finState with received := true } }, wk)

/-! ## What the rest of the connection sees -/

/-- The chunks received and not read. -/
def buffered (t : InboundTraffic) : List Bytes :=
  match t.state with
  | .open readyData _ | .halfClosed readyData => readyData
  | .closed _ => []

/-- The bytes received and not read. -/
def bufferedLen (t : InboundTraffic) : ℕ := (t.buffered.map List.length).sum

/-- Whether the application may still read: the direction is open or half-closed. -/
def reading (t : InboundTraffic) : Bool :=
  match t.state with
  | .open .. | .halfClosed _ => true
  | .closed _ => false

/-- Whether `FIN_WRITE` was received. -/
def ended (t : InboundTraffic) : Bool :=
  match t.state with
  | .open .. => false
  | .halfClosed _ => true
  | .closed finState => finState.received

/-- Whether `FIN_READ` was sent. -/
def finSent (t : InboundTraffic) : Bool := t.finState.sent

/-- The direction has nothing to send. -/
def Idle (t : InboundTraffic) : Prop :=
  if t.reading then t.credit < t.creditThreshold else t.finSent = true

instance (t : InboundTraffic) : Decidable t.Idle := by unfold Idle; infer_instance

/-- The invariant of a receiving direction with the given base window. -/
structure WF (baseWindow : ℕ) (t : InboundTraffic) : Prop where
  base : t.window.base = baseWindow
  threshold : t.creditThreshold = Rammux.creditThreshold baseWindow
  chunks : ∀ data ∈ t.buffered, data ≠ []
  halfClosed : ∀ readyData, t.state = .halfClosed readyData → readyData ≠ []
  held : t.reading = true → t.window.unacked = t.bufferedLen + t.credit
  credit_le : t.credit ≤ t.window.unacked
  sent : t.finSent = true → t.window.unacked = 0

/-- A new direction is well formed. -/
theorem wf_new (base : ℕ) : (new base).WF base where
  base := rfl
  threshold := rfl
  chunks := by simp [new, buffered]
  halfClosed := by simp [new]
  held := by simp [new, bufferedLen, buffered, Window.new]
  credit_le := by simp [new]
  sent := by simp [new, finSent, finState]

/-- `FIN_READ` is sent only once nothing more will be read. -/
theorem not_reading_of_finSent {t : InboundTraffic} (h : t.finSent = true) : t.reading = false := by
  unfold finSent finState at h
  unfold reading
  split at h
  · cases h
  · cases h
  · rfl

/-- While the stream is read from, no `FIN_READ` was sent. -/
theorem not_finSent_of_reading {t : InboundTraffic} (h : t.reading = true) : t.finSent = false := by
  cases hf : t.finSent with
  | false => rfl
  | true => rw [not_reading_of_finSent hf] at h; cases h

/-- With nothing to send, the stream is read from, or `FIN_READ` was sent. -/
theorem Idle.reading_or_finSent {t : InboundTraffic} (h : t.Idle) :
    t.reading = true ∨ t.finSent = true := by
  unfold Idle at h
  split_ifs at h with hr
  · exact .inl hr
  · exact .inr h

/-- With nothing to send, less than the threshold is uncredited, also after `FIN_READ`. -/
theorem Idle.credit_lt {t : InboundTraffic} {b : ℕ} (h : t.Idle) (hw : t.WF b) :
    t.credit < Rammux.creditThreshold b := by
  unfold Idle at h
  split_ifs at h with hr
  · rwa [hw.threshold] at h
  · have := hw.credit_le
    have := hw.sent h
    have := creditThreshold_pos b
    omega

/-- Once the stream is not read from, nothing is buffered. -/
theorem buffered_of_not_reading {t : InboundTraffic} (h : t.reading = false) : t.buffered = [] := by
  unfold reading at h
  unfold buffered
  split at h
  · cases h
  · cases h
  · rfl

/-- A direction holds no more than its base window and what it borrows. -/
theorem WF.bufferedLen_le {t : InboundTraffic} {b : ℕ} (hw : t.WF b) :
    t.bufferedLen ≤ b + t.window.borrowed := by
  cases hr : t.reading with
  | true =>
    have hheld := hw.held hr
    have hbase := hw.base
    simp only [Window.borrowed, Window.borrowedAt]
    omega
  | false =>
    rw [bufferedLen, buffered_of_not_reading hr]
    exact Nat.zero_le _

/-! ## Reading -/

/-- What taking a chunk does to the direction. -/
structure Took (t : InboundTraffic) (data : Bytes) (t' : InboundTraffic) : Prop where
  reading : t.reading = true
  buffered : t.buffered = data :: t'.buffered
  credit : t'.credit = t.credit + data.length
  window : t'.window = t.window
  threshold : t'.creditThreshold = t.creditThreshold
  finSent : t'.finSent = false
  ended : t'.ended = t.ended
  /-- The direction closes when the last chunk after `FIN_WRITE` is taken. -/
  drained : t'.reading = true ∨ (t'.ended = true ∧ t'.buffered = [])
  halfClosed : ∀ readyData, t'.state = .halfClosed readyData → readyData ≠ []

/-- What `took` leaves of a direction whose chunk is already out of the list. -/
theorem took_eq_ok {t t' : InboundTraffic} {data : Bytes} {me : StreamRef} {wk wk' : Wakes}
    {res : Poll (Option Bytes)} (h : t.took data me wk = .ok (res, t', wk')) :
    res = .ready (some data) ∧ t' = { t with credit := t.credit + data.length } ∧ wk.Le wk' ∧
      (t'.credit < t'.creditThreshold ∨ (wk.wake me).Le wk') := by
  simp only [took, Lib.bind_eq_ok, u64Add_eq_ok, pure, Except.pure, Except.ok.injEq,
    Prod.mk.injEq] at h
  obtain ⟨_, ⟨-, rfl⟩, rfl, rfl, rfl⟩ := h
  refine ⟨rfl, rfl, ?_, ?_⟩
  · split_ifs
    · exact wk.le_wake me
    · exact Wakes.Le.refl wk
  · split_ifs with hc
    · exact .inr (Wakes.Le.refl _)
    · exact .inl (by simpa using hc)

/-- What a poll of the application returns, and what it does: nothing to read yet, the end of the
stream, or a chunk. After a chunk the direction is idle, or its task was woken. -/
theorem pollRead_cases {t t' : InboundTraffic} {waker : Waker} {me : StreamRef} {wk wk' : Wakes}
    {res : Poll (Option Bytes)} (h : t.pollRead waker me wk = .ok (res, t', wk')) :
    (res = .pending ∧ t.buffered = [] ∧ t.ended = false ∧
        (∃ reader, t.state = .open [] reader) ∧
        t' = { t with state := .open [] (some waker) } ∧ wk' = wk) ∨
      (res = .ready none ∧ t.reading = false ∧ t' = t ∧ wk' = wk) ∨
      ∃ data, res = .ready (some data) ∧ t.Took data t' ∧ wk.Le wk' ∧
        (t'.Idle ∨ (wk.wake me).Le wk') := by
  unfold pollRead at h
  split at h
  · -- Open, with nothing to read.
    rename_i reader hs
    cases h
    exact .inl ⟨rfl, by simp [buffered, hs], by simp [ended, hs], ⟨reader, hs⟩, rfl, rfl⟩
  · -- Open, with a chunk.
    rename_i data rest reader hs
    obtain ⟨rfl, rfl, hle, hidle⟩ := took_eq_ok h
    refine .inr (.inr ⟨data, rfl, ?_, hle, ?_⟩)
    · constructor <;> simp [reading, InboundTraffic.buffered, InboundTraffic.finSent, finState,
        InboundTraffic.ended, hs]
    · exact hidle.imp_left fun hi => by simpa [Idle, reading] using hi
  · cases h
  · -- Half-closed, with the last chunk.
    rename_i data hs
    obtain ⟨rfl, rfl, hle, -⟩ := took_eq_ok h
    refine .inr (.inr ⟨data, rfl, ?_, (wk.le_wake me).trans hle, .inr hle⟩)
    constructor <;> simp [reading, InboundTraffic.buffered, InboundTraffic.finSent, finState,
      InboundTraffic.ended, hs]
  · -- Half-closed, with more than one chunk.
    rename_i data next rest hs
    obtain ⟨rfl, rfl, hle, hidle⟩ := took_eq_ok h
    refine .inr (.inr ⟨data, rfl, ?_, hle, ?_⟩)
    · constructor <;> simp [reading, InboundTraffic.buffered, InboundTraffic.finSent, finState,
        InboundTraffic.ended, hs]
    · exact hidle.imp_left fun hi => by simpa [Idle, reading] using hi
  · rename_i fin hs
    cases h
    exact .inr (.inl ⟨rfl, by simp [reading, hs], rfl, rfl⟩)

/-- The bytes of a chunk that was taken are the bytes that left the list. -/
theorem Took.bufferedLen {t t' : InboundTraffic} {data : Bytes} (h : t.Took data t') :
    t.bufferedLen = data.length + t'.bufferedLen := by
  simp [InboundTraffic.bufferedLen, h.buffered]

/-- Taking a chunk leaves the direction well formed. -/
theorem WF.took {t t' : InboundTraffic} {data : Bytes} {b : ℕ} (hw : t.WF b)
    (h : t.Took data t') : t'.WF b := by
  have hheld := hw.held h.reading
  have hlen := h.bufferedLen
  constructor
  · rw [h.window, hw.base]
  · rw [h.threshold, hw.threshold]
  · intro d hd
    exact hw.chunks d (by rw [h.buffered]; exact List.mem_cons_of_mem _ hd)
  · exact h.halfClosed
  · intro _
    rw [h.window, h.credit]
    omega
  · rw [h.window, h.credit]
    omega
  · rw [h.finSent]
    exact fun hf => by cases hf

/-- A read leaves the direction well formed. -/
theorem WF.pollRead {t t' : InboundTraffic} {waker : Waker} {me : StreamRef} {wk wk' : Wakes}
    {res : Poll (Option Bytes)} {b : ℕ} (hw : t.WF b)
    (h : t.pollRead waker me wk = .ok (res, t', wk')) : t'.WF b := by
  rcases pollRead_cases h with ⟨-, -, -, ⟨reader, hs⟩, rfl, -⟩ | ⟨-, -, rfl, -⟩ | ⟨data, -, ht, -⟩
  · have hheld := hw.held (by simp [reading, hs])
    refine ⟨hw.base, hw.threshold, by simp [buffered], by simp, ?_, hw.credit_le, ?_⟩
    · intro _
      simpa [bufferedLen, buffered, hs] using hheld
    · simp [finSent, finState]
  · exact hw
  · exact hw.took ht

/-! ## Closing -/

/-- What closing does: `FIN_READ` is owed, and the task is woken to send it. -/
theorem closeReading_cases (t : InboundTraffic) (me : StreamRef) (wk : Wakes) :
    (t.reading = true ∧ t.closeReading me wk =
        ({ t with state := .closed { sent := false, received := t.ended } }, wk.wake me)) ∨
      (t.reading = false ∧ t.closeReading me wk = (t, wk)) := by
  unfold closeReading reading ended
  split <;> simp

/-- Without its reader the direction stays well formed, whether the peer has ended or not. -/
theorem WF.closed {t : InboundTraffic} {b : ℕ} (hw : t.WF b) (received : Bool) :
    ({ t with state := .closed { sent := false, received } } : InboundTraffic).WF b :=
  ⟨hw.base, hw.threshold, by simp [buffered], by simp, by simp [reading], hw.credit_le,
    by simp [finSent, finState]⟩

/-- Closing the reader leaves the direction well formed. -/
theorem WF.closeReading {t : InboundTraffic} {b : ℕ} (hw : t.WF b) (me : StreamRef) (wk : Wakes) :
    (t.closeReading me wk).1.WF b := by
  rcases t.closeReading_cases me wk with ⟨-, h⟩ | ⟨-, h⟩
  · rw [h]
    exact hw.closed _
  · rw [h]
    exact hw

/-- What an operation of the application keeps: the window and the `FIN_*`s; and no wake-up is
lost. -/
structure Used (me : StreamRef) (t : InboundTraffic) (wk : Wakes) (t' : InboundTraffic)
    (wk' : Wakes) : Prop where
  window : t'.window = t.window
  finSent : t'.finSent = t.finSent
  ended : t'.ended = t.ended
  le : wk.Le wk'
  idle : t.Idle → t'.Idle ∨ (wk.wake me).Le wk'

/-- A read keeps the window and the `FIN_*`s, and loses no wake-up. -/
theorem pollRead_used {t t' : InboundTraffic} {waker : Waker} {me : StreamRef} {wk wk' : Wakes}
    {res : Poll (Option Bytes)} (h : t.pollRead waker me wk = .ok (res, t', wk')) :
    Used me t wk t' wk' := by
  rcases pollRead_cases h with ⟨-, -, -, ⟨reader, hs⟩, rfl, rfl⟩ | ⟨-, -, rfl, rfl⟩ |
    ⟨data, -, ht, hle, hidle⟩
  · refine ⟨rfl, by simp [InboundTraffic.finSent, finState, hs],
      by simp [InboundTraffic.ended, hs], .refl _, fun hi => .inl ?_⟩
    simpa [Idle, reading, hs] using hi
  · exact ⟨rfl, rfl, rfl, .refl _, .inl⟩
  · exact ⟨ht.window, by rw [ht.finSent, not_finSent_of_reading ht.reading], ht.ended, hle,
      fun _ => hidle⟩

/-- So does closing the reader. -/
theorem closeReading_used (t : InboundTraffic) (me : StreamRef) (wk : Wakes) :
    Used me t wk (t.closeReading me wk).1 (t.closeReading me wk).2 := by
  rcases t.closeReading_cases me wk with ⟨hr, h⟩ | ⟨-, h⟩
  · rw [h]
    exact ⟨rfl, by rw [not_finSent_of_reading hr]; simp [InboundTraffic.finSent, finState], rfl,
      wk.le_wake me, fun _ => .inr (.refl _)⟩
  · rw [h]
    exact ⟨rfl, rfl, rfl, .refl _, .inl⟩

/-! ## What the direction sends -/

/-- The saturated credit is at most the credit. -/
theorem toU32_toNat (n : ℕ) : (toU32 n).toNat = min n (2^32 - 1) := by
  rw [toU32, UInt32.toNat_ofNat_of_lt']
  have : min n (2^32 - 1) < 2^32 := by omega
  exact this

/-- What a poll sends, and what it does: nothing for an idle direction, credit, or `FIN_READ`. -/
theorem pollUpdate_cases {t t' : InboundTraffic} {pool pool' : Pool} {res : Poll (UInt32 × Bool)}
    (h : t.pollUpdate pool = .ok (res, t', pool')) :
    (res = .pending ∧ t.Idle ∧ t' = t ∧ pool' = pool) ∨
      (∃ credit, res = .ready (credit, false) ∧ t.reading = true ∧
        t.creditThreshold ≤ t.credit ∧ credit.toNat = min t.credit (2^32 - 1) ∧
        credit.toNat ≤ t.window.unacked ∧
        t' = { t with credit := t.credit - credit.toNat,
                      window := { t.window with unacked := t.window.unacked - credit.toNat } } ∧
        t.window.Moves pool t'.window pool') ∨
      (res = .ready (0, true) ∧ t.reading = false ∧ t.finSent = false ∧
        t' = { t with state := .closed { sent := true, received := t.ended }, credit := 0,
                      window := { t.window with unacked := 0 } } ∧
        t.window.Moves pool t'.window pool') := by
  -- An open and a half-closed direction announce credit alike, so their branch is read once, as it
  -- stands in the body of `poll_update`.
  have credit_branch : t.reading = true → ¬ t.credit < t.creditThreshold → (do
      let credit := toU32 t.credit
      let rest ← u64Sub t.credit credit.toNat
      let unacked ← u64Sub t.window.unacked credit.toNat
      let (_, window, pool) ← t.window.set pool unacked
      return (.ready (credit, false), { t with credit := rest, window }, pool)) =
        Except.ok (res, t', pool') →
      ∃ credit, res = .ready (credit, false) ∧ t.reading = true ∧
        t.creditThreshold ≤ t.credit ∧ credit.toNat = min t.credit (2^32 - 1) ∧
        credit.toNat ≤ t.window.unacked ∧
        t' = { t with credit := t.credit - credit.toNat,
                      window := { t.window with unacked := t.window.unacked - credit.toNat } } ∧
        t.window.Moves pool t'.window pool' := by
    intro hr hc h
    simp only [Lib.bind_eq_ok, u64Sub_eq_ok, pure, Except.pure, Except.ok.injEq,
      Prod.mk.injEq] at h
    obtain ⟨_, ⟨-, rfl⟩, _, ⟨hle, rfl⟩, ⟨freed, w, p⟩, hset, rfl, rfl, rfl⟩ := h
    obtain ⟨rfl, hmoves, -⟩ := Window.set_eq_ok hset
    exact ⟨_, rfl, hr, by omega, toU32_toNat _, hle, rfl, hmoves⟩
  -- The states, in the order of the source: open, half closed, closed.
  unfold pollUpdate at h
  split at h
  · next hs =>
    have hr : t.reading = true := by simp [reading, hs]
    split at h
    · next hc =>
      cases h
      exact .inl ⟨rfl, by simpa [Idle, hr] using hc, rfl, rfl⟩
    · next hc => exact .inr (.inl (credit_branch hr hc h))
  · next hs =>
    have hr : t.reading = true := by simp [reading, hs]
    split at h
    · next hc =>
      cases h
      exact .inl ⟨rfl, by simpa [Idle, hr] using hc, rfl, rfl⟩
    · next hc => exact .inr (.inl (credit_branch hr hc h))
  · next fin hs =>
    have hr : t.reading = false := by simp [reading, hs]
    have hsent : t.finSent = fin.sent := by simp [finSent, finState, hs]
    have hended : t.ended = fin.received := by simp [ended, hs]
    split at h
    · next hc =>
      cases h
      exact .inl ⟨rfl, by simpa [Idle, hr, hsent] using hc, rfl, rfl⟩
    · next hc =>
      simp only [Lib.bind_eq_ok, pure, Except.pure, Except.ok.injEq, Prod.mk.injEq] at h
      obtain ⟨⟨freed, w, p⟩, hset, rfl, rfl, rfl⟩ := h
      obtain ⟨rfl, hmoves, -⟩ := Window.set_eq_ok hset
      exact .inr (.inr ⟨rfl, hr, by simpa [hsent] using hc, by rw [hended], hmoves⟩)

/-- A poll moves room between the window and the pool. -/
theorem pollUpdate_moves {t t' : InboundTraffic} {pool pool' : Pool} {res : Poll (UInt32 × Bool)}
    (h : t.pollUpdate pool = .ok (res, t', pool')) : t.window.Moves pool t'.window pool' := by
  rcases pollUpdate_cases h with ⟨-, -, rfl, rfl⟩ | ⟨c, -, -, -, -, -, -, hm⟩ | ⟨-, -, -, -, hm⟩
  · exact .refl _ _
  · exact hm
  · exact hm

/-- Polls never use more of the pool than before. -/
theorem pollUpdate_within {t t' : InboundTraffic} {pool pool' : Pool} {res : Poll (UInt32 × Bool)}
    (h : t.pollUpdate pool = .ok (res, t', pool')) : pool'.used ≤ pool.used := by
  have hm := (pollUpdate_moves h).used
  rcases pollUpdate_cases h with ⟨-, -, -, rfl⟩ | ⟨c, -, -, -, -, -, rfl, -⟩ | ⟨-, -, -, rfl, -⟩
  · exact le_rfl
  · simp only [Window.borrowed, Window.borrowedAt] at hm
    omega
  · simp only [Window.borrowed, Window.borrowedAt] at hm
    omega

/-- A poll leaves the direction well formed. -/
theorem WF.pollUpdate {t t' : InboundTraffic} {pool pool' : Pool} {res : Poll (UInt32 × Bool)}
    {b : ℕ} (hw : t.WF b) (h : t.pollUpdate pool = .ok (res, t', pool')) : t'.WF b := by
  rcases pollUpdate_cases h with ⟨-, -, rfl, -⟩ | ⟨c, -, hr, -, hc, hle, rfl, -⟩ | ⟨-, -, -, rfl, -⟩
  · exact hw
  · have hheld := hw.held hr
    refine ⟨hw.base, hw.threshold, hw.chunks, hw.halfClosed, ?_, ?_, ?_⟩
    · intro _
      change _ = t.bufferedLen + (t.credit - c.toNat)
      dsimp only
      omega
    · have := hw.credit_le
      dsimp only
      omega
    · intro hf
      exact absurd (not_reading_of_finSent hf) (by change ¬ t.reading = false; simp [hr])
  · exact ⟨hw.base, hw.threshold, by simp [buffered], by simp, by simp [reading], le_rfl,
      fun _ => rfl⟩

/-- What a poll did to the direction, with the credit it sent (0 for none) and whether it sent
`FIN_READ`. -/
structure Emits (t : InboundTraffic) (credit : ℕ) (finRead : Bool) (t' : InboundTraffic) :
    Prop where
  buffered : t'.buffered = t.buffered
  reading : t'.reading = t.reading
  ended : t'.ended = t.ended
  creditOpen : 0 < credit → t.reading = true
  credit_le : credit ≤ t.credit
  finOpen : finRead = true → t.reading = false ∧ t.finSent = false ∧ credit = 0
  unacked : t'.window.unacked = if finRead then 0 else t.window.unacked - credit
  credit : t'.credit = if finRead then 0 else t.credit - credit
  finSent : t'.finSent = (t.finSent || finRead)

/-- The credit sent and the credit still owed are at most what was owed. -/
theorem Emits.credit_add_le {t t' : InboundTraffic} {credit : ℕ} {finRead : Bool}
    (h : t.Emits credit finRead t') : credit + t'.credit ≤ t.credit := by
  rw [h.credit]
  have hle := h.credit_le
  split_ifs with hf
  · have := (h.finOpen hf).2.2
    omega
  · omega

/-- A poll sends the credit and the `FIN_READ` that it returns. -/
theorem pollUpdate_emits {t t' : InboundTraffic} {pool pool' : Pool} {res : Poll (UInt32 × Bool)}
    (h : t.pollUpdate pool = .ok (res, t', pool')) :
    t.Emits (res.getD (0, false)).1.toNat (res.getD (0, false)).2 t' := by
  rcases pollUpdate_cases h with ⟨rfl, -, rfl, -⟩ | ⟨c, rfl, hr, -, hc, hle, rfl, -⟩ |
    ⟨rfl, hr, hf, rfl, -⟩
  · constructor <;> simp [Poll.getD]
  · have hf := not_finSent_of_reading hr
    refine ⟨rfl, rfl, rfl, fun _ => hr, ?_, by simp [Poll.getD], by simp [Poll.getD],
      by simp [Poll.getD], by simp [Poll.getD, InboundTraffic.finSent, finState]⟩
    simp only [Poll.getD]
    omega
  · refine ⟨?_, ?_, rfl, by simp [Poll.getD], by simp [Poll.getD], fun _ => ⟨hr, hf, rfl⟩,
      by simp [Poll.getD], by simp [Poll.getD],
      by simp [Poll.getD, InboundTraffic.finSent, finState]⟩
    · rw [buffered_of_not_reading hr]; simp [InboundTraffic.buffered]
    · rw [hr]; simp [InboundTraffic.reading]

/-! ## What the peer sends -/

/-- What counting does: the window and the pool count the bytes, whatever the verdict, and the
verdict is whether the pool is overdrawn. -/
theorem count_eq_ok {window window' : Window} {pool pool' : Pool} {len : ℕ}
    {verdict : Except StreamError Unit}
    (h : count window pool len = .ok (verdict, window', pool')) :
    window' = { window with unacked := window.unacked + len } ∧ window.Moves pool window' pool' ∧
      ((verdict = .ok () ∧ pool'.used ≤ pool'.size) ∨
        (verdict = .error .exceededPool ∧ pool'.size < pool'.used)) := by
  simp only [count, Lib.bind_eq_ok] at h
  obtain ⟨⟨w, p⟩, hadd, h⟩ := h
  obtain ⟨rfl, hmoves⟩ := Window.add_eq_ok hadd
  change (if p.isOverdrawn = true then _ else _) = _ at h
  split at h
  · next hover =>
    cases h
    exact ⟨rfl, hmoves, .inr ⟨rfl, of_decide_eq_true hover⟩⟩
  · next hover =>
    cases h
    exact ⟨rfl, hmoves, .inl ⟨rfl, by simpa [Pool.isOverdrawn] using hover⟩⟩

/-- What received data does. It is held, counted and dropped, or only dropped; or it is a
violation, and then nothing more is held than before. -/
theorem receivedData_cases {t t' : InboundTraffic} {data : Bytes} {pool pool' : Pool}
    {wk wk' : Wakes} {verdict : Except StreamError Unit}
    (h : t.receivedData data pool wk = .ok (verdict, t', pool', wk')) :
    (verdict = .ok () ∧ (data = [] ∨ (t.finSent = true ∧ t.ended = false)) ∧
        t' = t ∧ pool' = pool ∧ wk' = wk) ∨
      (verdict = .ok () ∧ data ≠ [] ∧ (∃ readyData reader, t.state = .open readyData reader ∧
          t' = { t with state := .open (readyData ++ [data]) none,
                        window := { t.window with unacked := t.window.unacked + data.length } } ∧
          wk' = reader.wake wk) ∧
        t.window.Moves pool t'.window pool' ∧ pool'.used ≤ pool'.size) ∨
      (verdict = .ok () ∧ data ≠ [] ∧ t.reading = false ∧ t.ended = false ∧ t.finSent = false ∧
        t' = { t with window := { t.window with unacked := t.window.unacked + data.length } } ∧
        wk' = wk ∧ t.window.Moves pool t'.window pool' ∧ pool'.used ≤ pool'.size) ∨
      (verdict = .error .dataAfterFinWrite ∧ data ≠ [] ∧ t.ended = true ∧ t' = t ∧ pool' = pool ∧
        wk' = wk) ∨
      (verdict = .error .exceededPool ∧ data ≠ [] ∧ t.ended = false ∧ t.finSent = false ∧
        t' = { t with window := { t.window with unacked := t.window.unacked + data.length } } ∧
        wk' = wk ∧ t.window.Moves pool t'.window pool' ∧ pool'.size < pool'.used) := by
  unfold receivedData at h
  by_cases hlen : data.length = 0
  · rw [if_pos hlen] at h
    cases h
    exact .inl ⟨rfl, .inl (List.eq_nil_of_length_eq_zero hlen), rfl, rfl, rfl⟩
  rw [if_neg hlen] at h
  have hne : data ≠ [] := fun he => hlen (by rw [he]; rfl)
  split at h
  · -- Open: the data is held.
    next readyData reader hs =>
    simp only [Lib.bind_eq_ok] at h
    obtain ⟨⟨v, w, p⟩, hcount, h⟩ := h
    obtain ⟨rfl, hmoves, ⟨rfl, hp⟩ | ⟨rfl, hp⟩⟩ := count_eq_ok hcount
    · cases h
      exact .inr (.inl ⟨rfl, hne, ⟨readyData, reader, hs, rfl, rfl⟩, hmoves, hp⟩)
    · cases h
      exact .inr (.inr (.inr (.inr ⟨rfl, hne, by simp [ended, hs], by simp [finSent, finState, hs],
        rfl, rfl, hmoves, hp⟩)))
  · next hs =>
    cases h
    exact .inr (.inr (.inr (.inl ⟨rfl, hne, by simp [ended, hs], rfl, rfl, rfl⟩)))
  · next fin hs =>
    have hr : t.reading = false := by simp [reading, hs]
    have hsent : t.finSent = fin.sent := by simp [finSent, finState, hs]
    have hended : t.ended = fin.received := by simp [ended, hs]
    by_cases hfr : fin.received = true
    · rw [if_pos hfr] at h
      cases h
      exact .inr (.inr (.inr (.inl ⟨rfl, hne, by rw [hended, hfr], rfl, rfl, rfl⟩)))
    rw [if_neg hfr] at h
    by_cases hfs : fin.sent = true
    · rw [if_pos hfs] at h
      cases h
      exact .inl ⟨rfl, .inr ⟨by rw [hsent, hfs], by simpa [hended] using hfr⟩, rfl, rfl, rfl⟩
    rw [if_neg hfs] at h
    -- Closed, and the sender does not know yet: the data is counted and dropped.
    simp only [Lib.bind_eq_ok] at h
    obtain ⟨⟨v, w, p⟩, hcount, h⟩ := h
    cases h
    have hfr' : t.ended = false := by simpa [hended] using hfr
    have hfs' : t.finSent = false := by simpa [hsent] using hfs
    obtain ⟨rfl, hmoves, ⟨rfl, hp⟩ | ⟨rfl, hp⟩⟩ := count_eq_ok hcount
    · exact .inr (.inr (.inl ⟨rfl, hne, hr, hfr', hfs', rfl, rfl, hmoves, hp⟩))
    · exact .inr (.inr (.inr (.inr ⟨rfl, hne, hfr', hfs', rfl, rfl, hmoves, hp⟩)))

/-- Data that is accepted leaves the direction well formed. -/
theorem WF.receivedData {t t' : InboundTraffic} {data : Bytes} {pool pool' : Pool}
    {wk wk' : Wakes} {b : ℕ} (hw : t.WF b)
    (h : t.receivedData data pool wk = .ok (.ok (), t', pool', wk')) : t'.WF b := by
  rcases receivedData_cases h with ⟨-, -, rfl, -⟩ | ⟨-, hne, ⟨rd, reader, hs, rfl, -⟩, -⟩ |
    ⟨-, -, hr, -, hfs, rfl, -⟩ | ⟨hv, -⟩ | ⟨hv, -⟩
  · exact hw
  · have hheld := hw.held (by simp [reading, hs])
    have hlen : t.bufferedLen = (rd.map List.length).sum := by simp [bufferedLen, buffered, hs]
    refine ⟨hw.base, hw.threshold, ?_, by simp, ?_, ?_, by simp [finSent, finState]⟩
    · intro d hd
      rcases List.mem_append.mp hd with hd | hd
      · exact hw.chunks d (by simpa [buffered, hs] using hd)
      · rw [List.mem_singleton.mp hd]; exact hne
    · intro _
      simp only [bufferedLen, buffered, List.map_append, List.sum_append, List.map_singleton,
        List.sum_singleton]
      omega
    · have := hw.credit_le
      dsimp only
      omega
  · refine ⟨hw.base, hw.threshold, hw.chunks, hw.halfClosed, ?_, ?_, ?_⟩
    · intro hr'
      exact absurd hr (by rw [show t.reading = true from hr']; simp)
    · have := hw.credit_le
      dsimp only
      omega
    · intro hfs'
      exact absurd hfs (by rw [show t.finSent = true from hfs']; simp)
  · cases hv
  · cases hv

/-- What a received `FIN_WRITE` does: the direction is half-closed while there is data to read, and
closed after that; a second one is a violation. -/
theorem receivedFinWrite_cases (t : InboundTraffic) (me : StreamRef) (wk : Wakes) :
    (t.ended = true ∧ t.receivedFinWrite me wk = (.error .duplicateFinWrite, t, wk)) ∨
      (t.ended = false ∧ (∃ data rest reader, t.state = .open (data :: rest) reader ∧
        t.receivedFinWrite me wk =
          (.ok (), { t with state := .halfClosed (data :: rest) }, wk))) ∨
      (t.ended = false ∧ (∃ reader, t.state = .open [] reader ∧ t.receivedFinWrite me wk =
        (.ok (), { t with state := .closed { sent := false, received := true } },
          reader.wake (wk.wake me)))) ∨
      (t.ended = false ∧ t.reading = false ∧ t.receivedFinWrite me wk =
        (.ok (), { t with state := .closed { sent := t.finSent, received := true } }, wk)) := by
  unfold receivedFinWrite
  split
  · next data rest reader hs =>
    exact .inr (.inl ⟨by simp [ended, hs], data, rest, reader, hs, rfl⟩)
  · next reader hs => exact .inr (.inr (.inl ⟨by simp [ended, hs], reader, hs, rfl⟩))
  · next hs => exact .inl ⟨by simp [ended, hs], rfl⟩
  · next fin hs =>
    have hended : t.ended = fin.received := by simp [ended, hs]
    by_cases hfr : fin.received = true
    · rw [if_pos hfr]
      exact .inl ⟨by rw [hended, hfr], rfl⟩
    · rw [if_neg hfr]
      exact .inr (.inr (.inr ⟨by simpa [hended] using hfr, by simp [reading, hs],
        by simp [finSent, finState, hs]⟩))

/-- `FIN_WRITE` leaves the direction well formed. -/
theorem WF.receivedFinWrite {t : InboundTraffic} {b : ℕ} (hw : t.WF b) (me : StreamRef)
    (wk : Wakes) : (t.receivedFinWrite me wk).2.1.WF b := by
  rcases t.receivedFinWrite_cases me wk with ⟨-, h⟩ | ⟨-, data, rest, reader, hs, h⟩ |
    ⟨-, reader, hs, h⟩ | ⟨-, hr, h⟩
  · rw [h]
    exact hw
  · rw [h]
    have hheld := hw.held (by simp [reading, hs])
    refine ⟨hw.base, hw.threshold, ?_, by rintro _ ⟨⟩; simp, ?_, hw.credit_le,
      by simp [finSent, finState]⟩
    · simpa [buffered, hs] using hw.chunks
    · intro _
      simpa [bufferedLen, buffered, hs] using hheld
  · rw [h]
    exact hw.closed true
  · rw [h]
    refine ⟨hw.base, hw.threshold, by simp [buffered], by simp, by simp [reading], hw.credit_le, ?_⟩
    intro hf
    exact hw.sent (by simpa [finSent, finState] using hf)

/-! ## A whole frame -/

/-- The chunks that data makes: empty data is not held. -/
def chunks (data : Bytes) : List Bytes := if data = [] then [] else [data]

/-- The chunks of the data are the data. -/
@[simp] theorem flatten_chunks (data : Bytes) : (chunks data).flatten = data := by
  unfold chunks
  split_ifs with h
  · rw [h]; rfl
  · simp

/-- There is no chunk only where there is no data. -/
@[simp] theorem chunks_eq_nil {data : Bytes} : chunks data = [] ↔ data = [] := by
  unfold chunks
  split_ifs with h <;> simp [h]

/-- What the `DATA` and `FIN_WRITE` of an accepted frame do to the direction. -/
structure Received (t : InboundTraffic) (data : Bytes) (finWrite : Bool) (t' : InboundTraffic) :
    Prop where
  dataOpen : data ≠ [] → t.ended = false
  finOpen : finWrite = true → t.ended = false
  unacked : t'.window.unacked =
    if t.finSent then t.window.unacked else t.window.unacked + data.length
  buffered : t'.buffered = if t.reading then t.buffered ++ chunks data else []
  credit : t'.credit = t.credit
  finSent : t'.finSent = t.finSent
  ended : t'.ended = (t.ended || finWrite)
  reading : t'.reading = true ↔ t.reading = true ∧ (finWrite = true → t'.buffered ≠ [])

/-- What accepted data does, before `FIN_WRITE`. -/
theorem receivedData_received {t t' : InboundTraffic} {data : Bytes} {pool pool' : Pool}
    {wk wk' : Wakes} (h : t.receivedData data pool wk = .ok (.ok (), t', pool', wk')) :
    t.Received data false t' := by
  have hnot := @buffered_of_not_reading t
  rcases receivedData_cases h with ⟨-, hd, rfl, -⟩ | ⟨-, hne, ⟨rd, reader, hs, rfl, -⟩, -⟩ |
    ⟨-, hne, hr, he, hf, rfl, -⟩ | ⟨hv, -⟩ | ⟨hv, -⟩
  · rcases hd with rfl | ⟨hf, he⟩
    · refine ⟨by simp, by simp, by simp, ?_, rfl, rfl, by simp, by simp⟩
      cases hr : t'.reading with
      | true => simp [chunks]
      | false => simpa using hnot hr
    · have hr := not_reading_of_finSent hf
      exact ⟨fun _ => he, by simp, by simp [hf], by simp [hr, hnot hr], rfl, rfl, by simp, by simp⟩
  · refine ⟨fun _ => by simp [InboundTraffic.ended, hs], by simp, ?_, ?_, rfl, ?_, ?_, ?_⟩
    · simp [InboundTraffic.finSent, finState, hs]
    · simp [InboundTraffic.buffered, InboundTraffic.reading, hs, chunks, hne]
    · simp [InboundTraffic.finSent, finState, hs]
    · simp [InboundTraffic.ended, hs]
    · simp [InboundTraffic.reading, hs]
  · exact ⟨fun _ => he, by simp, by simp [hf], by simp [hr]; exact hnot hr, rfl, rfl,
      by simp [InboundTraffic.ended], by simp [InboundTraffic.reading]⟩
  · cases hv
  · cases hv

/-- What an accepted `FIN_WRITE` does after the data of its frame. -/
theorem Received.finWrite {t t₁ t' : InboundTraffic} {data : Bytes} {me : StreamRef}
    {wk wk' : Wakes} (h : t.Received data false t₁)
    (hfin : t₁.receivedFinWrite me wk = (.ok (), t', wk')) : t.Received data true t' := by
  have hended₁ : t₁.ended = t.ended := by simpa using h.ended
  have hreading₁ : t₁.reading = t.reading := by
    rw [Bool.eq_iff_iff]
    simpa using h.reading
  have hb : t₁.buffered = if t.reading then t.buffered ++ chunks data else [] := h.buffered
  rcases t₁.receivedFinWrite_cases me wk with ⟨-, hf⟩ | ⟨he, d, rest, reader, hs, hf⟩ |
    ⟨he, reader, hs, hf⟩ | ⟨he, hr, hf⟩
  · -- A second `FIN_WRITE` is no accepted one.
    rw [hf] at hfin
    cases hfin
  · -- With data buffered the direction is half closed, and is read from on.
    rw [hf] at hfin
    cases hfin
    have hr : t.reading = true := by rw [← hreading₁]; simp [InboundTraffic.reading, hs]
    refine ⟨h.dataOpen, fun _ => by rw [← hended₁, he], h.unacked, ?_, h.credit, ?_, ?_, ?_⟩
    · rw [← hb]; simp [InboundTraffic.buffered, hs]
    · rw [← h.finSent]; simp [InboundTraffic.finSent, finState, hs]
    · simp [InboundTraffic.ended]
    · simpa [InboundTraffic.reading, InboundTraffic.buffered] using hr
  · -- With nothing buffered it is closed at once.
    rw [hf] at hfin
    cases hfin
    have hr : t.reading = true := by rw [← hreading₁]; simp [InboundTraffic.reading, hs]
    refine ⟨h.dataOpen, fun _ => by rw [← hended₁, he], h.unacked, ?_, h.credit, ?_, ?_, ?_⟩
    · rw [← hb]; simp [InboundTraffic.buffered, hs]
    · rw [← h.finSent]; simp [InboundTraffic.finSent, finState, hs]
    · simp [InboundTraffic.ended]
    · simp [InboundTraffic.reading, InboundTraffic.buffered]
  · -- Nobody reads any more, and nothing is buffered.
    rw [hf] at hfin
    cases hfin
    have hr' : t.reading = false := by rw [← hreading₁, hr]
    refine ⟨h.dataOpen, fun _ => by rw [← hended₁, he], h.unacked, ?_, h.credit, ?_, ?_, ?_⟩
    · rw [if_neg (by simp [hr'])]; simp [InboundTraffic.buffered]
    · rw [← h.finSent]; simp [InboundTraffic.finSent, finState]
    · simp [InboundTraffic.ended]
    · simp [InboundTraffic.reading, InboundTraffic.buffered]

/-- Data is accepted where the sender may send it and the pool has room for it. -/
theorem receivedData_ok {t : InboundTraffic} {data : Bytes} (pool : Pool) (wk : Wakes)
    (hopen : data ≠ [] → t.ended = false) (hle : t.window.borrowed ≤ pool.used)
    (hlt : pool.used + t.window.unacked + data.length < 2^64)
    (hroom : t.finSent = false →
      pool.used + Window.borrowedAt (t.window.unacked + data.length) t.window.base ≤
        pool.size + t.window.borrowed) :
    ∃ t' pool' wk', t.receivedData data pool wk = .ok (.ok (), t', pool', wk') := by
  obtain ⟨⟨w, p⟩, hadd⟩ := Window.add_ok hle hlt
  -- There is room in the pool, so counting the data does not overdraw it.
  have hcount : t.finSent = false → count t.window pool data.length = .ok (.ok (), w, p) := by
    intro hf
    obtain ⟨rfl, hmoves⟩ := Window.add_eq_ok hadd
    have hover : p.isOverdrawn = false := by
      have hu := hmoves.used
      have hs := hmoves.size
      have hr := hroom hf
      simp only [Window.borrowed] at hu hr
      simp only [Pool.isOverdrawn, decide_eq_false_iff_not]
      omega
    simp only [count, Lib.bind_eq_ok]
    exact ⟨_, hadd, by rw [if_neg (by simp [hover])]; rfl⟩
  unfold receivedData
  by_cases hlen : data.length = 0
  · rw [if_pos hlen]
    exact ⟨_, _, _, rfl⟩
  rw [if_neg hlen]
  have hended := hopen fun he => hlen (by rw [he]; rfl)
  split
  · next rd reader hs =>
    have := hcount (by simp [finSent, finState, hs])
    exact ⟨_, _, _, by rw [this]; rfl⟩
  · next hs => simp [ended, hs] at hended
  · next fin hs =>
    have hfr : fin.received = false := by simpa [ended, hs] using hended
    rw [if_neg (by simp [hfr])]
    -- After `FIN_READ` the data is dropped without being counted.
    by_cases hfs : fin.sent = true
    · rw [if_pos hfs]
      exact ⟨_, _, _, rfl⟩
    · rw [if_neg hfs]
      have := hcount (by simpa [finSent, finState, hs] using hfs)
      exact ⟨_, _, _, by rw [this]; rfl⟩

/-- Data is accepted or refused where the pool counts what the window borrows, and the new counts
fit. -/
theorem receivedData_returns {t : InboundTraffic} (data : Bytes) (pool : Pool) (wk : Wakes)
    (hle : t.window.borrowed ≤ pool.used)
    (hlt : pool.used + t.window.unacked + data.length < 2^64) :
    ∃ r, t.receivedData data pool wk = .ok r := by
  obtain ⟨⟨w, p⟩, hadd⟩ := Window.add_ok hle hlt
  obtain ⟨verdict, hcount⟩ : ∃ verdict, count t.window pool data.length = .ok (verdict, w, p) := by
    unfold count
    rw [hadd]
    by_cases hover : p.isOverdrawn = true
    · exact ⟨_, if_pos hover⟩
    · exact ⟨_, if_neg hover⟩
  unfold receivedData
  split_ifs
  · exact ⟨_, rfl⟩
  · split
    · rw [hcount]
      cases verdict <;> exact ⟨_, rfl⟩
    · exact ⟨_, rfl⟩
    · split_ifs
      · exact ⟨_, rfl⟩
      · exact ⟨_, rfl⟩
      · rw [hcount]
        exact ⟨_, rfl⟩

/-- A task is polled where the pool counts what the window borrows, and the window counts what was
read. -/
theorem pollUpdate_returns {t : InboundTraffic} {pool : Pool} (hle : t.window.borrowed ≤ pool.used)
    (hlt : pool.used + t.window.unacked < 2^64) (hcredit : t.credit ≤ t.window.unacked) :
    ∃ r, t.pollUpdate pool = .ok r := by
  have hset (unacked : ℕ) (hle' : unacked ≤ t.window.unacked) :
      ∃ r, t.window.set pool unacked = .ok r := Window.set_ok unacked hle (by omega)
  have hpart : (toU32 t.credit).toNat ≤ t.credit := by
    rw [toU32_toNat]
    exact Nat.min_le_left _ _
  obtain ⟨r, hr⟩ := hset (t.window.unacked - (toU32 t.credit).toNat) (Nat.sub_le _ _)
  unfold pollUpdate
  split
  iterate 2
    split_ifs
    · exact ⟨_, rfl⟩
    · exact ⟨_, Lib.bind_eq_ok.mpr ⟨_, u64Sub_eq_ok.mpr ⟨hpart, rfl⟩, Lib.bind_eq_ok.mpr
        ⟨_, u64Sub_eq_ok.mpr ⟨hpart.trans hcredit, rfl⟩, Lib.bind_eq_ok.mpr ⟨r, hr, rfl⟩⟩⟩⟩
  · split_ifs
    · exact ⟨_, rfl⟩
    · obtain ⟨r, hr⟩ := hset 0 (Nat.zero_le _)
      exact ⟨_, Lib.bind_eq_ok.mpr ⟨r, hr, rfl⟩⟩

/-- `FIN_WRITE` is accepted once. -/
theorem receivedFinWrite_ok {t : InboundTraffic} (me : StreamRef) (wk : Wakes)
    (h : t.ended = false) : (t.receivedFinWrite me wk).1 = .ok () := by
  rcases t.receivedFinWrite_cases me wk with ⟨he, -⟩ | ⟨-, _, _, _, _, hf⟩ | ⟨-, _, _, hf⟩ |
    ⟨-, -, hf⟩
  · rw [h] at he; cases he
  · rw [hf]
  · rw [hf]
  · rw [hf]

end InboundTraffic

end Rammux
