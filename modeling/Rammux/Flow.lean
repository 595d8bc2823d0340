import Rammux.Basic

/-!
# The arithmetic of the flow control

`Pool` and `Window` of `src/flow.rs`. A window counts the bytes of one direction of one stream that
are in flight, and moves the usage of the pool along: the bytes beyond its base are borrowed.
`Window.Moves` states what a change of a window does to the pool, and it composes; every change of
a pool in the code is one.

The smoothed round trip time is exact here, and in seconds. The code rounds it to the resolution of
its types, and only asks whether there is a sample: what it multiplies the sample with, the
allowance of a stream, is an input of the model.
-/

namespace Rammux

/-- Bytes of credit at which the receiver returns credit, unless the base window is small. -/
def creditThresholdMax : ℕ := 32 * 1024

/-- How much credit has to accumulate on a stream before it is sent. -/
def creditThreshold (baseWindow : ℕ) : ℕ := max (min creditThresholdMax (baseWindow / 2)) 1

/-- The threshold is at least one byte. -/
theorem creditThreshold_pos (b : ℕ) : 0 < creditThreshold b := by
  unfold creditThreshold; omega

/-- A stream with less uncredited bytes than the threshold has room in its base window. -/
theorem creditThreshold_le {b : ℕ} (h : 0 < b) : creditThreshold b ≤ b := by
  unfold creditThreshold; omega

/-! ## Pools and windows -/

/-- Memory that the streams of one direction share on top of their base windows. -/
structure Pool where
  size : ℕ
  /-- Sum over the streams of the bytes they borrow. -/
  used : ℕ
  deriving DecidableEq, Repr

/-- An unused pool. -/
def Pool.new (size : ℕ) : Pool := ⟨size, 0⟩

/-- How many bytes are not borrowed. -/
def Pool.room (pool : Pool) : ℕ := pool.size - pool.used

/-- Whether some bytes are not borrowed. -/
def Pool.hasRoom (pool : Pool) : Bool := 0 < pool.room

/-- A pool has room when it is not used up. -/
theorem Pool.hasRoom_iff {pool : Pool} : pool.hasRoom = true ↔ pool.used < pool.size := by
  simp [Pool.hasRoom, Pool.room]

/-- Whether the streams borrow more than there is. -/
def Pool.isOverdrawn (pool : Pool) : Bool := pool.size < pool.used

/-- Bytes of one direction of a stream that are in flight. -/
structure Window where
  /-- The base window. -/
  base : ℕ
  unacked : ℕ
  deriving DecidableEq, Repr

/-- A window with nothing in flight. -/
def Window.new (base : ℕ) : Window := ⟨base, 0⟩

/-- The bytes beyond the base window. -/
def Window.borrowedAt (unacked base : ℕ) : ℕ := unacked - base

/-- The bytes in flight beyond the base window. -/
def Window.borrowed (w : Window) : ℕ := Window.borrowedAt w.unacked w.base

/-- How many more bytes fit into the base window. -/
def Window.baseRoom (w : Window) : ℕ := w.base - w.unacked

/-- Sets the bytes in flight, and moves the usage of the pool along. The first result is whether
the stream gave some of the pool back. -/
def Window.set (w : Window) (pool : Pool) (unacked : ℕ) : Except Panic (Bool × Window × Pool) := do
  let old := w.borrowed
  let new := Window.borrowedAt unacked w.base
  let used ← u64Sub pool.used old
  let used ← u64Add used new
  return (decide (new < old), { w with unacked }, { pool with used })

/-- Accounts for `len` more bytes in flight. -/
def Window.add (w : Window) (pool : Pool) (len : ℕ) : Except Panic (Window × Pool) := do
  let unacked ← u64Add w.unacked len
  let (_, w, pool) ← w.set pool unacked
  return (w, pool)

/-- What a change of a window does to the pool: the base and the size stay, and the usage changes
by as much as the borrowed bytes. -/
structure Window.Moves (w : Window) (pool : Pool) (w' : Window) (pool' : Pool) : Prop where
  base : w'.base = w.base
  size : pool'.size = pool.size
  used : pool'.used + w.borrowed = pool.used + w'.borrowed

/-- A window that stays takes nothing from the pool. -/
theorem Window.Moves.refl (w : Window) (pool : Pool) : w.Moves pool w pool := ⟨rfl, rfl, rfl⟩

/-- What two changes of a window take from the pool, they take together. -/
theorem Window.Moves.trans {w w' w'' : Window} {p p' p'' : Pool} (h : w.Moves p w' p')
    (h' : w'.Moves p' w'' p'') : w.Moves p w'' p'' := by
  refine ⟨h'.base.trans h.base, h'.size.trans h.size, ?_⟩
  have := h.used
  have := h'.used
  omega

/-- What setting a window does. -/
theorem Window.set_eq_ok {w w' : Window} {pool pool' : Pool} {unacked : ℕ} {freed : Bool}
    (h : w.set pool unacked = .ok (freed, w', pool')) :
    w' = { w with unacked } ∧ w.Moves pool w' pool' ∧ freed = decide (pool'.used < pool.used) := by
  simp only [Window.set, Lib.bind_eq_ok, u64Sub_eq_ok, u64Add_eq_ok, pure, Except.pure,
    Except.ok.injEq, Prod.mk.injEq] at h
  obtain ⟨_, ⟨hle, rfl⟩, _, ⟨-, rfl⟩, hfreed, rfl, rfl⟩ := h
  refine ⟨rfl, ⟨rfl, rfl, ?_⟩, ?_⟩
  · simp only [Window.borrowed] at hle ⊢
    omega
  · rw [← hfreed, decide_eq_decide]
    simp only [Window.borrowed] at hle ⊢
    omega

/-- Setting a window succeeds where the pool counts what the window borrows, and the new count
fits. -/
theorem Window.set_ok {w : Window} {pool : Pool} (unacked : ℕ) (hle : w.borrowed ≤ pool.used)
    (hlt : pool.used + unacked < 2^64) : ∃ r, w.set pool unacked = .ok r := by
  have hnew : pool.used - w.borrowed + Window.borrowedAt unacked w.base < 2^64 := by
    simp only [Window.borrowedAt]
    omega
  exact ⟨_, Lib.bind_eq_ok.mpr ⟨_, u64Sub_eq_ok.mpr ⟨hle, rfl⟩,
    Lib.bind_eq_ok.mpr ⟨_, u64Add_eq_ok.mpr ⟨hnew, rfl⟩, rfl⟩⟩⟩

/-- What adding to a window does. -/
theorem Window.add_eq_ok {w w' : Window} {pool pool' : Pool} {len : ℕ}
    (h : w.add pool len = .ok (w', pool')) :
    w' = { w with unacked := w.unacked + len } ∧ w.Moves pool w' pool' := by
  simp only [Window.add, Lib.bind_eq_ok, u64Add_eq_ok, pure, Except.pure, Except.ok.injEq,
    Prod.mk.injEq] at h
  obtain ⟨_, ⟨-, rfl⟩, ⟨freed, v, p⟩, hset, rfl, rfl⟩ := h
  obtain ⟨rfl, hmoves, -⟩ := Window.set_eq_ok hset
  exact ⟨rfl, hmoves⟩

/-- Adding to a window succeeds where the pool counts what the window borrows, and the new counts
fit. -/
theorem Window.add_ok {w : Window} {pool : Pool} {len : ℕ} (hle : w.borrowed ≤ pool.used)
    (hlt : pool.used + w.unacked + len < 2^64) : ∃ r, w.add pool len = .ok r := by
  obtain ⟨⟨freed, v, p⟩, hset⟩ := Window.set_ok (w.unacked + len) hle (by omega)
  refine ⟨(v, p), ?_⟩
  simp only [Window.add, Lib.bind_eq_ok, u64Add_eq_ok]
  exact ⟨_, ⟨by omega, rfl⟩, _, hset, rfl⟩

/-! ## The smoothed round trip time -/

/-- The smoothed round trip time of a connection in seconds, once there was a sample. -/
abbrev Srtt := Option ℚ

/-- Weight of a new sample. -/
def srttGain : ℚ := 1 / 8

/-- The smallest smoothed round trip time: a microsecond. -/
def srttMin : ℚ := 1 / 1000000

/-- Folds a sample into the smoothed value. -/
def Srtt.observe (srtt : Srtt) (rtt : ℚ) : Srtt :=
  match srtt with
  | none => some (max rtt srttMin)
  | some srtt => some (max (srtt + (rtt - srtt) * srttGain) srttMin)

end Rammux
