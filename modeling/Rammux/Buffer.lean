import Rammux.Basic
import Rammux.Lib.Linked
import Rammux.Lib.Machine

/-!
# Buffers of inbound data

`src/buffer.rs`: the payload of a frame is read into a `Buffer`, becomes `Data`, and waits in a
`DataList` until it is read. A list costs no memory of its own: the first bytes of every allocation
are reserved for the link to the next one.

An allocation is its bytes, at an address of the `Heap`. `Layout` says how the target writes a
pointer to a slice as bytes. Reading or writing memory that is not allocated, and reading bytes that
were never written, are faults, as panics are.
-/

namespace Rammux

/-- A pointer to a slice: its address, and how many bytes there are. -/
structure SlicePtr where
  addr : UInt64
  len : UInt64
  deriving DecidableEq, Repr

/-- How pointers to slices are kept in memory: `size_of::<NextLink>()` bytes, from which the pointer
can be read again. -/
structure Layout where
  size : ℕ
  toBytes : SlicePtr → Bytes
  ofBytes : Bytes → SlicePtr
  length_toBytes : ∀ p, (toBytes p).length = size
  ofBytes_toBytes : ∀ p, ofBytes (toBytes p) = p

/-- What must not happen: a panic, or an access to memory that Rust leaves undefined. -/
inductive Fault where
  | panicked (panic : Panic)
  /-- Memory that is not allocated, or an allocation of another size. -/
  | notLive
  /-- Bytes that were never written. -/
  | notInit
  deriving DecidableEq, Repr

/-- The allocations, by their addresses. -/
abbrev Heap := UInt64 → Option Bytes

namespace Heap

/-- Reads the slice that a pointer points to. There is always an empty slice. -/
def read (heap : Heap) (p : SlicePtr) : Except Fault Bytes :=
  if p.len = 0 then .ok []
  else
    match heap p.addr with
    | none => .error .notLive
    | some storage => if storage.length = p.len.toNat then .ok storage else .error .notLive

/-- Writes the slice at an address. -/
def write (heap : Heap) (addr : UInt64) (storage : Bytes) : Heap :=
  Function.update heap addr (some storage)

/-- Frees an allocation. -/
def free (heap : Heap) (addr : UInt64) : Heap := Function.update heap addr none

end Heap

/-! ## Buffers -/

/-- A buffer of fixed size: a byte is absent until it is written. -/
abbrev Buffer := List (Option UInt8)

/-- The pointer to the empty slice. -/
def emptySlice : SlicePtr := ⟨1, 0⟩

namespace Buffer

/-- A new buffer, with a stub in the place of the link. -/
def withCapacity (layout : Layout) (capacity : ℕ) : Except Fault Buffer :=
  if capacity = 0 then .ok []
  else if capacity + layout.size < 2^64 then
    .ok ((layout.toBytes emptySlice).map some ++ List.replicate capacity none)
  else .error (.panicked .capacityOverflow)

/-- The bytes after the link. -/
def asSlice (layout : Layout) (buffer : Buffer) : List (Option UInt8) := buffer.drop layout.size

/-- Fills the bytes after the link. -/
def writeCopyOfSlice (layout : Layout) (buffer : Buffer) (slice : Bytes) : Except Fault Buffer :=
  if (buffer.asSlice layout).length = slice.length then
    .ok (buffer.take layout.size ++ slice.map some)
  else .error (.panicked .outOfRange)

/-- The data of a buffer, which has to be written fully. -/
def assumeInit (buffer : Buffer) : Except Fault Bytes :=
  if buffer.all Option.isSome then .ok (buffer.filterMap id) else .error .notInit

end Buffer

/-! ## Data -/

namespace Data

/-- Data with the given payload, as `Data::copy_from_slice` and the codec make it. -/
def copyFromSlice (layout : Layout) (slice : Bytes) : Except Fault Bytes := do
  let buffer ← Buffer.withCapacity layout slice.length
  let buffer ← buffer.writeCopyOfSlice layout slice
  buffer.assumeInit

/-- The payload. -/
def asRef (layout : Layout) (storage : Bytes) : Bytes := storage.drop layout.size

/-- The payload, as `Bytes::from` makes it: the link is skipped, unless there is nothing. -/
def intoBytes (layout : Layout) (storage : Bytes) : Except Fault Bytes :=
  if storage.isEmpty then .ok []
  else if layout.size ≤ storage.length then .ok (storage.drop layout.size)
  else .error (.panicked .outOfRange)

end Data

/-! ## Lists -/

/-- A list of data: pointers to its first and to its last allocation. -/
structure DataList where
  head : Option SlicePtr := none
  tail : Option SlicePtr := none
  deriving DecidableEq, Repr

namespace DataList

variable (layout : Layout)

/-- Reads the link of an allocation. -/
def next (storage : Bytes) : Except Fault SlicePtr :=
  if layout.size ≤ storage.length then .ok (layout.ofBytes (storage.take layout.size))
  else .error (.panicked .debugAssert)

/-- Writes the link of an allocation. -/
def setNext (storage : Bytes) (link : SlicePtr) : Except Fault Bytes :=
  if layout.size ≤ storage.length then .ok (layout.toBytes link ++ storage.drop layout.size)
  else .error (.panicked .debugAssert)

/-- Takes the first data of the list. -/
def popFront (self : DataList) (heap : Heap) : Except Fault (Option SlicePtr × DataList) :=
  match self.head with
  | none => .ok (none, self)
  | some head => do
    let storage ← heap.read head
    if self.head = self.tail then return (some head, { self with head := none, tail := none })
    else do
      let newHead ← next layout storage
      return (some head, { self with head := some newHead })

/-- Appends data to the list, unless it is empty. -/
def pushBack (self : DataList) (heap : Heap) (data : SlicePtr) :
    Except Fault (DataList × Heap) :=
  if data.len = 0 then .ok (self, heap)
  else if data.addr = 0 then .error (.panicked .nullBox)
  else
    match self.tail with
    | some tail => do
      let storage ← heap.read tail
      let storage ← setNext layout storage data
      return ({ self with tail := some data }, heap.write tail.addr storage)
    | none => .ok ({ head := some data, tail := some data }, heap)

/-- Whether the list is empty. -/
def isEmpty (self : DataList) : Bool := self.head.isNone

end DataList

/-! ## What the heap holds -/

namespace Heap

variable (layout : Layout) {heap : Heap} {p q : SlicePtr} {addr : UInt64} {storage : Bytes}

/-- Whether a pointer points to an allocation, as a whole. -/
def Live (heap : Heap) (p : SlicePtr) : Prop :=
  p.len ≠ 0 ∧ ∃ storage, heap p.addr = some storage ∧ storage.length = p.len.toNat

/-- The link of an allocation. -/
def link (heap : Heap) (p : SlicePtr) : Option SlicePtr :=
  (heap p.addr).map fun storage => layout.ofBytes (storage.take layout.size)

/-- The payload of an allocation. -/
def payload (heap : Heap) (p : SlicePtr) : Bytes := ((heap p.addr).getD []).drop layout.size

/-- Every allocation has room for the link and for a payload, and its address is not null. -/
def Sound (heap : Heap) : Prop :=
  ∀ addr storage, heap addr = some storage →
    addr ≠ 0 ∧ layout.size < storage.length ∧ storage.length < 2^64

/-- What is live can be read. -/
theorem read_of_live (h : heap.Live p) :
    ∃ storage, heap p.addr = some storage ∧ heap.read p = .ok storage := by
  obtain ⟨hlen, storage, hheap, hstorage⟩ := h
  refine ⟨storage, hheap, ?_⟩
  rw [read, if_neg hlen, hheap]
  exact if_pos hstorage

/-- One pointer points to an allocation. -/
theorem Live.eq_of_addr (hp : heap.Live p) (hq : heap.Live q) (h : p.addr = q.addr) : p = q := by
  obtain ⟨-, storage, hheap, hlen⟩ := hp
  obtain ⟨-, storage', hheap', hlen'⟩ := hq
  rw [h, hheap'] at hheap
  cases hheap
  have hlens : p.len = q.len := UInt64.toNat_inj.mp (hlen.symm.trans hlen')
  cases p
  cases q
  simp_all

variable {layout}

/-- The link of a buffer depends on its storage alone. -/
theorem link_congr {heap' : Heap} (h : heap' p.addr = heap p.addr) :
    heap'.link layout p = heap.link layout p := by
  rw [link, link, h]

/-- The payload of a buffer depends on its storage alone. -/
theorem payload_congr {heap' : Heap} (h : heap' p.addr = heap p.addr) :
    heap'.payload layout p = heap.payload layout p := by
  rw [payload, payload, h]

/-- The pointer to an allocation is the one that was given out for it. -/
theorem live_of_some (hsound : heap.Sound layout) (h : heap addr = some storage) :
    heap.Live ⟨addr, UInt64.ofNat storage.length⟩ := by
  obtain ⟨-, hsize, hlen⟩ := hsound addr storage h
  have hnat : (UInt64.ofNat storage.length).toNat = storage.length :=
    UInt64.toNat_ofNat_of_lt' hlen
  refine ⟨fun hzero => ?_, storage, h, hnat.symm⟩
  rw [show UInt64.ofNat storage.length = 0 from hzero] at hnat
  rw [← hnat] at hsize
  exact Nat.not_lt_zero _ hsize

/-- A new allocation is alive beside the others, and nothing else changes. -/
theorem live_write (hsound : heap.Sound layout) (hfresh : heap addr = none) (haddr : addr ≠ 0)
    (hsize : layout.size < storage.length) (hlen : storage.length < 2^64) :
    (heap.write addr storage).Sound layout ∧
      ∀ q, (heap.write addr storage).Live q ↔
        heap.Live q ∨ q = ⟨addr, UInt64.ofNat storage.length⟩ := by
  have hsound' : (heap.write addr storage).Sound layout := by
    intro a st ha
    unfold write at ha
    by_cases haa : a = addr
    · subst haa
      rw [Function.update_self] at ha
      cases ha
      exact ⟨haddr, hsize, hlen⟩
    · rw [Function.update_of_ne haa] at ha
      exact hsound a st ha
  refine ⟨hsound', fun q => ?_⟩
  have hnew : (heap.write addr storage).Live ⟨addr, UInt64.ofNat storage.length⟩ :=
    live_of_some hsound' (Function.update_self _ _ _)
  by_cases hq : q.addr = addr
  · have hdead : ¬heap.Live q := by
      rintro ⟨-, st, hst, -⟩
      rw [hq, hfresh] at hst
      cases hst
    rw [or_iff_right hdead]
    refine ⟨fun h => h.eq_of_addr hnew hq, ?_⟩
    rintro rfl
    exact hnew
  · have hsame : heap.write addr storage q.addr = heap q.addr := Function.update_of_ne hq _ _
    have hne : q ≠ ⟨addr, UInt64.ofNat storage.length⟩ := by
      rintro rfl
      exact hq rfl
    rw [or_iff_left hne, Live, Live, hsame]

/-- Freeing an allocation leaves the others. -/
theorem live_free (hsound : heap.Sound layout) (hp : heap.Live p) :
    (heap.free p.addr).Sound layout ∧
      ∀ q, (heap.free p.addr).Live q ↔ heap.Live q ∧ q ≠ p := by
  refine ⟨fun a st ha => ?_, fun q => ?_⟩
  · unfold free at ha
    by_cases haa : a = p.addr
    · rw [haa, Function.update_self] at ha
      cases ha
    · rw [Function.update_of_ne haa] at ha
      exact hsound a st ha
  · by_cases hq : q.addr = p.addr
    · refine iff_of_false ?_ fun h => h.2 (h.1.eq_of_addr hp hq)
      rintro ⟨-, st, hst, -⟩
      rw [free, hq, Function.update_self] at hst
      cases hst
    · have hsame : heap.free p.addr q.addr = heap q.addr := Function.update_of_ne hq _ _
      have hne : q ≠ p := by
        rintro rfl
        exact hq rfl
      rw [Live, hsame, and_iff_left hne, Live]

/-- Writing the link of an allocation keeps its payload and everything else. -/
theorem write_link (hsound : heap.Sound layout) (h : heap addr = some storage) (target : SlicePtr) :
    let heap' := heap.write addr (layout.toBytes target ++ storage.drop layout.size)
    heap'.Sound layout ∧ (∀ q, heap'.Live q ↔ heap.Live q) ∧
      (∀ q, heap'.payload layout q = heap.payload layout q) ∧
      (∀ q, q.addr = addr → heap'.link layout q = some target) ∧
      ∀ q, q.addr ≠ addr → heap'.link layout q = heap.link layout q := by
  intro heap'
  obtain ⟨haddr, hsize, hlen⟩ := hsound addr storage h
  have hself : heap' addr = some (layout.toBytes target ++ storage.drop layout.size) :=
    Function.update_self _ _ _
  have hother : ∀ a, a ≠ addr → heap' a = heap a := fun a ha => Function.update_of_ne ha _ _
  -- The link has its own size, whatever it points to.
  have hlength : (layout.toBytes target ++ storage.drop layout.size).length = storage.length := by
    rw [List.length_append, layout.length_toBytes, List.length_drop]
    omega
  refine ⟨fun a st ha => ?_, fun q => ?_, fun q => ?_, fun q hq => ?_, fun q hq => ?_⟩
  · by_cases haa : a = addr
    · rw [haa, hself] at ha
      cases ha
      rw [hlength, haa]
      exact ⟨haddr, hsize, hlen⟩
    · rw [hother a haa] at ha
      exact hsound a st ha
  · by_cases hq : q.addr = addr
    · simp only [Live, hq, hself, h, Option.some.injEq, exists_eq_left', hlength]
    · rw [Live, Live, hother _ hq]
  · by_cases hq : q.addr = addr
    · rw [payload, payload, hq, hself, h, Option.getD_some, Option.getD_some,
        List.drop_append_of_le_length (layout.length_toBytes target).ge,
        ← layout.length_toBytes target,
        List.drop_length, List.nil_append, layout.length_toBytes]
    · exact payload_congr (hother _ hq)
  · -- The link that is read is the one that was written: the layout reads back what it writes.
    rw [link, hq, hself, Option.map_some, List.take_append_of_le_length
      (layout.length_toBytes target).ge, ← layout.length_toBytes target, List.take_length,
      layout.ofBytes_toBytes]
  · exact link_congr (hother _ hq)

end Heap

/-! ## The operations -/

section Operations

variable {layout : Layout} {heap : Heap} {list : DataList} {x : SlicePtr} {xs : List SlicePtr}

/-- A buffer that was written fully has its data. -/
theorem Buffer.assumeInit_map_some (storage : Bytes) :
    Buffer.assumeInit (storage.map some) = .ok storage := by
  have hall : (storage.map some).all Option.isSome = true := by simp
  rw [Buffer.assumeInit, if_pos hall, List.filterMap_map]
  exact congrArg Except.ok List.filterMap_some

/-- No memory is needed for an empty payload. -/
theorem Data.copyFromSlice_nil : copyFromSlice layout [] = .ok [] := by
  have hempty : (Buffer.asSlice layout []).length = ([] : Bytes).length := by
    rw [Buffer.asSlice, List.drop_nil]
    rfl
  refine Lib.bind_eq_ok.mpr ⟨[], rfl, Lib.bind_eq_ok.mpr ⟨_, if_pos hempty, ?_⟩⟩
  rw [List.take_nil]
  rfl

/-- Another payload is stored after the stub, unless their length overflows. -/
theorem Data.copyFromSlice_eq {slice : Bytes} (hne : slice ≠ []) :
    copyFromSlice layout slice =
      if slice.length + layout.size < 2^64 then .ok (layout.toBytes emptySlice ++ slice)
      else .error (.panicked .capacityOverflow) := by
  have hpos : slice.length ≠ 0 := fun hlen => hne (List.length_eq_zero_iff.mp hlen)
  split_ifs with hlen
  · have hsize : ((layout.toBytes emptySlice).map some).length = layout.size := by
      rw [List.length_map, layout.length_toBytes]
    have hcapacity : Buffer.withCapacity layout slice.length =
        .ok ((layout.toBytes emptySlice).map some ++ List.replicate slice.length none) := by
      rw [Buffer.withCapacity, if_neg hpos, if_pos hlen]
    refine Lib.bind_eq_ok.mpr ⟨_, hcapacity, Lib.bind_eq_ok.mpr ⟨_, if_pos ?_, ?_⟩⟩
    · rw [Buffer.asSlice, ← hsize, List.drop_left, List.length_replicate]
    · rw [← hsize, List.take_left, ← List.map_append, Buffer.assumeInit_map_some]
  · rw [copyFromSlice, Buffer.withCapacity, if_neg hpos, if_neg hlen]
    rfl

/-- The payload can be taken out of an allocation. -/
theorem Data.intoBytes_eq {storage : Bytes} (h : layout.size < storage.length ∨ storage = []) :
    intoBytes layout storage = .ok (asRef layout storage) := by
  rcases h with h | rfl
  · have hne : storage.isEmpty = false := by
      cases storage with
      | nil => exact absurd h (Nat.not_lt_zero _)
      | cons b storage => rfl
    rw [intoBytes, hne, if_neg (by simp), if_pos h.le, asRef]
  · rw [intoBytes, asRef, List.drop_nil]
    rfl

namespace DataList

/-- Taking the first element of a list, through its link if there are more. -/
theorem popFront_spec (hsound : heap.Sound layout)
    (h : Lib.Chained list.head list.tail (heap.link layout) (x :: xs)) (hx : heap.Live x) :
    ∃ list', list.popFront layout heap = .ok (some x, list') ∧
      Lib.Chained list'.head list'.tail (heap.link layout) xs := by
  obtain ⟨storage, hheap, hread⟩ := Heap.read_of_live hx
  obtain ⟨-, hsize, -⟩ := hsound x.addr storage hheap
  have hhead : list.head = some x := h.head
  unfold popFront
  rw [hhead]
  simp only
  rw [hread]
  cases xs with
  | nil =>
    have heq : some x = list.tail := hhead.symm.trans (h.head_eq_tail.mpr rfl)
    refine ⟨{}, Lib.bind_eq_ok.mpr ⟨_, rfl, ?_⟩, Lib.chained_nil _⟩
    rw [if_pos heq]
    rfl
  | cons y xs =>
    have hne : some x ≠ list.tail := fun heq =>
      List.cons_ne_nil y xs (h.head_eq_tail.mp (hhead.trans heq))
    obtain ⟨hlink, hrest⟩ := h.pop
    have hnext : next layout storage = .ok y := by
      rw [Heap.link, hheap, Option.map_some, Option.some.injEq] at hlink
      rw [next, if_pos hsize.le, hlink]
    refine ⟨{ list with head := some y }, Lib.bind_eq_ok.mpr ⟨_, rfl, ?_⟩, hrest⟩
    rw [if_neg hne, hnext]
    rfl

/-- There is nothing to take from an empty list. -/
theorem popFront_nil (h : Lib.Chained list.head list.tail (heap.link layout) []) :
    list.popFront layout heap = .ok (none, list) := by
  have hhead : list.head = none := h.head
  rw [popFront, hhead]

/-- Appending an element: at most the link of the last one is written. -/
theorem pushBack_spec (hsound : heap.Sound layout)
    (h : Lib.Chained list.head list.tail (heap.link layout) xs) (hx : heap.Live x) (hnot : x ∉ xs)
    (hxs : ∀ y ∈ xs, heap.Live y) :
    ∃ list' heap', list.pushBack layout heap x = .ok (list', heap') ∧
      Lib.Chained list'.head list'.tail (heap'.link layout) (xs ++ [x]) ∧ heap'.Sound layout ∧
      (∀ q, heap'.Live q ↔ heap.Live q) ∧
      (∀ q, heap'.payload layout q = heap.payload layout q) ∧
      ∀ q, heap.Live q → q ∉ xs → heap'.link layout q = heap.link layout q := by
  obtain ⟨storage, hheap, -⟩ := Heap.read_of_live hx
  have haddr : x.addr ≠ 0 := (hsound x.addr storage hheap).1
  unfold pushBack
  rw [if_neg hx.1, if_neg haddr]
  cases htail : list.tail with
  | none =>
    have hnil : xs = [] := List.getLast?_eq_none_iff.mp (h.tail.symm.trans htail)
    subst hnil
    refine ⟨_, heap, rfl, ?_, hsound, fun _ => Iff.rfl, fun _ => rfl, fun _ _ _ => rfl⟩
    exact h.push hnot rfl (fun t ht => by rw [htail] at ht; cases ht) fun _ _ _ => rfl
  | some tail =>
    have hmem : tail ∈ xs := List.mem_of_getLast? (h.tail.symm.trans htail)
    obtain ⟨old, hold, hread⟩ := Heap.read_of_live (hxs tail hmem)
    obtain ⟨-, hsize, -⟩ := hsound tail.addr old hold
    obtain ⟨hsound', hlive, hpayload, hlink, hlinks⟩ := Heap.write_link hsound hold x
    -- Other allocations are at other addresses.
    have hother : ∀ q, heap.Live q → q ≠ tail → q.addr ≠ tail.addr := fun q hq hne heq =>
      hne (hq.eq_of_addr (hxs tail hmem) heq)
    refine ⟨{ list with tail := some x }, _, Lib.bind_eq_ok.mpr ⟨_, hread, Lib.bind_eq_ok.mpr
      ⟨_, if_pos hsize.le, rfl⟩⟩, ?_, hsound', hlive, hpayload, fun q hq hqx => ?_⟩
    · refine h.push hnot ?_ (fun t ht => ?_) fun y hy hne => hlinks y (hother y (hxs y hy) ?_)
      · rw [if_neg (List.ne_nil_of_mem hmem)]
      · rw [htail] at ht
        cases ht
        exact hlink tail rfl
      · rintro rfl
        exact hne htail
    · refine hlinks q (hother q hq ?_)
      rintro rfl
      exact hqx hmem

end DataList

end Operations

end Rammux
