import Rammux.Buffer
import Rammux.Lib.BigEndian
import Rammux.Lib.Ownership

/-!
# Lists of data are queues

Any number of lists over one heap, and the data that the program has in its hands. Data is made with
a payload, cloned, appended to a list, taken from one, appended again to the same list or to
another, turned into `Bytes` and dropped. Dropping a list takes its data one by one and drops it,
and so is a sequence of these steps.

A link that was followed and a link that was written are part of the answers, as is the payload of
what was appended: nothing of the lists depends on it.
-/

namespace Rammux

/-- The heap, the lists, and the data that is in no list. -/
structure DataLists where
  heap : Heap
  lists : ℕ → DataList
  held : List SlicePtr

namespace DataLists

/-- What the program can do. The allocator chooses the address of new data. -/
inductive Action where
  | new (addr : UInt64) (payload : Bytes)
  | clone (data : SlicePtr) (addr : UInt64)
  | pushBack (list : ℕ) (data : SlicePtr)
  | popFront (list : ℕ)
  | isEmpty (list : ℕ)
  | asRef (data : SlicePtr)
  | intoBytes (data : SlicePtr)
  | drop (data : SlicePtr)
  deriving DecidableEq, Repr

/-- A link: the allocation that it is in, and the one that it points to. -/
structure Link where
  source : SlicePtr
  target : SlicePtr
  deriving DecidableEq, Repr

/-- What comes of it. -/
inductive Answer where
  | data (data : SlicePtr)
  /-- The payload that was appended, and the link that was written for it. -/
  | pushed (payload : Bytes) (written : Option Link)
  /-- What was taken with its payload, and the link that was followed for it. -/
  | popped (data : Option (SlicePtr × Bytes)) (followed : Option Link)
  | flag (value : Bool)
  | bytes (payload : Bytes)
  | dropped
  | fault (fault : Fault)
  deriving DecidableEq, Repr

/-- Nothing is allocated, and all lists are empty. -/
def init : DataLists := ⟨fun _ => none, fun _ => {}, []⟩

/-- The program uses data that it has: empty data is nothing that one could lack. -/
def withData (s : DataLists) (data : SlicePtr) (f : Bytes → Except Unit (Answer × DataLists)) :
    Except Unit (Answer × DataLists) :=
  if data.len ≠ 0 ∧ data ∉ s.held then .error ()
  else
    match s.heap.read data with
    | .error fault => .ok (.fault fault, s)
    | .ok storage => f storage

/-- The allocator gives out an address that is not null and not in use. No memory is allocated for
empty data. -/
def alloc (s : DataLists) (addr : UInt64) (storage : Bytes) : Except Unit (Answer × DataLists) :=
  if storage = [] then .ok (.data emptySlice, s)
  else if addr = 0 ∨ (s.heap addr).isSome then .error ()
  else
    let data : SlicePtr := ⟨addr, UInt64.ofNat storage.length⟩
    .ok (.data data, { s with heap := s.heap.write addr storage, held := data :: s.held })

/-- Data is freed, if there is any. -/
def release (s : DataLists) (data : SlicePtr) : DataLists :=
  if data.len = 0 then s
  else { s with heap := s.heap.free data.addr, held := s.held.erase data }

/-- The link that appending data to a list writes: in the last allocation. -/
def written (list : DataList) (data : SlicePtr) : Option Link :=
  if data.len = 0 then none else list.tail.map fun tail => ⟨tail, data⟩

/-- The link that was followed if `list` has become `list'`: in the first allocation. -/
def followed (list list' : DataList) : Option Link :=
  if list.head = list.tail then none
  else list.head.bind fun head => list'.head.map fun link => ⟨head, link⟩

variable (layout : Layout)

/-- One step. Appending moves the data into the list, and taking moves it out. -/
def step (s : DataLists) : Action → Except Unit (Answer × DataLists)
  | .new addr payload =>
    match Data.copyFromSlice layout payload with
    | .error fault => .ok (.fault fault, s)
    | .ok storage => s.alloc addr storage
  | .clone data addr => s.withData data (s.alloc addr)
  | .pushBack i data => s.withData data fun storage =>
    match (s.lists i).pushBack layout s.heap data with
    | .error fault => .ok (.fault fault, s)
    | .ok (list, heap) =>
      .ok (.pushed (Data.asRef layout storage) (written (s.lists i) data),
        { heap, lists := Function.update s.lists i list, held := s.held.erase data })
  | .popFront i =>
    match (s.lists i).popFront layout s.heap with
    | .error fault => .ok (.fault fault, s)
    | .ok (none, list) =>
      .ok (.popped none none, { s with lists := Function.update s.lists i list })
    | .ok (some data, list) =>
      match s.heap.read data with
      | .error fault => .ok (.fault fault, s)
      | .ok storage =>
        .ok (.popped (some (data, Data.asRef layout storage)) (followed (s.lists i) list),
          { s with lists := Function.update s.lists i list, held := data :: s.held })
  | .isEmpty i => .ok (.flag (s.lists i).isEmpty, s)
  | .asRef data => s.withData data fun storage => .ok (.bytes (Data.asRef layout storage), s)
  | .intoBytes data => s.withData data fun storage =>
    match Data.intoBytes layout storage with
    | .error fault => .ok (.fault fault, s)
    | .ok payload => .ok (.bytes payload, s.release data)
  | .drop data => s.withData data fun _ => .ok (.dropped, s.release data)

/-- The lists as a machine. -/
def machine : Lib.Machine Unit DataLists Action Answer := ⟨init, step layout⟩

/-! ## What a run has done -/

/-- The payload that an event appended to a list. -/
def appended (i : ℕ) : Action × Answer → Option Bytes
  | (.pushBack j _, .pushed payload _) => if j = i then some payload else none
  | _ => none

/-- The payload that an event took from a list. -/
def taken (i : ℕ) : Action × Answer → Option Bytes
  | (.popFront j, .popped (some (_, payload)) _) => if j = i then some payload else none
  | _ => none

/-- The payloads that were appended to a list, but for the empty ones. -/
def pushed (i : ℕ) (tr : List (Action × Answer)) : List Bytes :=
  (tr.filterMap (appended i)).filter fun payload => payload ≠ []

/-- The payloads that were taken from a list. -/
def popped (i : ℕ) (tr : List (Action × Answer)) : List Bytes := tr.filterMap (taken i)

/-- Whether an event took data from a list. -/
def Takes (data : SlicePtr) (event : Action × Answer) : Prop :=
  ∃ i payload followed, event = (.popFront i, .popped (some (data, payload)) followed)

/-- A link was written by appending to a list, in the last allocation of that list, and this
allocation has not been taken from a list since. -/
def WrittenFor (i : ℕ) (link : Link) (tr : List (Action × Answer)) : Prop :=
  ∃ before payload after,
    tr = before ++ (.pushBack i link.target, .pushed payload (some link)) :: after ∧
      ∀ e ∈ after, ¬Takes link.source e

/-! ## The invariant -/

/-- The lists lead through the allocations that they own, and everything allocated is owned. -/
structure Holds (s : DataLists) (contents : ℕ → List SlicePtr)
    (owner : SlicePtr → Option (Lib.Owner ℕ)) : Prop where
  sound : s.heap.Sound layout
  chained : ∀ i, Lib.Chained (s.lists i).head (s.lists i).tail (s.heap.link layout) (contents i)
  owned : Lib.Owned owner s.heap.Live s.held contents

/-- What an event does to the contents of the lists: they are queues. -/
inductive Moves (heap : Heap) (contents : ℕ → List SlicePtr) :
    Action × Answer → (ℕ → List SlicePtr) → Prop
  | quiet {e : Action × Answer} (hpush : ∀ i d p w, e ≠ (.pushBack i d, .pushed p w))
      (hpop : ∀ i r f, e ≠ (.popFront i, .popped r f)) : Moves heap contents e contents
  | pushEmpty (i : ℕ) (d : SlicePtr) :
      Moves heap contents (.pushBack i d, .pushed [] none) contents
  | push (i : ℕ) {d : SlicePtr} (hlive : heap.Live d) (hne : heap.payload layout d ≠ []) :
      Moves heap contents
        (.pushBack i d, .pushed (heap.payload layout d)
          ((contents i).getLast?.map fun tail => ⟨tail, d⟩))
        (Function.update contents i (contents i ++ [d]))
  | popEmpty {i : ℕ} (hi : contents i = []) :
      Moves heap contents (.popFront i, .popped none none) contents
  | pop {i : ℕ} {d : SlicePtr} {xs : List SlicePtr} (hi : contents i = d :: xs) :
      Moves heap contents
        (.popFront i, .popped (some (d, heap.payload layout d))
          (xs.head?.map fun link => ⟨d, link⟩))
        (Function.update contents i xs)

/-- Data that stays as it is. -/
def Kept (s s' : DataLists) (p : SlicePtr) : Prop :=
  s'.heap.Live p ∧ s'.heap.payload layout p = s.heap.payload layout p

variable {layout} {s s' : DataLists} {contents : ℕ → List SlicePtr}
  {owner : SlicePtr → Option (Lib.Owner ℕ)} {data : SlicePtr} {o : Answer}

/-- At the start there are no buffers, and all lists are empty. -/
theorem holds_init : Holds layout init (fun _ => []) fun _ => none where
  sound _ _ h := by cases h
  chained _ := Lib.chained_nil _
  owned := by
    refine ⟨fun p => iff_of_false ?_ (by simp), by simp [init], by simp, List.nodup_nil, by simp⟩
    rintro ⟨-, storage, h, -⟩
    cases h

/-- Data that the program has can be read: it is empty, or an allocation. -/
theorem Holds.withData (h : Holds layout s contents owner)
    {f : Bytes → Except Unit (Answer × DataLists)} (hstep : s.withData data f = .ok (o, s')) :
    ∃ storage, f storage = .ok (o, s') ∧ (data.len = 0 ∧ storage = [] ∨
      data ∈ s.held ∧ data.len ≠ 0 ∧ s.heap data.addr = some storage) := by
  unfold DataLists.withData at hstep
  split_ifs at hstep with hhas
  by_cases hlen : data.len = 0
  · have hread : s.heap.read data = .ok [] := if_pos hlen
    rw [hread] at hstep
    exact ⟨[], hstep, .inl ⟨hlen, rfl⟩⟩
  · have hheld : data ∈ s.held := by
      by_contra hnot
      exact hhas ⟨hlen, hnot⟩
    obtain ⟨storage, hheap, hread⟩ := Heap.read_of_live (h.owned.live_of_held hheld)
    rw [hread] at hstep
    exact ⟨storage, hstep, .inr ⟨hheld, hlen, hheap⟩⟩

/-- New data is handed out. -/
theorem Holds.alloc (h : Holds layout s contents owner) {addr : UInt64} {storage : Bytes}
    (hstorage : storage = [] ∨ layout.size < storage.length ∧ storage.length < 2^64)
    (hstep : s.alloc addr storage = .ok (o, s')) :
    (∃ owner', Holds layout s' contents owner') ∧ (∀ p, s.heap.Live p → Kept layout s s' p) ∧
      ∃ d, o = .data d := by
  unfold DataLists.alloc at hstep
  split_ifs at hstep with hempty hused
  · cases hstep
    exact ⟨⟨owner, h⟩, fun p hp => ⟨hp, rfl⟩, _, rfl⟩
  · cases hstep
    obtain ⟨hsize, hlen⟩ := hstorage.resolve_left hempty
    obtain ⟨haddr, hfree⟩ := not_or.mp hused
    have hfresh : s.heap addr = none := by simpa using hfree
    obtain ⟨hsound, hlive⟩ := Heap.live_write h.sound hfresh haddr hsize hlen
    -- What was alive is at other addresses.
    have hsame : ∀ p, s.heap.Live p → s.heap.write addr storage p.addr = s.heap p.addr := by
      rintro p ⟨-, st, hst, -⟩
      refine Function.update_of_ne (fun hp => ?_) _ _
      rw [hp, hfresh] at hst
      cases hst
    have hdead : ¬s.heap.Live ⟨addr, UInt64.ofNat storage.length⟩ := by
      rintro ⟨-, st, hst, -⟩
      rw [hfresh] at hst
      cases hst
    refine ⟨⟨_, hsound, fun i => (h.chained i).congr fun p hp => ?_, h.owned.create hdead hlive⟩,
      fun p hp => ⟨(hlive p).mpr (.inl hp), ?_⟩, _, rfl⟩
    · exact Heap.link_congr (hsame p (h.owned.live_of_listed hp))
    · exact Heap.payload_congr (hsame p hp)

/-- Data is freed by whoever has it. -/
theorem Holds.release (h : Holds layout s contents owner) (hdata : data.len = 0 ∨ data ∈ s.held) :
    (∃ owner', Holds layout (s.release data) contents owner') ∧
      ∀ p, s.heap.Live p → p ≠ data → Kept layout s (s.release data) p := by
  unfold DataLists.release
  split_ifs with hlen
  · exact ⟨⟨owner, h⟩, fun p hp _ => ⟨hp, rfl⟩⟩
  · have hheld := hdata.resolve_left hlen
    have hdata := h.owned.live_of_held hheld
    obtain ⟨hsound, hlive⟩ := Heap.live_free h.sound hdata
    have hsame : ∀ p, s.heap.Live p → p ≠ data → s.heap.free data.addr p.addr = s.heap p.addr :=
      fun p hp hne => Function.update_of_ne (fun haddr => hne (hp.eq_of_addr hdata haddr)) _ _
    refine ⟨⟨_, hsound, fun i => (h.chained i).congr fun p hp => ?_, h.owned.destroy hheld hlive⟩,
      fun p hp hne => ⟨(hlive p).mpr ⟨hp, hne⟩, Heap.payload_congr (hsame p hp hne)⟩⟩
    refine Heap.link_congr (hsame p (h.owned.live_of_listed hp) ?_)
    rintro rfl
    exact h.owned.not_listed hheld i hp

/-- What a step that appends or takes does. -/
structure Stepped (layout : Layout) (s s' : DataLists) (contents : ℕ → List SlicePtr)
    (event : Action × Answer) : Prop where
  holds : ∃ contents' owner', Holds layout s' contents' owner' ∧
    Moves layout s.heap contents event contents'
  kept : ∀ p, s.heap.Live p → event.1 ≠ .drop p → event.1 ≠ .intoBytes p → Kept layout s s' p
  returns : ∀ fault, event.2 = .fault fault → fault = .panicked .capacityOverflow

/-- A step that leaves the lists alone. -/
theorem Stepped.quiet {a : Action} (h : ∃ owner', Holds layout s' contents owner')
    (hkept : ∀ p, s.heap.Live p → a ≠ .drop p → a ≠ .intoBytes p → Kept layout s s' p)
    (hpush : ∀ i d, a ≠ .pushBack i d) (hpop : ∀ i, a ≠ .popFront i)
    (ho : ∀ fault, o ≠ .fault fault) :
    Stepped layout s s' contents (a, o) where
  holds := by
    obtain ⟨owner', h⟩ := h
    exact ⟨contents, owner', h, .quiet (fun i d _ _ he => hpush i d (Prod.mk.inj he).1)
      fun i _ _ he => hpop i (Prod.mk.inj he).1⟩
  kept := hkept
  returns fault hfault := absurd hfault (ho fault)

/-- Empty data is dropped, and other data is appended. -/
theorem Holds.pushBack (h : Holds layout s contents owner) {i : ℕ}
    (hstep : s.step layout (.pushBack i data) = .ok (o, s')) :
    Stepped layout s s' contents (.pushBack i data, o) := by
  obtain ⟨storage, hstep, hdata⟩ := h.withData hstep
  rcases hdata with ⟨hlen, rfl⟩ | ⟨hheld, hlen, hheap⟩
  · have hpush : (s.lists i).pushBack layout s.heap data = .ok (s.lists i, s.heap) := if_pos hlen
    have hnot : data ∉ s.held := fun hheld => (h.owned.live_of_held hheld).1 hlen
    rw [hpush] at hstep
    simp only [written, if_pos hlen, Data.asRef, List.drop_nil, Function.update_eq_self,
      List.erase_of_not_mem hnot, Except.ok.injEq, Prod.mk.injEq] at hstep
    obtain ⟨rfl, rfl⟩ := hstep
    exact ⟨⟨contents, owner, h, .pushEmpty i data⟩, fun p hp _ _ => ⟨hp, rfl⟩, by simp⟩
  · have hlive := h.owned.live_of_held hheld
    obtain ⟨list', heap', hpush, hchained, hsound, hlives, hpayload, hlinks⟩ :=
      DataList.pushBack_spec h.sound (h.chained i) hlive (h.owned.not_listed hheld i)
        fun y hy => h.owned.live_of_listed hy
    rw [hpush] at hstep
    simp only [Except.ok.injEq, Prod.mk.injEq] at hstep
    obtain ⟨rfl, rfl⟩ := hstep
    have hstored : Data.asRef layout storage = s.heap.payload layout data := by
      rw [Data.asRef, Heap.payload, hheap, Option.getD_some]
    have hne : s.heap.payload layout data ≠ [] := by
      rw [← hstored, Data.asRef, Ne, List.drop_eq_nil_iff]
      exact not_le.mpr (h.sound data.addr storage hheap).2.1
    refine ⟨⟨_, _, ⟨hsound, fun j => ?_, h.owned.give hheld i hlives⟩, ?_⟩,
      fun p hp _ _ => ⟨(hlives p).mpr hp, hpayload p⟩, by simp⟩
    · by_cases hj : j = i
      · subst hj
        simp only [Function.update_self]
        exact hchained
      · simp only [Function.update_of_ne hj]
        -- The allocations of another list keep their links.
        refine (h.chained j).congr fun p hp => hlinks p (h.owned.live_of_listed hp) fun hpi => hj ?_
        have howner := ((h.owned.listed j p).mp hp).symm.trans ((h.owned.listed i p).mp hpi)
        exact Lib.Owner.list.inj (Option.some.inj howner)
    · rw [hstored, written, if_neg hlen, (h.chained i).tail]
      exact .push i hlive hne

/-- There is nothing to take from an empty list. -/
theorem Holds.popFront_nil (h : Holds layout s contents owner) {i : ℕ} (hi : contents i = []) :
    s.step layout (.popFront i) = .ok (.popped none none, s) := by
  have hchained := h.chained i
  rw [hi] at hchained
  simp only [DataLists.step, DataList.popFront_nil hchained, Function.update_eq_self]

/-- The first data of a list is taken, through its link if there is more. -/
theorem Holds.popFront_cons (h : Holds layout s contents owner) {i : ℕ} {d : SlicePtr}
    {xs : List SlicePtr} (hi : contents i = d :: xs) :
    ∃ list', Lib.Chained list'.head list'.tail (s.heap.link layout) xs ∧
      s.step layout (.popFront i) =
        .ok (.popped (some (d, s.heap.payload layout d)) (xs.head?.map fun link => ⟨d, link⟩),
          { s with lists := Function.update s.lists i list', held := d :: s.held }) := by
  have hchained := h.chained i
  rw [hi] at hchained
  have hlive : s.heap.Live d := h.owned.live_of_listed (i := i) (by rw [hi]; simp)
  obtain ⟨list', hpop, hchained'⟩ := DataList.popFront_spec h.sound hchained hlive
  obtain ⟨storage, hheap, hread⟩ := Heap.read_of_live hlive
  have hstored : Data.asRef layout storage = s.heap.payload layout d := by
    rw [Data.asRef, Heap.payload, hheap, Option.getD_some]
  have hfollowed : followed (s.lists i) list' = xs.head?.map fun link => ⟨d, link⟩ := by
    unfold followed
    rw [hchained'.head]
    split_ifs with heq
    · rw [hchained.head_eq_tail.mp heq]
      rfl
    · rw [hchained.head]
      rfl
  refine ⟨list', hchained', ?_⟩
  simp only [DataLists.step, hpop, hread, hstored, hfollowed]

/-- Taking from a list takes its first buffer, with its payload. -/
theorem Holds.popFront (h : Holds layout s contents owner) {i : ℕ}
    (hstep : s.step layout (.popFront i) = .ok (o, s')) :
    Stepped layout s s' contents (.popFront i, o) := by
  cases hi : contents i with
  | nil =>
    rw [h.popFront_nil hi] at hstep
    cases hstep
    exact ⟨⟨contents, owner, h, .popEmpty hi⟩, fun p hp _ _ => ⟨hp, rfl⟩, nofun⟩
  | cons d xs =>
    obtain ⟨list', hchained, hpop⟩ := h.popFront_cons hi
    rw [hpop] at hstep
    cases hstep
    refine ⟨⟨_, _, ⟨h.sound, fun j => ?_, h.owned.take hi fun _ => Iff.rfl⟩, .pop hi⟩,
      fun p hp _ _ => ⟨hp, rfl⟩, nofun⟩
    by_cases hj : j = i
    · subst hj
      simp only [Function.update_self]
      exact hchained
    · simp only [Function.update_of_ne hj]
      exact h.chained j

/-- What a step does, whatever it is. -/
theorem Holds.step (h : Holds layout s contents owner) {a : Action}
    (hstep : s.step layout a = .ok (o, s')) : Stepped layout s s' contents (a, o) := by
  cases a with
  | pushBack i data => exact h.pushBack hstep
  | popFront i => exact h.popFront hstep
  | new addr payload =>
    -- An empty payload has no storage; any other one has the link in front of its bytes.
    by_cases hne : payload = []
    · subst hne
      simp only [DataLists.step, Data.copyFromSlice_nil] at hstep
      obtain ⟨hholds, hkept, d, rfl⟩ := h.alloc (.inl rfl) hstep
      exact .quiet hholds (fun p hp _ _ => hkept p hp) nofun nofun nofun
    · simp only [DataLists.step, Data.copyFromSlice_eq hne] at hstep
      split_ifs at hstep with hlen
      · have hlength : (layout.toBytes emptySlice ++ payload).length =
            layout.size + payload.length := by
          rw [List.length_append, layout.length_toBytes]
        have hpos : 0 < payload.length := List.length_pos_iff.mpr hne
        obtain ⟨hholds, hkept, d, rfl⟩ := h.alloc (.inr ⟨by omega, by omega⟩) hstep
        exact .quiet hholds (fun p hp _ _ => hkept p hp) nofun nofun nofun
      · -- The allocation is too large: `copy_from_slice` panics, and nothing has changed.
        cases hstep
        refine ⟨⟨contents, owner, h, .quiet nofun nofun⟩, fun p hp _ _ => ⟨hp, rfl⟩, ?_⟩
        rintro fault ⟨⟩
        rfl
  | clone data addr =>
    obtain ⟨storage, hstep, hdata⟩ := h.withData hstep
    -- A copy of the storage is as large as the storage, so it may be allocated as well.
    have hstorage : storage = [] ∨ layout.size < storage.length ∧ storage.length < 2^64 := by
      rcases hdata with ⟨-, rfl⟩ | ⟨-, -, hheap⟩
      · exact .inl rfl
      · exact .inr (h.sound data.addr storage hheap).2
    obtain ⟨hholds, hkept, d, rfl⟩ := h.alloc hstorage hstep
    exact .quiet hholds (fun p hp _ _ => hkept p hp) nofun nofun nofun
  | isEmpty i =>
    cases hstep
    exact .quiet ⟨owner, h⟩ (fun p hp _ _ => ⟨hp, rfl⟩) nofun nofun nofun
  | asRef data =>
    obtain ⟨storage, hstep, -⟩ := h.withData hstep
    cases hstep
    exact .quiet ⟨owner, h⟩ (fun p hp _ _ => ⟨hp, rfl⟩) nofun nofun nofun
  | intoBytes data =>
    obtain ⟨storage, hstep, hdata⟩ := h.withData hstep
    -- `into_bytes` cuts the link off, which every storage is long enough for.
    have hinto : Data.intoBytes layout storage = .ok (Data.asRef layout storage) := by
      refine Data.intoBytes_eq ?_
      rcases hdata with ⟨-, rfl⟩ | ⟨-, -, hheap⟩
      · exact .inr rfl
      · exact .inl (h.sound data.addr storage hheap).2.1
    rw [hinto] at hstep
    cases hstep
    obtain ⟨hholds, hkept⟩ := h.release (hdata.imp And.left And.left)
    refine .quiet hholds (fun p hp _ hne => hkept p hp ?_) nofun nofun nofun
    -- Every storage is kept but the one that is given away.
    rintro rfl
    exact hne rfl
  | drop data =>
    obtain ⟨storage, hstep, hdata⟩ := h.withData hstep
    cases hstep
    obtain ⟨hholds, hkept⟩ := h.release (hdata.imp And.left And.left)
    refine .quiet hholds (fun p hp hne _ => hkept p hp ?_) nofun nofun nofun
    rintro rfl
    exact hne rfl

/-! ## Whole runs -/

/-- What was appended to a list after one more event. -/
theorem pushed_append (i : ℕ) (tr : List (Action × Answer)) (e : Action × Answer) :
    pushed i (tr ++ [e]) = pushed i tr ++ (appended i e).toList.filter fun payload =>
      payload ≠ [] := by
  rw [pushed, List.filterMap_append, List.filter_append, pushed]
  cases h : appended i e with
  | none => simp [h]
  | some payload => simp [h]

/-- What was taken from a list after one more event. -/
theorem popped_append (i : ℕ) (tr : List (Action × Answer)) (e : Action × Answer) :
    popped i (tr ++ [e]) = popped i tr ++ (taken i e).toList := by
  rw [popped, List.filterMap_append, popped]
  cases h : taken i e with
  | none => simp [h]
  | some payload => simp [h]

/-- An event that neither appends nor takes. -/
theorem quiet_none {e : Action × Answer} (hpush : ∀ i d p w, e ≠ (.pushBack i d, .pushed p w))
    (hpop : ∀ i r f, e ≠ (.popFront i, .popped r f)) (i : ℕ) :
    appended i e = none ∧ taken i e = none := by
  constructor
  · unfold appended
    split
    · exact absurd rfl (hpush _ _ _ _)
    · rfl
  · unfold taken
    split
    · exact absurd rfl (hpop _ _ _)
    · rfl

/-- A link stays written until its allocation is taken. -/
theorem WrittenFor.append {i : ℕ} {link : Link} {tr : List (Action × Answer)} {e : Action × Answer}
    (h : WrittenFor i link tr) (he : ¬Takes link.source e) : WrittenFor i link (tr ++ [e]) := by
  obtain ⟨before, payload, after, rfl, hafter⟩ := h
  refine ⟨before, payload, after ++ [e], by simp, fun e' he' => ?_⟩
  rcases List.mem_append.mp he' with hmem | hmem
  · exact hafter e' hmem
  · rwa [List.mem_singleton.mp hmem]

/-- What a run leaves: the lists hold what was appended and not taken, every link between two of
their allocations was written for them, and nothing that was appended is lost. -/
structure Recalls (layout : Layout) (tr : List (Action × Answer)) (s : DataLists)
    (contents : ℕ → List SlicePtr) : Prop where
  queue : ∀ i, pushed i tr = popped i tr ++ (contents i).map (s.heap.payload layout)
  links : ∀ i x y, [x, y] <:+: contents i → WrittenFor i ⟨x, y⟩ tr
  alive : ∀ before i d o after, tr = before ++ (.pushBack i d, o) :: after → d.len ≠ 0 →
    (∀ e ∈ after, e.1 ≠ .drop d ∧ e.1 ≠ .intoBytes d) → s.heap.Live d

/-- What a list holds is not freed by the program. -/
theorem Holds.not_released (h : Holds layout s contents owner) {a : Action} {i : ℕ} {p : SlicePtr}
    (hp : p ∈ contents i) (hstep : s.step layout a = .ok (o, s')) :
    a ≠ .drop p ∧ a ≠ .intoBytes p := by
  have hno : ∀ f, s.withData p f ≠ .ok (o, s') := by
    intro f hdata
    obtain ⟨-, -, ⟨hlen, -⟩ | ⟨hheld, -⟩⟩ := h.withData hdata
    · exact (h.owned.live_of_listed hp).1 hlen
    · exact h.owned.not_listed hheld i hp
  constructor
  · rintro rfl
    exact hno _ hstep
  · rintro rfl
    exact hno _ hstep

/-- The payloads of the lists stay. -/
theorem Holds.payloads (h : Holds layout s contents owner) {a : Action}
    (hstep : s.step layout a = .ok (o, s')) (i : ℕ) :
    (contents i).map (s'.heap.payload layout) = (contents i).map (s.heap.payload layout) := by
  refine List.map_congr_left fun p hp => ?_
  obtain ⟨hdrop, hinto⟩ := h.not_released hp hstep
  exact ((h.step hstep).kept p (h.owned.live_of_listed hp) hdrop hinto).2

variable {contents' : ℕ → List SlicePtr} {a : Action} {tr : List (Action × Answer)}

/-- A step keeps what was appended equal to what was taken and what the list holds. -/
theorem Recalls.queue_step (hr : Recalls layout tr s contents) (h : Holds layout s contents owner)
    (hstep : s.step layout a = .ok (o, s')) (hmoves : Moves layout s.heap contents (a, o) contents')
    (j : ℕ) :
    pushed j (tr ++ [(a, o)]) =
      popped j (tr ++ [(a, o)]) ++ (contents' j).map (s'.heap.payload layout) := by
  have hpayloads := h.payloads hstep j
  have hqueue := hr.queue j
  rw [pushed_append, popped_append]
  cases hmoves with
  | quiet hpush hpop =>
    obtain ⟨hnone, hnone'⟩ := quiet_none hpush hpop j
    rw [hnone, hnone', hpayloads, hqueue]
    simp
  | pushEmpty i d =>
    -- Empty data is not appended, and is not counted as appended.
    have hnone : (appended j (.pushBack i d, .pushed [] none)).toList.filter
        (fun payload => payload ≠ []) = [] := by
      simp only [appended]
      split_ifs <;> rfl
    rw [hnone, hpayloads, hqueue]
    simp [taken]
  | popEmpty hi =>
    rw [hpayloads, hqueue]
    simp [taken, appended]
  | push i hlive hne =>
    -- The new payload is the last of the list, and the last that was appended.
    have hd := ((h.step hstep).kept _ hlive nofun nofun).2
    by_cases hj : j = i
    · subst hj
      rw [Function.update_self, List.map_append, hpayloads, hqueue]
      simp [taken, appended, hne, hd]
    · rw [Function.update_of_ne hj, hpayloads, hqueue]
      simp [taken, appended, Ne.symm hj]
  | pop hi =>
    -- The first payload of the list is the one that is taken.
    rename_i i d xs
    by_cases hj : j = i
    · subst hj
      rw [hi, List.map_cons] at hqueue
      rw [hi, List.map_cons, List.map_cons, List.cons.injEq] at hpayloads
      rw [Function.update_self, hpayloads.2, hqueue]
      simp [taken, appended]
    · rw [Function.update_of_ne hj, hpayloads, hqueue]
      simp [taken, appended, Ne.symm hj]

/-- A step keeps every link between two allocations of a list written for it. -/
theorem Recalls.links_step (hr : Recalls layout tr s contents) (h : Holds layout s contents owner)
    (hmoves : Moves layout s.heap contents (a, o) contents') (j : ℕ) (x y : SlicePtr)
    (hxy : [x, y] <:+: contents' j) : WrittenFor j ⟨x, y⟩ (tr ++ [(a, o)]) := by
  cases hmoves with
  | quiet hpush hpop =>
    refine (hr.links j x y hxy).append ?_
    rintro ⟨i, payload, followed, he⟩
    exact hpop _ _ _ he
  | pushEmpty i d => exact (hr.links j x y hxy).append nofun
  | popEmpty hi => exact (hr.links j x y hxy).append nofun
  | push i hlive hne =>
    by_cases hj : j = i
    · subst hj
      rw [Function.update_self] at hxy
      rcases Lib.pair_infix_append hxy with hold | ⟨hlast, rfl⟩
      · exact (hr.links j x y hold).append nofun
      · -- The link that this very event wrote.
        rw [hlast]
        exact ⟨tr, _, [], rfl, nofun⟩
    · rw [Function.update_of_ne hj] at hxy
      exact (hr.links j x y hxy).append nofun
  | pop hi =>
    rename_i i d xs
    have hd : d ∈ contents i := by rw [hi]; exact List.mem_cons_self
    -- What stays in a list is not what was taken.
    have hother : x ≠ d → ¬Takes x
        (.popFront i, .popped (some (d, s.heap.payload layout d))
            (xs.head?.map fun link => ⟨d, link⟩)) := by
      rintro hne ⟨i', payload, followed, he⟩
      injection he with _ he
      injection he with he _
      exact hne (Prod.mk.inj (Option.some.inj he)).1.symm
    by_cases hj : j = i
    · subst hj
      rw [Function.update_self] at hxy
      have hnot : d ∉ xs := (List.nodup_cons.mp (hi ▸ h.owned.lists_nodup j)).1
      have hx : x ∈ xs := hxy.subset (by simp)
      refine (hr.links j x y ?_).append (hother fun hxd => hnot (hxd ▸ hx))
      rw [hi]
      exact hxy.trans (List.suffix_cons d xs).isInfix
    · rw [Function.update_of_ne hj] at hxy
      have hx : x ∈ contents j := hxy.subset (by simp)
      refine (hr.links j x y hxy).append (hother ?_)
      rintro rfl
      have howner := ((h.owned.listed j x).mp hx).symm.trans ((h.owned.listed i x).mp hd)
      exact hj (Lib.Owner.list.inj (Option.some.inj howner))

/-- A step loses nothing that was appended. -/
theorem Recalls.alive_step (hr : Recalls layout tr s contents) (h : Holds layout s contents owner)
    (hstep : s.step layout a = .ok (o, s')) (before : List (Action × Answer)) (i : ℕ) (d : SlicePtr)
    (o' : Answer) (after : List (Action × Answer))
    (htr : tr ++ [(a, o)] = before ++ (.pushBack i d, o') :: after) (hlen : d.len ≠ 0)
    (hafter : ∀ e ∈ after, e.1 ≠ .drop d ∧ e.1 ≠ .intoBytes d) : s'.heap.Live d := by
  rcases List.eq_nil_or_concat after with rfl | ⟨after', e, rfl⟩
  · -- The data that this event appends was the program's.
    obtain ⟨rfl, he⟩ := List.append_inj' htr rfl
    obtain ⟨rfl, rfl⟩ := Prod.mk.inj (List.cons.inj he).1
    obtain ⟨storage, -, ⟨hzero, -⟩ | ⟨hheld, -⟩⟩ := h.withData hstep
    · exact absurd hzero hlen
    · exact ((h.step hstep).kept d (h.owned.live_of_held hheld) nofun nofun).1
  · rw [List.concat_eq_append, ← List.cons_append, ← List.append_assoc] at htr
    obtain ⟨rfl, he⟩ := List.append_inj' htr rfl
    obtain rfl := (List.cons.inj he).1
    rw [List.concat_eq_append] at hafter
    have hlive := hr.alive before i d o' after' rfl hlen fun e he =>
      hafter e (List.mem_append_left _ he)
    obtain ⟨hdrop, hinto⟩ := hafter (a, o) (by simp)
    exact ((h.step hstep).kept d hlive hdrop hinto).1

/-- The invariants hold after every run. -/
theorem holds_of_run {tr : List (Action × Answer)} {s : DataLists}
    (hrun : (machine layout).Run tr s) :
    ∃ contents owner, Holds layout s contents owner ∧ Recalls layout tr s contents := by
  refine Lib.Machine.Run.invariant
    (I := fun tr s => ∃ contents owner, Holds layout s contents owner ∧
      Recalls layout tr s contents)
    ?_ ?_ hrun
  · refine ⟨_, _, holds_init, fun i => rfl, fun i x y hxy => ?_, fun before i d o after htr => ?_⟩
    · exact absurd (List.infix_nil.mp hxy) (List.cons_ne_nil _ _)
    · exact absurd htr.symm (by simp)
  · rintro tr s a o s' - ⟨contents, owner, h, hr⟩ hstep
    obtain ⟨contents', owner', h', hmoves⟩ := (h.step hstep).holds
    exact ⟨contents', owner', h', hr.queue_step h hstep hmoves, hr.links_step h hmoves,
      hr.alive_step h hstep⟩

/-- Lists of data are queues that keep payloads intact. After any run, everything allocated has one
owner; what was appended to a list and is not empty is what was taken from it, in order and
unchanged, and then what it holds; nothing that was appended is lost, unless the program freed it
after having taken it. A list is empty if it holds nothing, taking from it gives the first that it
holds, and a link that is followed then was written by appending to this list, in its last
allocation, which has stayed in the list since. No step is a fault, except that a payload may be
too long to be allocated. -/
theorem queues_intact (layout : Layout) {tr : List (Action × Answer)} {s : DataLists}
    (hrun : (machine layout).Run tr s) :
    ∃ (contents : ℕ → List SlicePtr) (owner : SlicePtr → Option (Lib.Owner ℕ)),
      Lib.Owned owner s.heap.Live s.held contents ∧
      (∀ i, pushed i tr = popped i tr ++ (contents i).map (s.heap.payload layout)) ∧
      (∀ before i d o after, tr = before ++ (.pushBack i d, o) :: after → d.len ≠ 0 →
        (∀ e ∈ after, e.1 ≠ .drop d ∧ e.1 ≠ .intoBytes d) → s.heap.Live d) ∧
      (∀ i, s.step layout (.isEmpty i) = .ok (.flag (decide (contents i = [])), s)) ∧
      (∀ i, ∃ followed s', s.step layout (.popFront i) =
          .ok (.popped ((contents i).head?.map fun d => (d, s.heap.payload layout d))
            followed, s') ∧
        ∀ link, followed = some link → WrittenFor i link tr) ∧
      ∀ a o s' fault, s.step layout a = .ok (o, s') → o = .fault fault →
        fault = .panicked .capacityOverflow := by
  obtain ⟨contents, owner, h, hr⟩ := holds_of_run hrun
  refine ⟨contents, owner, h.owned, hr.queue, hr.alive, fun i => ?_, fun i => ?_, ?_⟩
  · have hempty : (s.lists i).isEmpty = decide (contents i = []) := by
      rw [DataList.isEmpty, (h.chained i).head]
      cases contents i with
      | nil => rfl
      | cons d xs => rfl
    rw [step, hempty]
  · cases hi : contents i with
    | nil => exact ⟨none, s, h.popFront_nil hi, nofun⟩
    | cons d xs =>
      obtain ⟨list', -, hpop⟩ := h.popFront_cons hi
      refine ⟨_, _, hpop, fun link hlink => ?_⟩
      cases xs with
      | nil => cases hlink
      | cons e xs =>
        -- The link was written when `e` was appended behind `d`.
        cases hlink
        exact hr.links i d e (hi ▸ ⟨[], xs, rfl⟩)
  · intro a o s' fault hstep ho
    exact (h.step hstep).returns fault ho

/-- Pointers as two big-endian words. -/
def bigEndian : Layout where
  size := 16
  toBytes p := Lib.beBytes 8 p.addr.toNat ++ Lib.beBytes 8 p.len.toNat
  ofBytes b := ⟨UInt64.ofNat (Lib.ofBe (b.take 8)), UInt64.ofNat (Lib.ofBe (b.drop 8))⟩
  length_toBytes p := by rw [List.length_append, Lib.length_beBytes, Lib.length_beBytes]
  ofBytes_toBytes p := by
    have haddr : p.addr.toNat < 256^8 := p.addr.toNat_lt
    have hlen : p.len.toNat < 256^8 := p.len.toNat_lt
    rw [List.take_left' (Lib.length_beBytes 8 _), List.drop_left' (Lib.length_beBytes 8 _),
      Lib.ofBe_beBytes, Lib.ofBe_beBytes, Nat.mod_eq_of_lt haddr, Nat.mod_eq_of_lt hlen,
      UInt64.ofNat_toNat, UInt64.ofNat_toNat]

/-- A run: two payloads are appended, the first one is taken and appended again, and an empty one is
dropped. -/
def requeued : List (Action × Answer) :=
  let first : SlicePtr := ⟨64, 17⟩
  let second : SlicePtr := ⟨128, 18⟩
  [(.new 64 [1], .data first), (.new 128 [2, 3], .data second),
    (.pushBack 0 first, .pushed [1] none),
    (.pushBack 0 second, .pushed [2, 3] (some ⟨first, second⟩)),
    (.popFront 0, .popped (some (first, [1])) (some ⟨first, second⟩)),
    (.pushBack 0 first, .pushed [1] (some ⟨second, first⟩)),
    (.pushBack 0 emptySlice, .pushed [] none)]

/-- After this run the list holds the second payload, and then the first. -/
theorem queues_intact_requeued :
    ∃ s contents owner, (machine bigEndian).Run requeued s ∧
      (contents 0).map (s.heap.payload bigEndian) = [[2, 3], [1]] ∧
      Lib.Owned owner s.heap.Live s.held contents := by
  have hrun := Lib.Machine.Run.init (M := machine bigEndian)
    |>.step (a := .new 64 [1]) (by with_unfolding_all rfl)
    |>.step (a := .new 128 [2, 3]) (by with_unfolding_all rfl)
    |>.step (a := .pushBack 0 ⟨64, 17⟩) (by with_unfolding_all rfl)
    |>.step (a := .pushBack 0 ⟨128, 18⟩) (by with_unfolding_all rfl)
    |>.step (a := .popFront 0) (by with_unfolding_all rfl)
    |>.step (a := .pushBack 0 ⟨64, 17⟩) (by with_unfolding_all rfl)
    |>.step (a := .pushBack 0 emptySlice) (by with_unfolding_all rfl)
  replace hrun : ∃ s, (machine bigEndian).Run requeued s := by with_unfolding_all exact ⟨_, hrun⟩
  obtain ⟨s, hrun⟩ := hrun
  obtain ⟨contents, owner, howned, hqueue, -⟩ := queues_intact bigEndian hrun
  have hrest : [[1], [2, 3], [1]] = [[1]] ++ (contents 0).map (s.heap.payload bigEndian) := hqueue 0
  exact ⟨s, contents, owner, hrun, (List.cons.inj hrest).2.symm, howned⟩

end DataLists

end Rammux
