import Rammux.Basic
import Rammux.Lib.Linked

/-!
# Intrusive lists

`PinList` (`src/pin_list.rs`) is the doubly linked list behind the turn queue. The links are in the
elements, which any number of lists share; a list holds a strong reference to each element that is
linked into it, and an element records the ID of its list. `Memory` is what the lists share, and a
panic keeps the writes made before it.

`Holds` says which sequence a list is, and `Moved` what a call of a list does to the memory. Each
operation has a lemma with both: `pushBack_holds`, `remove_holds`, `popFront_holds`, `drop_holds`.
-/

namespace Rammux

/-- The neighbours of an element. -/
@[ext]
structure Links (E : Type) where
  prev : Option E
  next : Option E
  deriving DecidableEq, Repr

/-- The node of an element: the ID of its list, or zero, and its links. -/
@[ext]
structure Node (E : Type) where
  owner : ℕ
  links : Links E
  deriving DecidableEq, Repr

/-- A node that is not linked. -/
def Node.new {E : Type} : Node E := ⟨0, ⟨none, none⟩⟩

/-- What the lists share: the nodes of the elements, and how many strong references to each element
the lists hold. -/
structure Memory (E : Type) where
  nodes : E → Node E
  strong : E → ℕ

/-- An intrusive list. The elements of a list are at different addresses, so that their number never
overflows. -/
structure PinList (E : Type) where
  id : ℕ
  head : Option E
  tail : Option E
  len : ℕ
  deriving DecidableEq, Repr

variable {E : Type} [DecidableEq E]

/-! ## The shared memory -/

namespace Memory

def setLinks (m : Memory E) (e : E) (links : Links E) : Memory E :=
  { m with nodes := Function.update m.nodes e { m.nodes e with links } }

def setNext (m : Memory E) (e : E) (next : Option E) : Memory E :=
  m.setLinks e { (m.nodes e).links with next }

def setPrev (m : Memory E) (e : E) (prev : Option E) : Memory E :=
  m.setLinks e { (m.nodes e).links with prev }

def setOwner (m : Memory E) (e : E) (owner : ℕ) : Memory E :=
  { m with nodes := Function.update m.nodes e { m.nodes e with owner } }

def setStrong (m : Memory E) (e : E) (count : ℕ) : Memory E :=
  { m with strong := Function.update m.strong e count }

/-- The next pointer of an element. -/
def next (m : Memory E) (e : E) : Option E := (m.nodes e).links.next

/-- The previous pointer of an element. -/
def prev (m : Memory E) (e : E) : Option E := (m.nodes e).links.prev

/-- The list that an element is in. -/
def owner (m : Memory E) (e : E) : ℕ := (m.nodes e).owner

section Writes

variable (m : Memory E) (e y : E) (links : Links E) (p : Option E) (n : ℕ)

/-- Setting the links of an element sets where it points to next. -/
@[simp] theorem next_setLinks :
    (m.setLinks e links).next y = if y = e then links.next else m.next y := by
  unfold next setLinks
  by_cases h : y = e
  · simp [h]
  · simp [h]

/-- Setting the links of an element sets where it points back to. -/
@[simp] theorem prev_setLinks :
    (m.setLinks e links).prev y = if y = e then links.prev else m.prev y := by
  unfold prev setLinks
  by_cases h : y = e
  · simp [h]
  · simp [h]

/-- Setting the links of an element keeps the owners. -/
@[simp] theorem owner_setLinks : (m.setLinks e links).owner y = m.owner y := by
  unfold owner setLinks
  by_cases h : y = e
  · simp [h]
  · simp [h]

/-- Setting the links of an element keeps the reference counts. -/
@[simp] theorem strong_setLinks : (m.setLinks e links).strong = m.strong := rfl

/-- Setting the next pointer of an element sets no other one. -/
@[simp] theorem next_setNext : (m.setNext e p).next y = if y = e then p else m.next y :=
  next_setLinks m e y _

/-- Setting a next pointer keeps the pointers back. -/
@[simp] theorem prev_setNext : (m.setNext e p).prev y = m.prev y := by
  rw [setNext, prev_setLinks]
  split_ifs with h
  · rw [h]
    rfl
  · rfl

/-- Setting a next pointer keeps the owners. -/
@[simp] theorem owner_setNext : (m.setNext e p).owner y = m.owner y := owner_setLinks m e y _

/-- Setting a next pointer keeps the reference counts. -/
@[simp] theorem strong_setNext : (m.setNext e p).strong = m.strong := rfl

/-- Setting a pointer back keeps the next pointers. -/
@[simp] theorem next_setPrev : (m.setPrev e p).next y = m.next y := by
  rw [setPrev, next_setLinks]
  split_ifs with h
  · rw [h]
    rfl
  · rfl

/-- Setting the pointer back of an element sets no other one. -/
@[simp] theorem prev_setPrev : (m.setPrev e p).prev y = if y = e then p else m.prev y :=
  prev_setLinks m e y _

/-- Setting a pointer back keeps the owners. -/
@[simp] theorem owner_setPrev : (m.setPrev e p).owner y = m.owner y := owner_setLinks m e y _

/-- Setting a pointer back keeps the reference counts. -/
@[simp] theorem strong_setPrev : (m.setPrev e p).strong = m.strong := rfl

/-- Setting an owner keeps the next pointers. -/
@[simp] theorem next_setOwner : (m.setOwner e n).next y = m.next y := by
  unfold next setOwner
  by_cases h : y = e
  · simp [h]
  · simp [h]

/-- Setting an owner keeps the pointers back. -/
@[simp] theorem prev_setOwner : (m.setOwner e n).prev y = m.prev y := by
  unfold prev setOwner
  by_cases h : y = e
  · simp [h]
  · simp [h]

/-- Setting the owner of an element sets no other one. -/
@[simp] theorem owner_setOwner : (m.setOwner e n).owner y = if y = e then n else m.owner y := by
  unfold owner setOwner
  by_cases h : y = e
  · simp [h]
  · simp [h]

/-- Setting an owner keeps the reference counts. -/
@[simp] theorem strong_setOwner : (m.setOwner e n).strong = m.strong := rfl

/-- Setting a reference count keeps the next pointers. -/
@[simp] theorem next_setStrong : (m.setStrong e n).next y = m.next y := rfl

/-- Setting a reference count keeps the pointers back. -/
@[simp] theorem prev_setStrong : (m.setStrong e n).prev y = m.prev y := rfl

/-- Setting a reference count keeps the owners. -/
@[simp] theorem owner_setStrong : (m.setStrong e n).owner y = m.owner y := rfl

/-- Setting the reference count of an element sets no other one. -/
@[simp] theorem strong_setStrong :
    (m.setStrong e n).strong y = if y = e then n else m.strong y :=
  Function.update_apply m.strong e n y

end Writes

end Memory

/-! ## The operations -/

namespace PinList

/-- An empty list. -/
def new (id : ℕ) : PinList E := ⟨id, none, none, 0⟩

/-- `PinList::front` -/
def front (self : PinList E) : Option E := self.head

/-- `PinList::contains` -/
def contains (self : PinList E) (m : Memory E) (e : E) : Bool := m.owner e = self.id

/-- `PinList::push_back`: takes the element over if it is in no list, and links it behind the
tail. -/
def pushBack (self : PinList E) (m : Memory E) (e : E) :
    Except Panic Bool × PinList E × Memory E :=
  -- The compare-exchange of the owner.
  if m.owner e ≠ 0 then
    if m.owner e = self.id then (.ok false, self, m) else (.error .anotherList, self, m)
  else
    let m := m.setOwner e self.id
    let m := m.setStrong e (m.strong e + 1)
    let m := m.setLinks e ⟨self.tail, none⟩
    let (self, m) := match self.tail with
      | some tail => (self, m.setNext tail (some e))
      | none => ({ self with head := some e }, m)
    (.ok true, { self with tail := some e, len := self.len + 1 }, m)

/-- Joins the neighbours of an element that has been taken out, see `unlink`. -/
def join (self : PinList E) (m : Memory E) (links : Links E) : PinList E × Memory E :=
  let (self, m) := match links.prev with
    | some prev => (self, m.setNext prev links.next)
    | none => ({ self with head := links.next }, m)
  match links.next with
  | some next => (self, m.setPrev next links.prev)
  | none => ({ self with tail := links.prev }, m)

/-- `PinList::unlink`: takes the element out and gives back the list's strong reference to it. To
give back a reference that no list holds would be a double free. -/
def unlink (self : PinList E) (m : Memory E) (ptr : E) : Except Panic E × PinList E × Memory E :=
  let links := (m.nodes ptr).links
  let (self, m) := self.join (m.setLinks ptr ⟨none, none⟩) links
  match u64Sub self.len 1 with
  | .error panic => (.error panic, self, m)
  | .ok len =>
    let self := { self with len }
    let m := m.setOwner ptr 0
    match u64Sub (m.strong ptr) 1 with
    | .error panic => (.error panic, self, m)
    | .ok count => (.ok ptr, self, m.setStrong ptr count)

/-- `PinList::remove`: the pointer to unlink is the one that the neighbour of the element, or the
list, holds. -/
def remove (self : PinList E) (m : Memory E) (e : E) : Except Panic Bool × PinList E × Memory E :=
  if self.contains m e then
    let ptr := match m.prev e with
      | some prev => m.next prev
      | none => self.head
    match ptr with
    | none => (.error .unreachableElement, self, m)
    | some ptr =>
      let (result, self, m) := self.unlink m ptr
      (result.map fun _ => true, self, m)
  else (.ok false, self, m)

/-- `PinList::pop_front` -/
def popFront (self : PinList E) (m : Memory E) : Except Panic (Option E) × PinList E × Memory E :=
  match self.head with
  | none => (.ok none, self, m)
  | some head =>
    let (result, self, m) := self.unlink m head
    (result.map some, self, m)

/-- `PinList::drop`: pops until the list is empty, at most so many times. `none` means that the loop
goes on. -/
def drop (self : PinList E) (m : Memory E) : ℕ → Option (Except Panic Unit × Memory E)
  | 0 => none
  | fuel + 1 =>
    match self.popFront m with
    | (.error panic, _, m) => some (.error panic, m)
    | (.ok none, _, m) => some (.ok (), m)
    | (.ok (some _), self, m) => self.drop m fuel

/-- Where an iterator over a list stands. -/
structure Iter (E : Type) where
  next : Option E

/-- `PinList::iter` -/
def iter (self : PinList E) : Iter E := ⟨self.head⟩

/-- `Iter::next` -/
def Iter.step (it : Iter E) (m : Memory E) : Option (E × Iter E) :=
  it.next.map fun ptr => (ptr, ⟨m.next ptr⟩)

/-- The iterator yields exactly these elements. -/
def Iter.Yields (it : Iter E) (m : Memory E) : List E → Prop
  | [] => it.step m = none
  | e :: es => ∃ rest, it.step m = some (e, rest) ∧ rest.Yields m es

/-! ## What they do to a linked sequence -/

/-- The list is this sequence in memory. -/
structure Holds (list : PinList E) (m : Memory E) (id : ℕ) (xs : List E) : Prop where
  id : list.id = id
  len : list.len = xs.length
  linked : Lib.Linked list.head list.tail m.next m.prev xs

/-- What an operation of a list does to the shared memory, when the sequence of the list was `xs`
and is `xs'`: nothing to the elements that are in neither. -/
structure Moved (m m' : Memory E) (id : ℕ) (xs xs' : List E) : Prop where
  kept : ∀ e, e ∉ xs → e ∉ xs' → m'.nodes e = m.nodes e ∧ m'.strong e = m.strong e
  /-- A list takes elements only if they are in no list. -/
  came : ∀ e ∈ xs', e ∉ xs → m.owner e = 0
  linked : ∀ e ∈ xs', m'.owner e = id ∧ m'.strong e = 1
  unlinked : ∀ e ∈ xs, e ∉ xs' → m'.nodes e = .new ∧ m'.strong e = 0

omit [DecidableEq E] in
/-- A question changes nothing. -/
theorem Moved.refl {m : Memory E} {id : ℕ} {xs : List E}
    (h : ∀ e ∈ xs, m.owner e = id ∧ m.strong e = 1) : Moved m m id xs xs where
  kept _ _ _ := ⟨rfl, rfl⟩
  came _ h h' := absurd h h'
  linked := h
  unlinked _ h h' := absurd h h'

/-- Two operations that only take elements out. -/
theorem Moved.trans {m₀ m₁ m₂ : Memory E} {id : ℕ} {xs ys zs : List E} (h : Moved m₀ m₁ id xs ys)
    (h' : Moved m₁ m₂ id ys zs) (hys : ∀ e ∈ ys, e ∈ xs) (hzs : ∀ e ∈ zs, e ∈ ys) :
    Moved m₀ m₂ id xs zs where
  kept e hx hz := by
    have hy : e ∉ ys := fun hy => hx (hys e hy)
    have h₁ := h.kept e hx hy
    have h₂ := h'.kept e hy hz
    exact ⟨h₂.1.trans h₁.1, h₂.2.trans h₁.2⟩
  came e hz hx := absurd (hys e (hzs e hz)) hx
  linked := h'.linked
  unlinked e hx hz := by
    by_cases hy : e ∈ ys
    · exact h'.unlinked e hy hz
    · have h₂ := h'.kept e hy hz
      rw [h₂.1, h₂.2]
      exact h.unlinked e hx hy

variable {self : PinList E} {m : Memory E} {id : ℕ} {xs : List E} {e : E}

/-- What `push_back` writes. -/
theorem pushBack_free (self : PinList E) (m : Memory E) (e : E) (h : m.owner e = 0) :
    ∃ self' m', self.pushBack m e = (.ok true, self', m') ∧ self'.id = self.id ∧
      self'.len = self.len + 1 ∧ self'.tail = some e ∧
      self'.head = (if self.tail = none then some e else self.head) ∧
      (∀ y, m'.next y = if self.tail = some y then some e else if y = e then none else m.next y) ∧
      (∀ y, m'.prev y = if y = e then self.tail else m.prev y) ∧
      (∀ y, m'.owner y = if y = e then self.id else m.owner y) ∧
      (∀ y, m'.strong y = if y = e then m.strong e + 1 else m.strong y) := by
  obtain ⟨i, head, tail, len⟩ := self
  refine ⟨_, _, by rw [pushBack, if_neg (not_not.mpr h)], ?_⟩
  cases tail with
  | none => simp
  | some t => simp [eq_comm]

/-- What `unlink` writes when it joins the neighbours. -/
theorem join_writes (self : PinList E) (m : Memory E) (links : Links E) :
    (self.join m links).1 =
        { self with
          head := if links.prev = none then links.next else self.head
          tail := if links.next = none then links.prev else self.tail } ∧
      (∀ y, (self.join m links).2.next y =
        if links.prev = some y then links.next else m.next y) ∧
      (∀ y, (self.join m links).2.prev y =
        if links.next = some y then links.prev else m.prev y) ∧
      (∀ y, (self.join m links).2.owner y = m.owner y) ∧
      (self.join m links).2.strong = m.strong := by
  obtain ⟨prev, next⟩ := links
  cases prev with
  | none =>
    cases next with
    | none => simp [join]
    | some n => simp [join, eq_comm]
  | some p =>
    cases next with
    | none => simp [join, eq_comm]
    | some n => simp [join, eq_comm]

/-- `push_back` appends an element that is in no list. -/
theorem pushBack_holds (h : self.Holds m id xs)
    (hlinked : ∀ e ∈ xs, m.owner e = id ∧ m.strong e = 1)
    (hid : id ≠ 0) (hfree : m.nodes e = .new) (hstrong : m.strong e = 0) :
    ∃ self' m', self.pushBack m e = (.ok true, self', m') ∧ self'.Holds m' id (xs ++ [e]) ∧
      Moved m m' id xs (xs ++ [e]) := by
  have howner : m.owner e = 0 := by rw [Memory.owner, hfree]; rfl
  have he : e ∉ xs := fun hmem => hid ((hlinked e hmem).1.symm.trans howner)
  obtain ⟨self', m', hpush, hid', hlen, htail, hhead, hnext, hprev, hown, hstr⟩ :=
    pushBack_free self m e howner
  have hne : ∀ y ∈ xs, y ≠ e := fun y hy hye => he (hye ▸ hy)
  have hnil : self.tail = none ↔ xs = [] := by rw [h.linked.tail, List.getLast?_eq_none_iff]
  -- `e` is not in the list, so it is not the tail which is written to.
  have htailne : self.tail ≠ some e := by
    rw [h.linked.tail]
    exact fun hlast => he (List.mem_of_getLast? hlast)
  refine ⟨self', m', hpush, ⟨hid'.trans h.id, by simp [hlen, h.len], ?_⟩, ?_⟩
  · rw [htail]
    refine h.linked.push he ?_ ?_ (fun t ht => ?_) (fun y hy hty => ?_) ?_ fun y hy => ?_
    · simp only [hhead, hnil]
    · rw [hnext, if_neg htailne, if_pos rfl]
    · rw [hnext, if_pos ht]
    · rw [hnext, if_neg hty, if_neg (hne y hy)]
    · rw [hprev, if_pos rfl]
    · rw [hprev, if_neg (hne y hy)]
  · -- Nothing but `e` and the old tail was written to.
    refine ⟨fun y hy hy' => ?_, fun y hy hy' => ?_, fun y hy => ?_, fun y hy hy' => ?_⟩
    · have hye : y ≠ e := fun hye => hy' (by simp [hye])
      have hty : self.tail ≠ some y := by
        rw [h.linked.tail]
        exact fun hlast => hy (List.mem_of_getLast? hlast)
      refine ⟨Node.ext ?_ (Links.ext ?_ ?_), ?_⟩
      · exact (hown y).trans (if_neg hye)
      · exact (hprev y).trans (if_neg hye)
      · exact (hnext y).trans ((if_neg hty).trans (if_neg hye))
      · rw [hstr, if_neg hye]
    · obtain rfl : y = e := by simpa [hy'] using hy
      exact howner
    · rw [hown, hstr]
      by_cases hye : y = e
      · rw [if_pos hye, if_pos hye, hstrong]
        exact ⟨h.id, rfl⟩
      · rw [if_neg hye, if_neg hye]
        exact hlinked y (by simpa [hye] using hy)
    · exact absurd (List.mem_append_left _ hy) hy'

/-- What `unlink` writes. -/
theorem unlink_writes (self : PinList E) (m : Memory E) (e : E) (hlen : 1 ≤ self.len)
    (hcount : 1 ≤ m.strong e) :
    ∃ self' m', self.unlink m e = (.ok e, self', m') ∧ self'.id = self.id ∧
      self'.len = self.len - 1 ∧
      self'.head = (if m.prev e = none then m.next e else self.head) ∧
      self'.tail = (if m.next e = none then m.prev e else self.tail) ∧
      (∀ y, m'.next y =
        if m.prev e = some y then m.next e else if y = e then none else m.next y) ∧
      (∀ y, m'.prev y =
        if m.next e = some y then m.prev e else if y = e then none else m.prev y) ∧
      (∀ y, m'.owner y = if y = e then 0 else m.owner y) ∧
      (∀ y, m'.strong y = if y = e then m.strong e - 1 else m.strong y) := by
  obtain ⟨hself, hnext, hprev, hown, hstr⟩ :=
    join_writes self (m.setLinks e ⟨none, none⟩) (m.nodes e).links
  obtain ⟨self₁, m₁, hjoin⟩ : ∃ self₁ m₁,
      self.join (m.setLinks e ⟨none, none⟩) (m.nodes e).links = (self₁, m₁) := ⟨_, _, rfl⟩
  rw [hjoin] at hself hnext hprev hown hstr
  -- Neither counter underflows: the list has an element, and the element a reference.
  have hlen₁ : u64Sub self₁.len 1 = .ok (self.len - 1) := by
    have hkept : self₁.len = self.len := by rw [show self₁ = _ from hself]
    exact u64Sub_eq_ok.mpr ⟨hkept.symm ▸ hlen, by rw [hkept]⟩
  have hcount₁ : u64Sub ((m₁.setOwner e 0).strong e) 1 = .ok (m.strong e - 1) := by
    have hkept : m₁.strong = m.strong := hstr
    rw [Memory.strong_setOwner, hkept]
    exact u64Sub_eq_ok.mpr ⟨hcount, rfl⟩
  have hunlink : self.unlink m e = (.ok e, { self₁ with len := self.len - 1 },
      (m₁.setOwner e 0).setStrong e (m.strong e - 1)) := by
    simp only [unlink, hjoin, hlen₁, hcount₁]
  refine ⟨_, _, hunlink, ?_⟩
  rw [show self₁ = _ from hself]
  refine ⟨rfl, rfl, rfl, rfl, fun y => ?_, fun y => ?_, fun y => ?_, fun y => ?_⟩
  · rw [Memory.next_setStrong, Memory.next_setOwner, hnext, Memory.next_setLinks]
    rfl
  · rw [Memory.prev_setStrong, Memory.prev_setOwner, hprev, Memory.prev_setLinks]
    rfl
  · rw [Memory.owner_setStrong, Memory.owner_setOwner, hown, Memory.owner_setLinks]
  · rw [Memory.strong_setStrong, Memory.strong_setOwner, hstr, Memory.strong_setLinks]

/-- `unlink` takes an element out of the middle, and the reference with it. -/
theorem unlink_holds {a b : List E} (h : self.Holds m id (a ++ e :: b))
    (hlinked : ∀ y ∈ a ++ e :: b, m.owner y = id ∧ m.strong y = 1) :
    ∃ self' m', self.unlink m e = (.ok e, self', m') ∧ self'.Holds m' id (a ++ b) ∧
      Moved m m' id (a ++ e :: b) (a ++ b) := by
  have he : e ∉ a ++ b := (List.nodup_cons.mp (List.nodup_middle.mp h.linked.nodup)).1
  have hne : ∀ y ∈ a ++ b, y ≠ e := fun y hy hye => he (hye ▸ hy)
  have hmem : ∀ {y}, y ∈ a ++ e :: b ↔ y = e ∨ y ∈ a ++ b := by
    intro y
    rw [List.perm_middle.mem_iff, List.mem_cons]
  have hlen : self.len = (a ++ b).length + 1 := by rw [h.len, List.perm_middle.length_eq]; rfl
  have hcount : m.strong e = 1 := (hlinked e (by simp)).2
  obtain ⟨self', m', hunlink, hid, hlen', hhead, htail, hnext, hprev, hown, hstr⟩ :=
    unlink_writes self m e (by omega) hcount.ge
  -- The neighbours of `e` are those that its links name.
  rw [h.linked.prev a e b rfl, h.linked.next a e b rfl] at hhead htail hnext hprev
  simp only [List.getLast?_eq_none_iff, List.head?_eq_none_iff] at hhead htail
  refine ⟨self', m', hunlink, ⟨hid.trans h.id, by omega, ?_⟩, ?_⟩
  · refine h.linked.unlink hhead htail (fun p hp => ?_) (fun y hy hp => ?_) (fun n hn => ?_)
      fun y hy hn => ?_
    · rw [hnext, if_pos hp]
    · rw [hnext, if_neg hp, if_neg (hne y hy)]
    · rw [hprev, if_pos hn]
    · rw [hprev, if_neg hn, if_neg (hne y hy)]
  · -- Nothing but `e` and its neighbours was written to.
    have hlast : ∀ y, y ∉ a ++ b → a.getLast? ≠ some y := fun y hy hlast =>
      hy (List.mem_append_left _ (List.mem_of_getLast? hlast))
    have hfirst : ∀ y, y ∉ a ++ b → b.head? ≠ some y := fun y hy hfirst =>
      hy (List.mem_append_right _ (List.mem_of_head? hfirst))
    refine ⟨fun y hy hy' => ?_, fun y hy hy' => ?_, fun y hy => ?_, fun y hy hy' => ?_⟩
    · have hye : y ≠ e := fun hye => hy (by simp [hye])
      refine ⟨Node.ext ?_ (Links.ext ?_ ?_), ?_⟩
      · exact (hown y).trans (if_neg hye)
      · exact (hprev y).trans ((if_neg (hfirst y hy')).trans (if_neg hye))
      · exact (hnext y).trans ((if_neg (hlast y hy')).trans (if_neg hye))
      · rw [hstr, if_neg hye]
    · exact absurd (hmem.mpr (.inr hy)) hy'
    · rw [hown, hstr, if_neg (hne y hy), if_neg (hne y hy)]
      exact hlinked y (hmem.mpr (.inr hy))
    · -- `e` is as new, and its reference is with the caller.
      obtain rfl : y = e := (hmem.mp hy).resolve_right hy'
      refine ⟨Node.ext ?_ (Links.ext ?_ ?_), ?_⟩
      · exact (hown y).trans (if_pos rfl)
      · exact (hprev y).trans ((if_neg (hfirst y hy')).trans (if_pos rfl))
      · exact (hnext y).trans ((if_neg (hlast y hy')).trans (if_pos rfl))
      · rw [hstr, if_pos rfl, hcount]

/-- `remove` finds the element through its neighbour. -/
theorem remove_holds {a b : List E} (h : self.Holds m id (a ++ e :: b))
    (hlinked : ∀ y ∈ a ++ e :: b, m.owner y = id ∧ m.strong y = 1) :
    ∃ self' m', self.remove m e = (.ok true, self', m') ∧ self'.Holds m' id (a ++ b) ∧
      Moved m m' id (a ++ e :: b) (a ++ b) := by
  obtain ⟨self', m', hunlink, hholds, hmoved⟩ := unlink_holds h hlinked
  have hcontains : self.contains m e = true := by
    rw [contains, (hlinked e (by simp)).1, h.id]
    exact decide_eq_true rfl
  -- The element before this one points to it, or it is the first one.
  have hptr : (match m.prev e with
      | some prev => m.next prev
      | none => self.head) = some e := by
    rw [h.linked.prev a e b rfl]
    rcases List.eq_nil_or_concat a with rfl | ⟨a, p, rfl⟩
    · exact h.linked.head
    · rw [List.concat_eq_append, List.getLast?_append]
      exact h.linked.next a p (e :: b) (by simp)
  refine ⟨self', m', ?_, hholds, hmoved⟩
  rw [remove, if_pos hcontains]
  simp only [hptr, hunlink]
  rfl

/-- `pop_front` takes the first element. -/
theorem popFront_holds (h : self.Holds m id (e :: xs))
    (hlinked : ∀ y ∈ e :: xs, m.owner y = id ∧ m.strong y = 1) :
    ∃ self' m', self.popFront m = (.ok (some e), self', m') ∧ self'.Holds m' id xs ∧
      Moved m m' id (e :: xs) xs := by
  obtain ⟨self', m', hunlink, hholds, hmoved⟩ := unlink_holds (a := []) h hlinked
  refine ⟨self', m', ?_, hholds, hmoved⟩
  have hhead : self.head = some e := h.linked.head
  simp only [popFront, hhead, hunlink]
  rfl

/-- An empty list has nothing to pop. -/
theorem popFront_nil (h : self.Holds m id []) : self.popFront m = (.ok none, self, m) := by
  have hhead : self.head = none := h.linked.head
  simp only [popFront, hhead]

/-- `drop` ends, and takes every element out. -/
theorem drop_holds (h : self.Holds m id xs)
    (hlinked : ∀ y ∈ xs, m.owner y = id ∧ m.strong y = 1) {fuel : ℕ} (hfuel : xs.length < fuel) :
    ∃ m', self.drop m fuel = some (.ok (), m') ∧ Moved m m' id xs [] := by
  induction xs generalizing self m fuel with
  | nil =>
    obtain ⟨fuel, rfl⟩ := Nat.exists_eq_succ_of_ne_zero hfuel.ne'
    refine ⟨m, ?_, fun _ _ _ => ⟨rfl, rfl⟩, by simp, by simp, by simp⟩
    rw [drop, popFront_nil h]
  | cons e xs ih =>
    obtain ⟨fuel, rfl⟩ := Nat.exists_eq_succ_of_ne_zero (Nat.ne_zero_of_lt hfuel)
    obtain ⟨self₁, m₁, hpop, hholds, hmoved⟩ := popFront_holds h hlinked
    obtain ⟨m', hdrop, hmoved'⟩ := ih hholds hmoved.linked (Nat.lt_of_succ_lt_succ hfuel)
    refine ⟨m', ?_, hmoved.trans hmoved' (fun _ => List.mem_cons_of_mem e) (by simp)⟩
    rw [drop, hpop]
    exact hdrop

omit [DecidableEq E] in
/-- The iterator follows the next pointers. -/
theorem Iter.yields_of_follows {it : Iter E} (h : Lib.Follows m.next it.next xs) :
    it.Yields m xs := by
  induction xs generalizing it with
  | nil => exact Option.map_eq_none_iff.mpr h
  | cons e xs ih =>
    obtain ⟨hnext, hrest⟩ := h
    refine ⟨⟨m.next e⟩, ?_, ih hrest⟩
    rw [Iter.step, hnext]
    rfl

end PinList

end Rammux
