import Rammux.PinList

/-!
# Any number of lists over the same elements

`Sequences` is what intrusive lists are for: a family of disjoint sequences. `PinLists` are the
lists that share a memory. A run of the lists is a run of the sequences with the same answers, and
`Refines` says how the lists lie in memory after it.
-/

namespace Rammux

variable {E : Type} [DecidableEq E]

/-! ## The lists -/

/-- The lists that are alive, by their IDs, and the ID of the next one. -/
structure PinLists (E : Type) where
  nextId : ℕ
  memory : Memory E
  lists : ℕ → Option (PinList E)

namespace PinLists

/-- What can be asked of the lists: each call names the ID of its list. -/
inductive Action (E : Type) where
  | new
  | pushBack (list : ℕ) (e : E)
  | remove (list : ℕ) (e : E)
  | popFront (list : ℕ)
  | drop (list : ℕ)
  | contains (list : ℕ) (e : E)
  | len (list : ℕ)
  | front (list : ℕ)
  deriving DecidableEq, Repr

/-- What a call comes to. A call that diverges never returns. -/
inductive Answer (E : Type) where
  | panicked (panic : Panic)
  | diverged
  | created (id : ℕ)
  | flag (value : Bool)
  | element (value : Option E)
  | count (value : ℕ)
  | dropped
  deriving DecidableEq, Repr

/-- What a call comes to that returns a value or panics. -/
def answer {α : Type} (value : α → Answer E) : Except Panic α → Answer E
  | .error panic => .panicked panic
  | .ok a => value a

/-- No list has been created, and no element is linked. -/
def init : PinLists E := ⟨1, ⟨fun _ => .new, fun _ => 0⟩, fun _ => none⟩

/-- `PinList::new`: the counter of IDs wraps, and no list has the ID zero. -/
def create (s : PinLists E) : Answer E × PinLists E :=
  let id := s.nextId
  let s := { s with nextId := (id + 1) % 2^64 }
  if id = 0 then (.panicked .listIds, s)
  else (.created id, { s with lists := Function.update s.lists id (some (.new id)) })

/-- A call of a list. There is none of a list that was not created or that has been dropped. -/
def call (s : PinLists E) (id : ℕ)
    (f : PinList E → Memory E → Answer E × Option (PinList E) × Memory E) :
    Except Unit (Answer E × PinLists E) :=
  match s.lists id with
  | none => .error ()
  | some list =>
    let (a, list, memory) := f list s.memory
    .ok (a, { s with memory, lists := Function.update s.lists id list })

/-- One call. -/
def step (s : PinLists E) : Action E → Except Unit (Answer E × PinLists E)
  | .new => .ok s.create
  | .pushBack id e => s.call id fun list m =>
    let (result, list, m) := list.pushBack m e
    (answer .flag result, some list, m)
  | .remove id e => s.call id fun list m =>
    let (result, list, m) := list.remove m e
    (answer .flag result, some list, m)
  | .popFront id => s.call id fun list m =>
    let (result, list, m) := list.popFront m
    (answer .element result, some list, m)
  | .drop id => s.call id fun list m =>
    -- Each turn of the loop pops one element, and the last one finds none.
    match list.drop m (list.len + 1) with
    | none => (.diverged, some list, m)
    | some (result, m) => (answer (fun _ => .dropped) result, none, m)
  | .contains id e => s.call id fun list m => (.flag (list.contains m e), some list, m)
  | .len id => s.call id fun list m => (.count list.len, some list, m)
  | .front id => s.call id fun list m => (.element list.front, some list, m)

/-- The lists as a machine. -/
def machine (E : Type) [DecidableEq E] : Lib.Machine Unit (PinLists E) (Action E) (Answer E) :=
  ⟨init, step⟩

/-- The IDs of the lists that were created. -/
def created (tr : List (Action E × Answer E)) : List ℕ :=
  tr.filterMap fun event =>
    match event.2 with
    | .created id => some id
    | _ => none

end PinLists

/-! ## A family of disjoint sequences -/

/-- The sequences that exist, by their IDs, and the ID of the next one. -/
structure Sequences (E : Type) where
  nextId : ℕ
  seqs : ℕ → Option (List E)

namespace Sequences

open PinLists (Action Answer)

/-- An operation of a sequence. -/
def call (q : Sequences E) (id : ℕ) (f : List E → Answer E × Option (List E)) :
    Except Unit (Answer E × Sequences E) :=
  match q.seqs id with
  | none => .error ()
  | some xs =>
    let (a, xs) := f xs
    .ok (a, { q with seqs := Function.update q.seqs id xs })

open Classical in
/-- One operation: an element is appended to a sequence if it is in none. -/
noncomputable def step (q : Sequences E) : Action E → Except Unit (Answer E × Sequences E)
  | .new =>
    let q' := { q with nextId := (q.nextId + 1) % 2^64 }
    if q.nextId = 0 then .ok (.panicked .listIds, q')
    else .ok (.created q.nextId, { q' with seqs := Function.update q.seqs q.nextId (some []) })
  | .pushBack id e => q.call id fun xs =>
    if e ∈ xs then (.flag false, some xs)
    else if ∃ j ys, q.seqs j = some ys ∧ e ∈ ys then (.panicked .anotherList, some xs)
    else (.flag true, some (xs ++ [e]))
  | .remove id e => q.call id fun xs =>
    if e ∈ xs then (.flag true, some (xs.erase e)) else (.flag false, some xs)
  | .popFront id => q.call id fun xs => (.element xs.head?, some xs.tail)
  | .drop id => q.call id fun _ => (.dropped, none)
  | .contains id e => q.call id fun xs => (.flag (decide (e ∈ xs)), some xs)
  | .len id => q.call id fun xs => (.count xs.length, some xs)
  | .front id => q.call id fun xs => (.element xs.head?, some xs)

/-- The sequences as a machine. -/
noncomputable def machine (E : Type) [DecidableEq E] :
    Lib.Machine Unit (Sequences E) (Action E) (Answer E) :=
  ⟨⟨1, fun _ => none⟩, step⟩

variable {q q' : Sequences E}

/-- The elements of a sequence were in it before, or are pushed to it. -/
theorem mem_of_step {a : Action E} {o : Answer E} (hstep : q.step a = .ok (o, q')) {i : ℕ}
    {xs : List E} {e : E} (hxs : q'.seqs i = some xs) (he : e ∈ xs) :
    (∃ ys, q.seqs i = some ys ∧ e ∈ ys) ∨ a = .pushBack i e := by
  -- A call on one sequence changes that one only, so what it does to its elements is enough.
  have hcall {id : ℕ} {f : List E → Answer E × Option (List E)} (hcall : q.call id f = .ok (o, q'))
      (hf : ∀ ys zs, (f ys).2 = some zs → e ∈ zs → e ∈ ys ∨ a = .pushBack id e) :
      (∃ ys, q.seqs i = some ys ∧ e ∈ ys) ∨ a = .pushBack i e := by
    unfold call at hcall
    split at hcall
    · cases hcall
    · next ys hys =>
      cases hcall
      by_cases hid : i = id
      · subst hid
        have hself := (Function.update_self _ _ _).symm.trans hxs
        exact (hf ys xs hself he).imp_left fun he => ⟨ys, hys, he⟩
      · exact .inl ⟨xs, (Function.update_of_ne hid _ _).symm.trans hxs, he⟩
  cases a with
  | new =>
    simp only [step] at hstep
    split_ifs at hstep
    · -- The counter of IDs has wrapped around: nothing is created.
      cases hstep
      exact .inl ⟨xs, hxs, he⟩
    · cases hstep
      -- The new sequence is empty.
      by_cases hid : i = q.nextId
      · subst hid
        cases (Function.update_self _ _ _).symm.trans hxs
        cases he
      · exact .inl ⟨xs, (Function.update_of_ne hid _ _).symm.trans hxs, he⟩
  | pushBack id y =>
    simp only [step] at hstep
    refine hcall hstep fun ys zs hzs hmem => ?_
    split_ifs at hzs
    · -- The element is in the sequence already, and is not pushed again.
      cases hzs
      exact .inl hmem
    · cases hzs
      exact .inl hmem
    · cases hzs
      rcases List.mem_append.mp hmem with hmem | hmem
      · exact .inl hmem
      · rw [List.mem_singleton.mp hmem]
        exact .inr rfl
  | remove id y =>
    simp only [step] at hstep
    refine hcall hstep fun ys zs hzs hmem => ?_
    split_ifs at hzs
    · cases hzs
      exact .inl (List.mem_of_mem_erase hmem)
    · cases hzs
      exact .inl hmem
  | popFront id =>
    simp only [step] at hstep
    refine hcall hstep fun ys zs hzs hmem => ?_
    cases hzs
    exact .inl (List.mem_of_mem_tail hmem)
  | drop id =>
    simp only [step] at hstep
    refine hcall hstep fun ys zs hzs hmem => ?_
    cases hzs
  | contains | len | front =>
    simp only [step] at hstep
    refine hcall hstep fun ys zs hzs hmem => ?_
    cases hzs
    exact .inl hmem

/-- If elements are pushed only to the sequence that is their home, they are in no other. -/
theorem home_of_run {home : E → ℕ} {tr : List (Action E × Answer E)}
    (h : (machine E).Run tr q) (hpush : ∀ ev ∈ tr, ∀ i e, ev.1 = .pushBack i e → home e = i)
    {i : ℕ} {xs : List E} {e : E} (hxs : q.seqs i = some xs) (he : e ∈ xs) : home e = i := by
  have hreach : (machine E).Reaches (fun ev => ∀ i e, ev.1 = .pushBack i e → home e = i) q :=
    ⟨tr, h, hpush⟩
  refine hreach.invariant (I := fun q => ∀ i xs e, q.seqs i = some xs → e ∈ xs → home e = i)
    (fun i xs e hxs => ?_) (fun q a o q' _ ih hstep hok i xs e hxs he => ?_) i xs e hxs he
  · cases hxs
  · rcases mem_of_step hstep hxs he with ⟨ys, hys, he⟩ | rfl
    · exact ih i ys e hys he
    · exact hok i e rfl

end Sequences

/-! ## The lists are the sequences -/

namespace PinLists

/-- The lists, as they lie in memory, are the sequences. -/
structure Simulates (s : PinLists E) (q : Sequences E) : Prop where
  nextId : s.nextId = q.nextId
  lists : ∀ i l, s.lists i = some l → ∃ xs, q.seqs i = some xs ∧ l.Holds s.memory i xs
  gone : ∀ i, s.lists i = none → q.seqs i = none
  zero : q.seqs 0 = none
  owner : ∀ e i xs, q.seqs i = some xs → (s.memory.owner e = i ↔ e ∈ xs)
  /-- An element that is in a list is in a list that is alive. -/
  home : ∀ e, s.memory.owner e ≠ 0 → ∃ xs, q.seqs (s.memory.owner e) = some xs
  unlinked : ∀ e, s.memory.owner e = 0 → s.memory.nodes e = .new ∧ s.memory.strong e = 0
  linked : ∀ e, s.memory.owner e ≠ 0 → s.memory.strong e = 1

variable {s : PinLists E} {q : Sequences E} {i : ℕ} {l : PinList E} {xs : List E}

omit [DecidableEq E] in
/-- A list that exists has an ID other than zero. -/
theorem Simulates.ne_zero (h : Simulates s q) (hxs : q.seqs i = some xs) : i ≠ 0 := by
  rintro rfl
  rw [h.zero] at hxs
  cases hxs

omit [DecidableEq E] in
/-- The elements of a list know it, and it holds them. -/
theorem Simulates.member (h : Simulates s q) (hxs : q.seqs i = some xs) :
    ∀ e ∈ xs, s.memory.owner e = i ∧ s.memory.strong e = 1 := by
  intro e he
  have howner := (h.owner e i xs hxs).mpr he
  exact ⟨howner, h.linked e (howner ▸ h.ne_zero hxs)⟩

/-- A call of one list leaves the others as they are. -/
theorem Simulates.update (h : Simulates s q) (hxs : q.seqs i = some xs) {l' : Option (PinList E)}
    {xs' : Option (List E)} {m' : Memory E} (hmoved : PinList.Moved s.memory m' i xs (xs'.getD []))
    (hnew : ∀ k, l' = some k → ∃ ys, xs' = some ys ∧ k.Holds m' i ys)
    (hgone : l' = none → xs' = none) :
    Simulates { s with memory := m', lists := Function.update s.lists i l' }
      { q with seqs := Function.update q.seqs i xs' } := by
  have hi := h.ne_zero hxs
  -- An element of another list is in neither sequence, so nothing happens to it.
  have hother : ∀ {j ys e}, j ≠ i → q.seqs j = some ys → e ∈ ys → e ∉ xs ∧ e ∉ xs'.getD [] := by
    intro j ys e hj hys he
    have howner := (h.owner e j ys hys).mpr he
    have hnot : e ∉ xs := fun hmem => hj (howner.symm.trans ((h.owner e i xs hxs).mpr hmem))
    refine ⟨hnot, fun hmem => h.ne_zero hys ?_⟩
    rw [← howner]
    exact hmoved.came e hmem hnot
  -- Every element is in the list now, or was taken out of it, or is left alone.
  have hcases : ∀ e, (e ∈ xs'.getD [] ∧ m'.owner e = i ∧ m'.strong e = 1) ∨
      (e ∉ xs'.getD [] ∧ e ∈ xs ∧ m'.nodes e = .new ∧ m'.strong e = 0) ∨
      e ∉ xs'.getD [] ∧ e ∉ xs ∧ m'.nodes e = s.memory.nodes e ∧
        m'.strong e = s.memory.strong e := by
    intro e
    by_cases he' : e ∈ xs'.getD []
    · exact .inl ⟨he', hmoved.linked e he'⟩
    · by_cases he : e ∈ xs
      · exact .inr (.inl ⟨he', he, hmoved.unlinked e he he'⟩)
      · exact .inr (.inr ⟨he', he, hmoved.kept e he he'⟩)
  refine ⟨h.nextId, fun j k hk => ?_, fun j hj => ?_, ?_, fun e j ys hys => ?_, fun e he => ?_,
    fun e he => ?_, fun e he => ?_⟩
  · by_cases hj : j = i
    · subst hj
      simp only [Function.update_self] at hk ⊢
      exact hnew k hk
    · simp only [Function.update_of_ne hj] at hk ⊢
      obtain ⟨ys, hys, hholds⟩ := h.lists j k hk
      have hnode : ∀ e ∈ ys, m'.nodes e = s.memory.nodes e := fun e he =>
        (hmoved.kept e (hother hj hys he).1 (hother hj hys he).2).1
      exact ⟨ys, hys, hholds.id, hholds.len, hholds.linked.congr
        (fun e he => congrArg (·.links.next) (hnode e he))
        fun e he => congrArg (·.links.prev) (hnode e he)⟩
  · by_cases hji : j = i
    · subst hji
      simp only [Function.update_self] at hj ⊢
      exact hgone hj
    · simp only [Function.update_of_ne hji] at hj ⊢
      exact h.gone j hj
  · exact (Function.update_of_ne hi.symm _ _).trans h.zero
  · by_cases hj : j = i
    · subst hj
      obtain rfl : xs' = some ys := (Function.update_self j xs' q.seqs).symm.trans hys
      rcases hcases e with ⟨he, howner, -⟩ | ⟨he, -, hnode, -⟩ | ⟨he, hnot, hnode, -⟩
      · exact iff_of_true howner he
      · exact iff_of_false (fun howner => hi (howner.symm.trans (congrArg (·.owner) hnode))) he
      · refine iff_of_false (fun howner => hnot ((h.owner e j xs hxs).mp ?_)) he
        exact (congrArg (·.owner) hnode).symm.trans howner
    · replace hys : q.seqs j = some ys := (Function.update_of_ne hj _ _).symm.trans hys
      rcases hcases e with ⟨he, howner, -⟩ | ⟨-, he, hnode, -⟩ | ⟨-, -, hnode, -⟩
      · exact iff_of_false (fun h' => hj (h'.symm.trans howner)) fun hmem =>
          (hother hj hys hmem).2 he
      · refine iff_of_false (fun h' => h.ne_zero hys ?_) fun hmem => (hother hj hys hmem).1 he
        exact h'.symm.trans (congrArg (·.owner) hnode)
      · rw [← h.owner e j ys hys]
        exact iff_of_eq (congrArg (·.owner = j) hnode)
  · rcases hcases e with ⟨hmem, howner, -⟩ | ⟨-, -, hnode, -⟩ | ⟨-, hnot, hnode, -⟩
    · cases xs' with
      | none => cases hmem
      | some ys => exact ⟨ys, by simp only [howner, Function.update_self]⟩
    · exact absurd (congrArg (·.owner) hnode) he
    · have howner : m'.owner e = s.memory.owner e := congrArg (·.owner) hnode
      simp only [howner] at he ⊢
      obtain ⟨ys, hys⟩ := h.home e he
      have hei : s.memory.owner e ≠ i := fun hei => hnot ((h.owner e i xs hxs).mp hei)
      exact ⟨ys, (Function.update_of_ne hei _ _).trans hys⟩
  · rcases hcases e with ⟨-, howner, -⟩ | ⟨-, -, hfree⟩ | ⟨-, -, hnode, hstrong⟩
    · exact absurd (howner.symm.trans he) hi
    · exact hfree
    · simp only [hnode, hstrong]
      exact h.unlinked e ((congrArg (·.owner) hnode).symm.trans he)
  · rcases hcases e with ⟨-, -, hstrong⟩ | ⟨-, -, hnode, -⟩ | ⟨-, -, hnode, hstrong⟩
    · exact hstrong
    · exact absurd (congrArg (·.owner) hnode) he
    · simp only [hstrong]
      exact h.linked e fun hzero => he ((congrArg (·.owner) hnode).trans hzero)

/-- What a call does to a list and the memory is what the operation does to its sequence. -/
structure Matches (m : Memory E) (i : ℕ) (xs : List E)
    (call : Answer E × Option (PinList E) × Memory E) (op : Answer E × Option (List E)) : Prop where
  answer : op.1 = call.1
  moved : PinList.Moved m call.2.2 i xs (op.2.getD [])
  holds : ∀ k, call.2.1 = some k → ∃ ys, op.2 = some ys ∧ k.Holds call.2.2 i ys
  gone : call.2.1 = none → op.2 = none

omit [DecidableEq E] in
/-- A call that leaves a list. -/
theorem Matches.some {m m' : Memory E} {xs' : List E} (a : Answer E)
    (hmoved : PinList.Moved m m' i xs xs') (hholds : l.Holds m' i xs') :
    Matches m i xs (a, some l, m') (a, some xs') where
  answer := rfl
  moved := hmoved
  holds k hk := by
    obtain rfl : l = k := Option.some.inj hk
    exact ⟨xs', rfl, hholds⟩
  gone hk := by cases hk

/-- A call of a list simulates the operation of its sequence that it matches. -/
theorem Simulates.call (h : Simulates s q)
    {f : PinList E → Memory E → Answer E × Option (PinList E) × Memory E}
    {g : List E → Answer E × Option (List E)} {o : Answer E} {s' : PinLists E}
    (hfg : ∀ l xs, q.seqs i = some xs → l.Holds s.memory i xs →
      Matches s.memory i xs (f l s.memory) (g xs))
    (hcall : s.call i f = .ok (o, s')) : ∃ q', q.call i g = .ok (o, q') ∧ Simulates s' q' := by
  unfold PinLists.call at hcall
  split at hcall
  · cases hcall
  · rename_i l hl
    obtain ⟨xs, hxs, hholds⟩ := h.lists i l hl
    obtain ⟨rfl, rfl⟩ := Prod.mk.inj (Except.ok.inj hcall)
    have hmatch := hfg l xs hxs hholds
    refine ⟨_, ?_, h.update hxs hmatch.moved hmatch.holds hmatch.gone⟩
    simp only [Sequences.call, hxs]
    rw [← hmatch.answer]

/-! ### The operations, one by one -/

omit [DecidableEq E] in
/-- A question about a list. -/
theorem Simulates.ask (h : Simulates s q) (hxs : q.seqs i = some xs)
    (hholds : l.Holds s.memory i xs) (a : Answer E) :
    Matches s.memory i xs (a, some l, s.memory) (a, some xs) :=
  .some a (.refl (h.member hxs)) hholds

/-- A list contains the elements of its sequence. -/
theorem Simulates.contains (h : Simulates s q) (hxs : q.seqs i = some xs)
    (hholds : l.Holds s.memory i xs) (e : E) : l.contains s.memory e = decide (e ∈ xs) := by
  rw [PinList.contains, hholds.id]
  exact decide_eq_decide.mpr (h.owner e i xs hxs)

open Classical in
/-- `push_back` appends an element that is in no list, refuses one that is in this list, and panics
at one that is in another list. -/
theorem Simulates.pushBack (h : Simulates s q) (hxs : q.seqs i = some xs)
    (hholds : l.Holds s.memory i xs) (e : E) :
    Matches s.memory i xs
      (PinLists.answer .flag (l.pushBack s.memory e).1, some (l.pushBack s.memory e).2.1,
        (l.pushBack s.memory e).2.2)
      (if e ∈ xs then (.flag false, some xs)
        else if ∃ j ys, q.seqs j = some ys ∧ e ∈ ys then (.panicked .anotherList, some xs)
        else (.flag true, some (xs ++ [e]))) := by
  by_cases howner : s.memory.owner e = 0
  · -- The element is in no list.
    have hnowhere : ¬∃ j ys, q.seqs j = some ys ∧ e ∈ ys := by
      rintro ⟨j, ys, hys, he⟩
      exact h.ne_zero hys (((h.owner e j ys hys).mpr he).symm.trans howner)
    have he : e ∉ xs := fun he => hnowhere ⟨i, xs, hxs, he⟩
    obtain ⟨hfree, hstrong⟩ := h.unlinked e howner
    obtain ⟨l', m', hpush, hholds', hmoved⟩ :=
      PinList.pushBack_holds hholds (h.member hxs) (h.ne_zero hxs) hfree hstrong
    rw [hpush, if_neg he, if_neg hnowhere]
    exact .some _ hmoved hholds'
  · by_cases he : e ∈ xs
    · have hown : s.memory.owner e = l.id := hholds.id ▸ (h.member hxs e he).1
      have hpush : l.pushBack s.memory e = (.ok false, l, s.memory) := by
        rw [PinList.pushBack, if_pos howner, if_pos hown]
      rw [hpush, if_pos he]
      exact h.ask hxs hholds _
    · -- It is in another list.
      obtain ⟨ys, hys⟩ := h.home e howner
      have helse : ∃ j ys, q.seqs j = some ys ∧ e ∈ ys :=
        ⟨_, ys, hys, (h.owner e _ ys hys).mp rfl⟩
      have hown : s.memory.owner e ≠ l.id := fun hown =>
        he ((h.owner e i xs hxs).mp (hown.trans hholds.id))
      have hpush : l.pushBack s.memory e = (.error .anotherList, l, s.memory) := by
        rw [PinList.pushBack, if_pos howner, if_neg hown]
      rw [hpush, if_neg he, if_pos helse]
      exact h.ask hxs hholds _

/-- `remove` takes an element out of the list that it is in. -/
theorem Simulates.remove (h : Simulates s q) (hxs : q.seqs i = some xs)
    (hholds : l.Holds s.memory i xs) (e : E) :
    Matches s.memory i xs
      (PinLists.answer .flag (l.remove s.memory e).1, some (l.remove s.memory e).2.1,
        (l.remove s.memory e).2.2)
      (if e ∈ xs then (.flag true, some (xs.erase e)) else (.flag false, some xs)) := by
  by_cases he : e ∈ xs
  · obtain ⟨a, b, rfl⟩ := List.append_of_mem he
    obtain ⟨l', m', hremove, hholds', hmoved⟩ := PinList.remove_holds hholds (h.member hxs)
    have hnot : e ∉ a := fun hmem =>
      (List.nodup_append.mp hholds.linked.nodup).2.2 e hmem e (by simp) rfl
    rw [hremove, if_pos he, List.erase_append_right _ hnot, List.erase_cons_head]
    exact .some _ hmoved hholds'
  · have hcontains : ¬l.contains s.memory e = true := by
      rw [h.contains hxs hholds]
      exact fun hmem => he (of_decide_eq_true hmem)
    have hremove : l.remove s.memory e = (.ok false, l, s.memory) := by
      rw [PinList.remove, if_neg hcontains]
    rw [hremove, if_neg he]
    exact h.ask hxs hholds _

/-- `pop_front` takes the first element. -/
theorem Simulates.popFront (h : Simulates s q) (hxs : q.seqs i = some xs)
    (hholds : l.Holds s.memory i xs) :
    Matches s.memory i xs
      (PinLists.answer .element (l.popFront s.memory).1, some (l.popFront s.memory).2.1,
        (l.popFront s.memory).2.2)
      (.element xs.head?, some xs.tail) := by
  cases xs with
  | nil =>
    rw [PinList.popFront_nil hholds]
    exact h.ask hxs hholds _
  | cons e xs =>
    obtain ⟨l', m', hpop, hholds', hmoved⟩ := PinList.popFront_holds hholds (h.member hxs)
    rw [hpop]
    exact .some _ hmoved hholds'

/-- Dropping a list takes all of its elements out, and ends. -/
theorem Simulates.drop (h : Simulates s q) (hxs : q.seqs i = some xs)
    (hholds : l.Holds s.memory i xs) :
    Matches s.memory i xs
      (match l.drop s.memory (l.len + 1) with
        | none => (.diverged, some l, s.memory)
        | some (result, m) => (PinLists.answer (fun _ => .dropped) result, none, m))
      (.dropped, none) := by
  obtain ⟨m', hdrop, hmoved⟩ :=
    PinList.drop_holds hholds (h.member hxs) (show xs.length < l.len + 1 by rw [hholds.len]; omega)
  rw [hdrop]
  exact ⟨rfl, hmoved, fun _ hk => (Option.some_ne_none _ hk.symm).elim, fun _ => rfl⟩

omit [DecidableEq E] in
/-- A new list is empty, and its ID is nobody's. -/
theorem Simulates.create (h : Simulates s q) (hid : s.nextId ≠ 0)
    (hfresh : s.lists s.nextId = none) (next : ℕ) :
    Simulates
      { s with nextId := next, lists := Function.update s.lists s.nextId (some (.new s.nextId)) }
      { nextId := next, seqs := Function.update q.seqs s.nextId (some []) } where
  nextId := rfl
  lists j k hk := by
    by_cases hj : j = s.nextId
    · subst hj
      obtain rfl : PinList.new s.nextId = k :=
        Option.some.inj ((Function.update_self s.nextId _ s.lists).symm.trans hk)
      exact ⟨[], Function.update_self _ _ _, rfl, rfl, Lib.linked_nil _ _⟩
    · simp only [Function.update_of_ne hj] at hk ⊢
      exact h.lists j k hk
  gone j hk := by
    by_cases hj : j = s.nextId
    · subst hj
      simp only [Function.update_self] at hk
      cases hk
    · simp only [Function.update_of_ne hj] at hk ⊢
      exact h.gone j hk
  zero := (Function.update_of_ne hid.symm _ _).trans h.zero
  owner e j ys hys := by
    by_cases hj : j = s.nextId
    · subst hj
      simp only [Function.update_self, Option.some.injEq] at hys
      subst hys
      -- No element names the new list as its owner: its ID would be that of another list.
      refine iff_of_false (fun howner => ?_) (List.not_mem_nil)
      obtain ⟨zs, hzs⟩ := h.home e (fun hzero => hid (howner.symm.trans hzero))
      rw [show s.memory.owner e = _ from howner, h.gone _ hfresh] at hzs
      cases hzs
    · exact h.owner e j ys ((Function.update_of_ne hj _ _).symm.trans hys)
  home e he := by
    obtain ⟨ys, hys⟩ := h.home e he
    have hne : s.memory.owner e ≠ s.nextId := by
      intro howner
      rw [howner, h.gone _ hfresh] at hys
      cases hys
    exact ⟨ys, (Function.update_of_ne hne _ _).trans hys⟩
  unlinked := h.unlinked
  linked := h.linked

/-- One call simulates one operation, if a new list has an ID that no list has. -/
theorem Simulates.step (h : Simulates s q) {a : Action E} {o : Answer E} {s' : PinLists E}
    (hstep : s.step a = .ok (o, s')) (hfresh : ∀ id, o = .created id → s.lists id = none) :
    ∃ q', q.step a = .ok (o, q') ∧ Simulates s' q' := by
  cases a with
  | new =>
    simp only [PinLists.step, PinLists.create, Except.ok.injEq] at hstep
    simp only [Sequences.step, ← h.nextId]
    by_cases hid : s.nextId = 0
    · -- The counter has wrapped around: both panic, and both have counted on.
      rw [if_pos hid] at hstep ⊢
      obtain ⟨rfl, rfl⟩ := Prod.mk.inj hstep
      exact ⟨_, rfl, { h with nextId := rfl }⟩
    · rw [if_neg hid] at hstep ⊢
      obtain ⟨rfl, rfl⟩ := Prod.mk.inj hstep
      exact ⟨_, rfl, h.create hid (hfresh _ rfl) _⟩
  | pushBack id e =>
    simp only [PinLists.step, Sequences.step] at hstep ⊢
    exact h.call (fun _ _ hxs hl => h.pushBack hxs hl e) hstep
  | remove id e =>
    simp only [PinLists.step, Sequences.step] at hstep ⊢
    exact h.call (fun _ _ hxs hl => h.remove hxs hl e) hstep
  | popFront id =>
    simp only [PinLists.step, Sequences.step] at hstep ⊢
    exact h.call (fun _ _ hxs hl => h.popFront hxs hl) hstep
  | drop id =>
    simp only [PinLists.step, Sequences.step] at hstep ⊢
    exact h.call (fun _ _ hxs hl => h.drop hxs hl) hstep
  | contains id e =>
    -- The questions, which change nothing.
    simp only [PinLists.step, Sequences.step] at hstep ⊢
    refine h.call (fun l xs hxs hl => ?_) hstep
    rw [h.contains hxs hl]
    exact h.ask hxs hl _
  | len id =>
    simp only [PinLists.step, Sequences.step] at hstep ⊢
    refine h.call (fun l xs hxs hl => ?_) hstep
    rw [hl.len]
    exact h.ask hxs hl _
  | front id =>
    simp only [PinLists.step, Sequences.step] at hstep ⊢
    refine h.call (fun l xs hxs hl => ?_) hstep
    rw [PinList.front, hl.linked.head]
    exact h.ask hxs hl _

/-! ## Whole runs -/

/-- The lists that are alive after a call were alive before it, or the call created them. -/
theorem alive_of_step {a : Action E} {o : Answer E} {s' : PinLists E}
    (hstep : s.step a = .ok (o, s')) (hi : s'.lists i ≠ none) :
    s.lists i ≠ none ∨ o = .created i := by
  have hcall : ∀ {id f}, s.call id f = .ok (o, s') → s.lists i ≠ none := by
    intro id f hcall
    unfold PinLists.call at hcall
    split at hcall
    · cases hcall
    · rename_i l hl
      obtain ⟨-, rfl⟩ := Prod.mk.inj (Except.ok.inj hcall)
      by_cases hid : i = id
      · rw [hid, hl]
        exact Option.some_ne_none l
      · simpa only [Function.update_of_ne hid] using hi
  cases a with
  | new =>
    simp only [PinLists.step, PinLists.create, Except.ok.injEq] at hstep
    split_ifs at hstep
    · obtain ⟨-, rfl⟩ := Prod.mk.inj hstep
      exact .inl hi
    · obtain ⟨rfl, rfl⟩ := Prod.mk.inj hstep
      by_cases hid : i = s.nextId
      · exact .inr (by rw [hid])
      · exact .inl (by simpa only [Function.update_of_ne hid] using hi)
  | pushBack | remove | popFront | drop | contains | len | front =>
    simp only [PinLists.step] at hstep
    exact .inl (hcall hstep)

/-- How a list that is a sequence lies in memory. -/
structure Represents (m : Memory E) (list : PinList E) (xs : List E) : Prop where
  nodup : xs.Nodup
  /-- The next pointers, from the head, visit the elements in order, and so does the iterator. -/
  forward : Lib.Follows m.next list.head xs
  iter : list.iter.Yields m xs
  /-- The previous pointers, from the tail, visit them in reverse order. -/
  backward : Lib.Follows m.prev list.tail xs.reverse
  len : list.len = xs.length
  contains : ∀ e, list.contains m e = true ↔ e ∈ xs

/-- How lists that are a family of disjoint sequences lie in memory. -/
structure Refines (s : PinLists E) (q : Sequences E) : Prop where
  disjoint : ∀ i j xs ys e, q.seqs i = some xs → q.seqs j = some ys → e ∈ xs → e ∈ ys → i = j
  alive : ∀ i, s.lists i = none ↔ q.seqs i = none
  represents : ∀ i l xs, s.lists i = some l → q.seqs i = some xs → Represents s.memory l xs
  owner : ∀ e i xs, q.seqs i = some xs → (s.memory.owner e = i ↔ e ∈ xs)
  linked : ∀ e i xs, q.seqs i = some xs → e ∈ xs → s.memory.strong e = 1
  unlinked : ∀ e, (∀ i xs, q.seqs i = some xs → e ∉ xs) →
    s.memory.nodes e = .new ∧ s.memory.strong e = 0

omit [DecidableEq E] in
/-- The pointers of lists that simulate sequences can be followed both ways. -/
theorem Simulates.refines (h : Simulates s q) : Refines s q where
  disjoint i j xs ys e hxs hys hx hy :=
    ((h.owner e i xs hxs).mpr hx).symm.trans ((h.owner e j ys hys).mpr hy)
  alive i := by
    refine ⟨h.gone i, fun hnone => ?_⟩
    by_contra hsome
    obtain ⟨l, hl⟩ := Option.ne_none_iff_exists'.mp hsome
    obtain ⟨xs, hxs, -⟩ := h.lists i l hl
    rw [hnone] at hxs
    cases hxs
  represents i l xs hl hxs := by
    obtain ⟨ys, hys, hholds⟩ := h.lists i l hl
    obtain rfl : xs = ys := Option.some.inj (hxs.symm.trans hys)
    have hforward := hholds.linked.follows_next
    refine ⟨hholds.linked.nodup, hforward, PinList.Iter.yields_of_follows hforward,
      hholds.linked.follows_prev, hholds.len, fun e => ?_⟩
    rw [← h.owner e i xs hxs, ← hholds.id]
    exact decide_eq_true_iff
  owner := h.owner
  linked e i xs hxs he := (h.member hxs e he).2
  unlinked e hnowhere := by
    refine h.unlinked e ?_
    by_contra howner
    obtain ⟨xs, hxs⟩ := h.home e howner
    exact hnowhere _ xs hxs ((h.owner e _ xs hxs).mp rfl)

/-- Along a run of calls the lists are sequences. By induction on the run, in which the IDs of the
lists that are alive were given out before. -/
theorem simulates_of_run {tr : List (Action E × Answer E)} {s : PinLists E}
    (h : (machine E).Run tr s) (hids : (created tr).Nodup) :
    ∃ q, (Sequences.machine E).Run tr q ∧ Simulates s q := by
  have hrun : (created tr).Nodup → ∃ q, (Sequences.machine E).Run tr q ∧ Simulates s q ∧
      ∀ i, s.lists i ≠ none → i ∈ created tr := by
    refine Lib.Machine.Run.invariant (I := fun tr s => (created tr).Nodup →
      ∃ q, (Sequences.machine E).Run tr q ∧ Simulates s q ∧
        ∀ i, s.lists i ≠ none → i ∈ created tr) (fun _ => ?_) ?_ h
    · refine ⟨_, .init, ⟨rfl, ?_, fun _ _ => rfl, rfl, ?_, ?_, fun _ _ => ⟨rfl, rfl⟩, ?_⟩, ?_⟩
      · exact fun i l hl => absurd hl (by simp [machine, init])
      · exact fun e i xs hxs => absurd hxs (by simp [Sequences.machine])
      · exact fun e he => absurd rfl he
      · exact fun e he => absurd rfl he
      · exact fun i hi => absurd rfl hi
    · intro tr s a o s' _ ih hstep hids
      have hsplit : created (tr ++ [(a, o)]) = created tr ++ created [(a, o)] :=
        List.filterMap_append
      rw [hsplit] at hids ⊢
      obtain ⟨hbefore, -, hnew⟩ := List.nodup_append.mp hids
      obtain ⟨q, hq, hsim, hmade⟩ := ih hbefore
      -- An ID that a list has was given out before.
      have hfresh : ∀ id, o = .created id → s.lists id = none := by
        rintro id rfl
        by_contra hid
        exact hnew id (hmade id hid) id (List.mem_singleton_self id) rfl
      obtain ⟨q', hq', hsim'⟩ := hsim.step hstep hfresh
      refine ⟨q', hq.step hq', hsim', fun i hi => ?_⟩
      rcases alive_of_step hstep hi with hi | rfl
      · exact List.mem_append_left _ (hmade i hi)
      · exact List.mem_append_right _ (List.mem_singleton_self i)
  obtain ⟨q, hq, hsim, -⟩ := hrun hids
  exact ⟨q, hq, hsim⟩

/-- The lists are a family of disjoint sequences: every run of calls, of any number of lists with
different IDs, is a run of the sequences with the same answers. -/
theorem refines_sequences {tr : List (Action E × Answer E)} {s : PinLists E}
    (h : (machine E).Run tr s) (hids : (created tr).Nodup) :
    ∃ q, (Sequences.machine E).Run tr q ∧ Refines s q := by
  obtain ⟨q, hq, hsim⟩ := simulates_of_run h hids
  exact ⟨q, hq, hsim.refines⟩

/-- Two lists share three elements: the middle one is removed from its list and joins the other, and
a list does not take an element of another one. -/
theorem refines_sequences_shared : ∃ tr s, (machine (Fin 3)).Run tr s ∧
    tr.map Prod.snd = [.created 1, .created 2, .flag true, .flag true, .flag true, .flag true,
      .flag true, .panicked .anotherList, .flag false, .element (some 0)] ∧
    s.lists 1 = some ⟨1, some 2, some 2, 1⟩ ∧ s.lists 2 = some ⟨2, some 1, some 1, 1⟩ ∧
    (created tr).Nodup ∧ ∃ q, (Sequences.machine (Fin 3)).Run tr q ∧ Refines s q := by
  have hrun := Lib.Machine.Run.init (M := machine (Fin 3))
    |>.step (a := .new) (by with_unfolding_all rfl)
    |>.step (a := .new) (by with_unfolding_all rfl)
    |>.step (a := .pushBack 1 0) (by with_unfolding_all rfl)
    |>.step (a := .pushBack 1 1) (by with_unfolding_all rfl)
    |>.step (a := .pushBack 1 2) (by with_unfolding_all rfl)
    |>.step (a := .remove 1 1) (by with_unfolding_all rfl)
    |>.step (a := .pushBack 2 1) (by with_unfolding_all rfl)
    |>.step (a := .pushBack 2 2) (by with_unfolding_all rfl)
    |>.step (a := .pushBack 2 1) (by with_unfolding_all rfl)
    |>.step (a := .popFront 1) (by with_unfolding_all rfl)
  exact ⟨_, _, hrun, by decide +kernel, by decide +kernel, by decide +kernel, by decide +kernel,
    refines_sequences hrun (by decide +kernel)⟩

end PinLists

end Rammux
