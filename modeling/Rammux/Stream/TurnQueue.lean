import Rammux.PinLists
import Rammux.Stream.Wake

/-!
# The queue of turns in memory

`src/stream/turns.rs`: the queue of turns is an intrusive list, and the streams of all connections
have nodes of one kind. `Turns.InMemory` says that a queue is one of the lists in memory, where each
list is the queue of a connection and was only ever given streams of that connection: `join` is
called with a stream and the queue of its own connection.

Joining and leaving are then the calls of the list, and the call that joins does not find the stream
in another list (`InMemory.join`, `InMemory.leave`).
-/

namespace Rammux

namespace Turns

open PinLists (Represents)

variable {t : Turns} {i : ℕ} {p : PinLists (ℕ × StreamRef)}

/-- The queue is list `i`, among lists that were only given streams of their own connection. A
stream is named after its connection's list. -/
structure InMemory (t : Turns) (i : ℕ) (p : PinLists (ℕ × StreamRef)) : Prop where
  calls : ∃ tr, (PinLists.machine (ℕ × StreamRef)).Run tr p ∧ (PinLists.created tr).Nodup ∧
    ∀ ev ∈ tr, ∀ j e, ev.1 = .pushBack j e → e.1 = j
  queue : ∃ l, p.lists i = some l ∧ Represents p.memory l (t.queue.map (Prod.mk i))

/-- The calls so far made the queue a list. -/
theorem inMemory_of_simulates {tr : List (PinLists.Action (ℕ × StreamRef) ×
      PinLists.Answer (ℕ × StreamRef))} {q : Sequences (ℕ × StreamRef)}
    (hrun : (PinLists.machine (ℕ × StreamRef)).Run tr p) (hids : (PinLists.created tr).Nodup)
    (hpushes : ∀ ev ∈ tr, ∀ j e, ev.1 = .pushBack j e → e.1 = j) (hsim : p.Simulates q)
    (hxs : q.seqs i = some (t.queue.map (Prod.mk i))) : t.InMemory i p := by
  have halive : p.lists i ≠ none := by
    intro hnone
    cases (hsim.gone i hnone).symm.trans hxs
  obtain ⟨l, hl⟩ := Option.ne_none_iff_exists'.mp halive
  exact ⟨⟨tr, hrun, hids, hpushes⟩, l, hl, hsim.refines.represents i l _ hl hxs⟩

/-- A new connection has a new list for its queue. -/
theorem inMemory_new {tr : List (PinLists.Action (ℕ × StreamRef) ×
      PinLists.Answer (ℕ × StreamRef))} {p' : PinLists (ℕ × StreamRef)}
    (hrun : (PinLists.machine (ℕ × StreamRef)).Run tr p)
    (hids : (PinLists.created (tr ++ [(.new, .created i)])).Nodup)
    (hpushes : ∀ ev ∈ tr, ∀ j e, ev.1 = .pushBack j e → e.1 = j) (hfresh : p.lists i = none)
    (hstep : p.step .new = .ok (.created i, p')) : (⟨[]⟩ : Turns).InMemory i p' := by
  have hbefore : (PinLists.created tr).Nodup := by
    rw [PinLists.created, List.filterMap_append] at hids
    exact (List.nodup_append.mp hids).1
  obtain ⟨q, -, hsim⟩ := PinLists.simulates_of_run hrun hbefore
  obtain ⟨q', hq', hsim'⟩ := hsim.step hstep fun id hid => by cases hid; exact hfresh
  have hrun' : (PinLists.machine (ℕ × StreamRef)).Run (tr ++ [(.new, .created i)]) p' :=
    hrun.step hstep
  refine inMemory_of_simulates hrun' hids (fun ev hev => ?_) hsim' ?_
  · rcases List.mem_append.mp hev with hev | hev
    · exact hpushes ev hev
    · rw [List.mem_singleton.mp hev]
      exact fun _ _ => nofun
  · simp only [Sequences.step] at hq'
    split_ifs at hq'
    · cases hq'
    · cases hq'
      exact Function.update_self _ _ _

section Call

variable {a : PinLists.Action (ℕ × StreamRef)} {o : PinLists.Answer (ℕ × StreamRef)} {t' : Turns}
  {f : PinList (ℕ × StreamRef) → Memory (ℕ × StreamRef) →
    PinLists.Answer (ℕ × StreamRef) × Option (PinList (ℕ × StreamRef)) × Memory (ℕ × StreamRef)}

/-- A call of the list is a call of the queue, if it does to the sequence what it should. -/
theorem InMemory.call (h : t.InMemory i p) (hown : ∀ j e, a = .pushBack j e → e.1 = j)
    (hcall : p.step a = p.call i f) (hf : ∀ l m id, (f l m).1 ≠ .created id)
    (hseq : ∀ q : Sequences (ℕ × StreamRef), q.seqs i = some (t.queue.map (Prod.mk i)) →
      (∀ j xs e, q.seqs j = some xs → e ∈ xs → e.1 = j) →
      q.step a = .ok (o, { q with
        seqs := Function.update q.seqs i (some (t'.queue.map (Prod.mk i))) })) :
    ∃ p', p.step a = .ok (o, p') ∧ t'.InMemory i p' := by
  obtain ⟨⟨tr, hrun, hids, hpushes⟩, l, hl, hrep⟩ := h
  obtain ⟨q, hq, hsim⟩ := PinLists.simulates_of_run hrun hids
  -- The sequence is the queue, since the pointers visit one sequence only.
  obtain ⟨xs, hxs, -⟩ := hsim.lists i l hl
  obtain rfl : xs = t.queue.map (Prod.mk i) :=
    (hsim.refines.represents i l xs hl hxs).forward.unique hrep.forward
  have hhome (j : ℕ) (xs : List (ℕ × StreamRef)) (e : ℕ × StreamRef) (hxs : q.seqs j = some xs)
      (he : e ∈ xs) : e.1 = j := Sequences.home_of_run hq hpushes hxs he
  have hstep : p.step a = .ok ((f l p.memory).1, { p with
      memory := (f l p.memory).2.2, lists := Function.update p.lists i (f l p.memory).2.1 }) := by
    rw [hcall, PinLists.call, hl]
  obtain ⟨q', hq', hsim'⟩ := hsim.step hstep fun id hid => absurd hid (hf l p.memory id)
  cases (hseq q hxs hhome).symm.trans hq'
  refine ⟨_, hstep, inMemory_of_simulates (hrun.step hstep) ?_ (fun ev hev => ?_) hsim'
    (Function.update_self _ _ _)⟩
  · have hnone : PinLists.created [(a, (f l p.memory).1)] = [] := by
      simp only [PinLists.created, List.filterMap_cons, List.filterMap_nil]
      split
      · rfl
      · next hsome =>
        split at hsome
        · next id hid => exact absurd hid (hf l p.memory id)
        · cases hsome
    rw [PinLists.created, List.filterMap_append]
    exact (congrArg (PinLists.created tr ++ ·) hnone).trans (List.append_nil _) ▸ hids
  · rcases List.mem_append.mp hev with hev | hev
    · exact hpushes ev hev
    · rw [List.mem_singleton.mp hev]
      exact hown

end Call

/-- A call that answers with a flag creates no list. -/
theorem answer_flag_ne (result : Except Panic Bool) (id : ℕ) :
    PinLists.answer (E := ℕ × StreamRef) .flag result ≠ .created id := by
  cases result <;> exact nofun

/-- A stream is queued when its element is in the list. -/
theorem mem_map_queue {r : StreamRef} : (i, r) ∈ t.queue.map (Prod.mk i) ↔ r ∈ t.queue := by
  simp

/-- Taking a stream from the queue takes its element from the list. -/
theorem erase_map_queue {E : Type} [DecidableEq E] {f : StreamRef → E} (hf : Function.Injective f)
    (r : StreamRef) :
    (t.queue.map f).erase (f r) = (t.queue.erase r).map f := (List.map_erase hf t.queue).symm

/-- A stream joins the queue of its connection. The list takes it, unless it has it already. -/
theorem InMemory.join (h : t.InMemory i p) (r : StreamRef) :
    ∃ p', p.step (.pushBack i (i, r)) = .ok (.flag (decide (r ∉ t.queue)), p') ∧
      (t.join r).InMemory i p' := by
  refine h.call (f := fun l m => (PinLists.answer .flag (l.pushBack m (i, r)).1,
    some (l.pushBack m (i, r)).2.1, (l.pushBack m (i, r)).2.2)) ?_ rfl ?_ fun q hq hhome => ?_
  · rintro j e ⟨⟩
    rfl
  · exact fun l m => answer_flag_ne _
  · simp only [Sequences.step, Sequences.call, hq]
    by_cases hr : r ∈ t.queue
    · rw [if_pos (mem_map_queue.mpr hr), Turns.join, if_pos hr, decide_eq_false (not_not.mpr hr)]
    · -- A list that has the stream is the queue of its connection.
      have hnowhere : ¬∃ j ys, q.seqs j = some ys ∧ (i, r) ∈ ys := by
        rintro ⟨j, ys, hys, he⟩
        obtain rfl : i = j := hhome j ys _ hys he
        cases hq.symm.trans hys
        exact hr (mem_map_queue.mp he)
      rw [if_neg (mt mem_map_queue.mp hr), if_neg hnowhere, Turns.join, if_neg hr,
        decide_eq_true hr,
        List.map_append]
      rfl

/-- A stream leaves the queue, wherever it is. -/
theorem InMemory.leave (h : t.InMemory i p) (r : StreamRef) :
    ∃ p', p.step (.remove i (i, r)) = .ok (.flag (t.leave r).1, p') ∧
      (t.leave r).2.InMemory i p' := by
  refine h.call (f := fun l m => (PinLists.answer .flag (l.remove m (i, r)).1,
    some (l.remove m (i, r)).2.1, (l.remove m (i, r)).2.2)) (fun _ _ => nofun) rfl
    (fun l m => answer_flag_ne _) fun q hq _ => ?_
  simp only [Sequences.step, Sequences.call, hq, Turns.leave]
  by_cases hr : r ∈ t.queue
  · rw [if_pos (mem_map_queue.mpr hr), decide_eq_true hr,
      erase_map_queue (Prod.mk_right_injective i)]
  · rw [if_neg (mt mem_map_queue.mp hr), decide_eq_false hr, List.erase_of_not_mem hr]

end Turns

end Rammux
