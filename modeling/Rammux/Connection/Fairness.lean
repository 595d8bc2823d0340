import Rammux.Lib.Queue
import Rammux.Connection.Wakeups

/-!
# Turns are fair

A stream takes bytes from the peer's pool when the turn queue is empty or when it is at its front
(`Ledger.Planned.move`). Then it leaves the queue, and joins again at the back if it has more to
send. So the polls of an endpoint are moves of a queue in which nobody is overtaken, and the library
says how long a stream can be kept waiting.
-/

namespace Rammux

/-- Whoever has its turn is first in the queue, or nobody is in it. -/
theorem Turns.head_of_hasTurn {t : Turns} {me : StreamRef} (h : t.hasTurn me = true) :
    t.queue = [] ∨ t.queue.head? = some me := by
  unfold Turns.hasTurn at h
  cases hq : t.queue with
  | nil => exact .inl rfl
  | cons front rest =>
    rw [hq] at h
    exact .inr (congrArg some (beq_iff_eq.mp h))

/-- A plan is a move of the turn queue, and takes bytes from the pool only as one that is served. -/
theorem Ledger.Planned.move {l l' : Ledger} {flow flow' : ConnFlow} {me : StreamRef}
    {allowance : ℚ≥0} {wk wk' : Wakes} {waiting : ℕ} {res : Option ℕ}
    (h : l.Planned flow me allowance wk waiting res l' flow' wk') (hq : flow.turns.queue.Nodup) :
    Lib.Move me flow.turns.queue flow'.turns.queue
      (decide (flow.txPool.used < flow'.txPool.used)) := by
  cases h with
  | nothing | exhausted =>
    rw [ConnFlow.passTurn_fst, decide_eq_false (lt_irrefl _)]
    exact .leave
  | fits hpos hn hbase hmoves =>
    -- Within the base window nothing is taken from the pool.
    have hused := hmoves.used
    simp only [sent, Window.borrowed, Window.borrowedAt, Window.baseRoom] at hused hbase
    rw [decide_eq_false (by dsimp only; omega)]
    exact .stay
  | @borrows n txPool hn hbase hturn hallowance hroom hmoves =>
    have hused := hmoves.used
    simp only [sent, Window.borrowed, Window.borrowedAt, Window.baseRoom] at hused hbase
    rw [decide_eq_true (by dsimp only; omega)]
    dsimp only
    -- Served, and queued again if there is more to send.
    split_ifs
    · have hnot : me ∉ (flow.turns.leave me).2.queue := hq.not_mem_erase
      rw [Turns.join, if_neg hnot]
      exact .again (Turns.head_of_hasTurn hturn)
    · exact .serve (Turns.head_of_hasTurn hturn)
  | queued =>
    rw [decide_eq_false (lt_irrefl _)]
    dsimp only [Turns.join]
    split_ifs with hmem
    · exact .stay
    · exact .join hmem

namespace Streams

/-- A poll is a move of the turn queue. -/
theorem pollUpdate_move {s s' : Streams} {r : StreamRef} {allowance : ℚ≥0} {res : Poll StreamUpdate}
    (h : s.pollUpdate r allowance = .ok (res, s')) (hq : s.flow.turns.queue.Nodup) :
    Lib.Move r s.flow.turns.queue s'.flow.turns.queue
      (decide (s.flow.txPool.used < s'.flow.txPool.used)) := by
  rcases pollUpdate_eq_ok h with ⟨-, -, rfl⟩ | ⟨task, task', c, poll, -, hpoll, hres⟩
  · rw [decide_eq_false (lt_irrefl _)]
    exact .stay
  obtain ⟨inRes, outRes, rxPool, wk, -, hout, -⟩ := StreamCtx.pollProgress_split hpoll
  obtain ⟨n, wk₁, hplan, -, -⟩ := OutboundTraffic.pollUpdate_cases hout
  have hmove : Lib.Move r s.flow.turns.queue c.flow.turns.queue
    (decide (s.flow.txPool.used < c.flow.txPool.used)) := hplan.move hq
  rcases hres with ⟨-, -, rfl⟩ | ⟨u, fin, -, -, hrem⟩ | ⟨u, fin, -, -, hrem⟩
  · exact hmove
  · rw [removeIfDead_same hrem]
    exact hmove
  · rw [removeIfDead_same hrem]
    show Lib.Move r s.flow.turns.queue (c.flow.passTurn r c.wakes).1.turns.queue
      (decide (s.flow.txPool.used < (c.flow.passTurn r c.wakes).1.txPool.used))
    rw [ConnFlow.passTurn_fst]
    exact hmove.erase hq

/-- A frame from the peer takes nothing from its pool, and leaves the queue alone. -/
theorem deliver_turns {s s' : Streams} {r : StreamRef} {header : StreamHeader} {data : Bytes}
    {newStream : Option StreamRef} {res : Except StreamViolation (Option StreamRef)}
    (h : s.deliver r header data newStream = .ok (res, s')) :
    s'.flow.turns = s.flow.turns ∧ s'.flow.txPool.used ≤ s.flow.txPool.used := by
  obtain ⟨c, verdict, hrec, hres⟩ := deliver_eq_ok h
  have hc : c.flow.turns = s.flow.turns ∧ c.flow.txPool.used ≤ s.flow.txPool.used :=
    ⟨(StreamCtx.received_keeps hrec).2.turns, StreamCtx.received_txWithin hrec⟩
  rcases hres with ⟨e, -, -, rfl⟩ | ⟨fin, -, -, hrem⟩
  · exact hc
  · rw [removeIfDead_same hrem]
    exact hc

/-- A step is a move of the turn queue by the stream that is polled, or is nothing to the queue. -/
theorem step_turns {s s' : Streams} {a : Action} {o : Output} (h : s.step a = .ok (o, s'))
    (hq : s.flow.turns.queue.Nodup) :
    (s'.flow.turns = s.flow.turns ∧ s'.flow.txPool.used ≤ s.flow.txPool.used) ∨
      ∃ r allowance, a = .poll r allowance ∧ Lib.Move r s.flow.turns.queue s'.flow.turns.queue
        (decide (s.flow.txPool.used < s'.flow.txPool.used)) := by
  cases a with
  | «open» key =>
    left
    simp only [step] at h
    split at h
    · next hkey =>
      cases h
      rcases openOutbound_cases hkey with hopen | ⟨id, s', hopen, -, -, hcreated⟩
      · rw [hopen]
        exact ⟨rfl, le_rfl⟩
      · rw [hopen, hcreated.same.2.2.2]
        exact ⟨rfl, le_rfl⟩
    · cases h
      exact ⟨rfl, le_rfl⟩
  | receive header data =>
    -- Credit gives room back to the pool, and a stream that closes does.
    left
    simp only [step, Lib.bind_eq_ok] at h
    obtain ⟨⟨res, s₁⟩, hrec, h⟩ := h
    cases h
    rcases receive_eq_ok hrec with ⟨e, -, rfl⟩ | ⟨r', -, -, hdel⟩ | ⟨-, -, -, -, hdel⟩
    · exact ⟨rfl, le_rfl⟩
    · exact deliver_turns hdel
    · have hflow := deliver_turns hdel
      exact hflow
  | poll r allowance =>
    -- The queue changes only here.
    simp only [step, Lib.bind_eq_ok] at h
    obtain ⟨⟨res, s₁⟩, hpoll, h⟩ := h
    cases h
    exact .inr ⟨r, allowance, rfl, pollUpdate_move hpoll hq⟩
  | app r op =>
    left
    simp only [step] at h
    split at h
    · simp only [Lib.bind_eq_ok] at h
      obtain ⟨⟨res, c⟩, happ, h⟩ := h
      cases h
      have hflow : c.flow = s.flow := (StreamCtx.app_split happ).1
      show c.flow.turns = s.flow.turns ∧ c.flow.txPool.used ≤ s.flow.txPool.used
      rw [hflow]
      exact ⟨rfl, le_rfl⟩
    · cases h
      exact ⟨rfl, le_rfl⟩
  | observe rtt =>
    cases h
    exact .inl ⟨rfl, le_rfl⟩

/-- The stream that takes bytes from the peer's pool in a step, if one does. -/
def borrower (t : Lib.Machine.Taken Streams Action Output) : Option StreamRef :=
  match t.action with
  | .poll r _ => if t.source.flow.txPool.used < t.target.flow.txPool.used then some r else none
  | _ => none

/-- While a stream waits, the steps of an endpoint are moves of the turn queue. -/
theorem waits_of_path {role : RammuxRole} {config : RammuxConfig} {tr : List (Action × Output)}
    {s s' : Streams} {steps : List (Lib.Machine.Taken Streams Action Output)} {r : StreamRef}
    (hrun : (machine role config).Run tr s) (hpath : (machine role config).Path s steps s')
    (hr : r ∈ s.flow.turns.queue)
    (hwaits : ∀ t ∈ steps, r ∈ t.target.flow.turns.queue ∧ borrower t ≠ some r) :
    Lib.Waits r s.flow.turns.queue (steps.filterMap borrower) s'.flow.turns.queue := by
  induction hpath generalizing tr with
  | nil s => exact .nil hr
  | @cons s t u a o steps hstep hpath ih =>
    obtain ⟨hr', hnot⟩ := hwaits _ List.mem_cons_self
    have hrest := ih (hrun.step hstep) hr' fun t ht => hwaits t (List.mem_cons_of_mem _ ht)
    rcases step_turns hstep (wakeful_of_run hrun).nodup with ⟨hturns, hused⟩ |
      ⟨r', allowance, rfl, hmove⟩
    · -- Nobody borrowed, and the queue is what it was.
      have hnone : borrower ⟨s, a, o, t⟩ = none := by
        unfold borrower
        split
        · exact if_neg hused.not_gt
        · rfl
      rw [List.filterMap_cons_none hnone]
      rw [hturns] at hrest
      exact hrest
    · -- The stream that was polled moved, and was served if it took from the pool.
      by_cases hlt : s.flow.txPool.used < t.flow.txPool.used
      · rw [decide_eq_true hlt] at hmove
        have hsome : borrower ⟨s, .poll r' allowance, o, t⟩ = some r' := if_pos hlt
        rw [List.filterMap_cons_some hsome]
        refine .serve hr hmove ?_ hrest
        rintro rfl
        exact hnot hsome
      · rw [decide_eq_false hlt] at hmove
        have hnone : borrower ⟨s, .poll r' allowance, o, t⟩ = none := if_neg hlt
        rw [List.filterMap_cons_none hnone]
        exact .idle hr hmove hrest

/-- Turns are fair. Bytes of the peer's pool are taken by a poll of a stream that nobody waits
before. From when a stream is in the queue until it borrows or leaves, only streams that are ahead
of it then borrow, and each of them once. -/
theorem turns_fair {role : RammuxRole} {config : RammuxConfig} {tr : List (Action × Output)}
    {s : Streams} (hrun : (machine role config).Run tr s) :
    (∀ a o s', s.step a = .ok (o, s') → s.flow.txPool.used < s'.flow.txPool.used →
      ∃ r allowance, a = .poll r allowance ∧
        (s.flow.turns.queue = [] ∨ s.flow.turns.queue.head? = some r)) ∧
    ∀ r steps s', (machine role config).Path s steps s' → r ∈ s.flow.turns.queue →
      (∀ t ∈ steps, r ∈ t.target.flow.turns.queue ∧ borrower t ≠ some r) →
      (∀ b ∈ steps.filterMap borrower, b ∈ Lib.ahead s.flow.turns.queue r) ∧
        (steps.filterMap borrower).Nodup ∧
        (steps.filterMap borrower).length ≤ (Lib.ahead s.flow.turns.queue r).length := by
  have hq := (wakeful_of_run hrun).nodup
  refine ⟨fun a o s' hstep hlt => ?_, fun r steps s' hpath hr hwaits => ?_⟩
  · rcases step_turns hstep hq with ⟨-, hused⟩ | ⟨r, allowance, rfl, hmove⟩
    · exact absurd hlt hused.not_gt
    · rw [decide_eq_true hlt] at hmove
      refine ⟨r, allowance, rfl, ?_⟩
      generalize s'.flow.turns.queue = q at hmove
      generalize s.flow.turns.queue = q₀ at hmove
      cases hmove with
      | serve h => exact h
      | again h => exact h
  · have hw := waits_of_path hrun hpath hr hwaits
    obtain ⟨hnodup, hahead⟩ := hw.served hq
    exact ⟨hahead, hnodup, hw.length_served_le hq⟩

/-- Two streams wait for the pool when the peer returns a byte of it. The one ahead takes it. -/
theorem turns_fair_ahead : ∃ tr s steps s', (machine .client tightConfig).Run tr s ∧
    (machine .client tightConfig).Path s steps s' ∧ s.flow.turns.queue = [1, 0] ∧
    s'.flow.turns.queue = [0] ∧ steps.filterMap borrower = [1] ∧
    (steps.filterMap borrower).length ≤ (Lib.ahead s.flow.turns.queue 0).length := by
  have hrun := Lib.Machine.Run.init (M := machine .client tightConfig)
    |>.step (a := .observe 1) rfl |>.step (a := .open 0) rfl |>.step (a := .open 1) rfl
    |>.step (a := .app 0 (.write [1, 2, 3, 4, 5, 6])) rfl
    |>.step (a := .app 1 (.write [1, 2, 3])) rfl
    |>.step (a := .poll 0 3) (by with_unfolding_all rfl)
    |>.step (a := .poll 0 3) (by with_unfolding_all rfl)
    |>.step (a := .poll 1 3) (by with_unfolding_all rfl)
    |>.step (a := .poll 1 3) (by with_unfolding_all rfl)
    |>.step (a := .receive ⟨⟨0⟩, {}, some ⟨1, by decide⟩, none⟩ []) (by with_unfolding_all rfl)
    |>.step (a := .poll 0 3) (by with_unfolding_all rfl)
  have hfair := (turns_fair hrun).2 0 _ _ (.cons (a := .poll 1 3) (by with_unfolding_all rfl)
    (.nil _)) (by decide +kernel) (by decide +kernel)
  exact ⟨_, _, _, _, hrun, .cons (a := .poll 1 3) (by with_unfolding_all rfl) (.nil _),
    by decide +kernel, by decide +kernel, by decide +kernel, hfair.2.2⟩

end Streams

end Rammux
