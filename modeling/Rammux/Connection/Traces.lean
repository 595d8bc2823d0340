import Rammux.Connection.Steps

/-!
# What a stream sends

The updates that the task of a stream yields are a legal trace, whatever the peer sends and whatever
the application does (`LegalTrace`): each of them carries something, `SYN` is on the first if this
side opened the stream, and after a `FIN_*` nothing comes that it excludes. What a stream has sent
so far is in its state: the `FIN_*`s of its directions, and the `SYN` of its task (`Emitted`).
-/

namespace Rammux

namespace StreamUpdate

/-- The updates of a stream, as the protocol wants them. -/
structure LegalTrace (frameLimit : ℕ) (opened : Prop) (us : List StreamUpdate) : Prop where
  /-- Each update carries something. -/
  something : ∀ u ∈ us, u.flags.syn = true ∨ u.flags.finRead = true ∨ u.flags.finWrite = true ∨
    1 ≤ u.credit.toNat ∨ u.data ≠ []
  limit : ∀ u ∈ us, u.data.length ≤ frameLimit
  /-- `SYN` is on the first update if this side opened the stream, and on no other. -/
  first : ∀ u ∈ us.head?, u.flags.syn = true ↔ opened
  later : ∀ u ∈ us.tail, u.flags.syn = false
  /-- After `FIN_WRITE` there is no data, and no other `FIN_WRITE`. -/
  finWrite : us.Pairwise fun u v =>
    u.flags.finWrite = true → v.data = [] ∧ v.flags.finWrite = false
  /-- After `FIN_READ` there is no credit, and no other `FIN_READ`. -/
  finRead : us.Pairwise fun u v => u.flags.finRead = true → v.credit = 0 ∧ v.flags.finRead = false
  /-- Nor is there credit with `FIN_READ`. -/
  alone : ∀ u ∈ us, u.flags.finRead = true → u.credit = 0
  /-- After both there is nothing. -/
  last : ∀ before after, us = before ++ after → (∃ u ∈ before, u.flags.finRead = true) →
    (∃ u ∈ before, u.flags.finWrite = true) → after = []

/-- A stream that sent nothing has sent nothing that is not allowed. -/
theorem legalTrace_nil (frameLimit : ℕ) (opened : Prop) : LegalTrace frameLimit opened [] where
  something := nofun
  limit := nofun
  first := nofun
  later := nofun
  finWrite := .nil
  finRead := .nil
  alone := nofun
  last before after h := by
    obtain ⟨rfl, rfl⟩ := List.append_eq_nil_iff.mp h.symm
    exact fun _ _ => rfl

/-- One more update. -/
theorem LegalTrace.snoc {frameLimit : ℕ} {opened : Prop} {us : List StreamUpdate} {u : StreamUpdate}
    (h : LegalTrace frameLimit opened us)
    (hsome : u.flags.syn = true ∨ u.flags.finRead = true ∨ u.flags.finWrite = true ∨
      1 ≤ u.credit.toNat ∨ u.data ≠ [])
    (hlimit : u.data.length ≤ frameLimit) (hsyn : u.flags.syn = true ↔ us = [] ∧ opened)
    (hfinWrite : (∃ v ∈ us, v.flags.finWrite = true) → u.data = [] ∧ u.flags.finWrite = false)
    (hfinRead : (∃ v ∈ us, v.flags.finRead = true) → u.credit = 0 ∧ u.flags.finRead = false)
    (halone : u.flags.finRead = true → u.credit = 0)
    (hopen : ¬ ((∃ v ∈ us, v.flags.finRead = true) ∧ ∃ v ∈ us, v.flags.finWrite = true)) :
    LegalTrace frameLimit opened (us ++ [u]) := by
  have hforall {P : StreamUpdate → Prop} (hus : ∀ v ∈ us, P v) (hu : P u) :
      ∀ v ∈ us ++ [u], P v := by
    intro v hv
    rcases List.mem_append.mp hv with hv | hv
    · exact hus v hv
    · rwa [List.mem_singleton.mp hv]
  have hpair {R : StreamUpdate → StreamUpdate → Prop} (hus : us.Pairwise R) (hu : ∀ v ∈ us, R v u) :
      (us ++ [u]).Pairwise R := by
    refine List.pairwise_append.mpr ⟨hus, List.pairwise_singleton R u, fun v hv u' hu' => ?_⟩
    rw [List.mem_singleton.mp hu']
    exact hu v hv
  refine ⟨hforall h.something hsome, hforall h.limit hlimit, ?_, ?_,
    hpair h.finWrite fun v hv hfin => hfinWrite ⟨v, hv, hfin⟩,
    hpair h.finRead fun v hv hfin => hfinRead ⟨v, hv, hfin⟩, hforall h.alone halone, ?_⟩
  · cases us with
    | nil =>
      rintro v ⟨⟩
      simpa using hsyn
    | cons v vs => exact h.first
  · cases us with
    | nil => nofun
    | cons v vs =>
      intro u' hu'
      rcases List.mem_append.mp hu' with hu' | hu'
      · exact h.later u' hu'
      · rw [List.mem_singleton.mp hu']
        simpa using hsyn
  · intro before after heq hread hwrite
    -- What is after both `FIN_*`s is nothing or ends with the new update.
    rcases List.eq_nil_or_concat after with rfl | ⟨vs, v, rfl⟩
    · rfl
    · rw [List.concat_eq_append, ← List.append_assoc] at heq
      obtain ⟨rfl, -⟩ := List.append_inj' heq rfl
      obtain ⟨w, hw, hwfin⟩ := hread
      obtain ⟨w', hw', hwfin'⟩ := hwrite
      exact absurd ⟨⟨w, List.mem_append_left _ hw, hwfin⟩, w', List.mem_append_left _ hw', hwfin'⟩
        hopen

end StreamUpdate

/-! ## The threshold for credit -/

namespace StreamCtx

variable {c c' : StreamCtx} {me : StreamRef}

/-- Frames do not change the threshold. -/
theorem received_threshold {credit : Option NonZeroU32} {data : Bytes} {flags : ControlFlags}
    {verdict : Except StreamError FinState}
    (h : c.received credit data flags me = .ok (verdict, c')) :
    c'.state.inbound.creditThreshold = c.state.inbound.creditThreshold := by
  refine received_rel (R := fun c c' => c'.state.inbound.creditThreshold =
    c.state.inbound.creditThreshold) (fun _ => rfl) (fun h h' => h'.trans h) ?_ ?_ ?_ ?_ h
  · intro c v c' h
    rcases receivedCredit_split h with ⟨-, -, rfl⟩ | ⟨k, o, f, wk, -, -, rfl⟩ <;> rfl
  · intro c v c' h
    obtain ⟨i, rxPool, wk, hd, rfl⟩ := receivedData_split h
    rcases InboundTraffic.receivedData_cases hd with ⟨-, -, rfl, -⟩ | ⟨-, -, ⟨_, _, -, rfl, -⟩, -⟩ |
      ⟨-, -, -, -, -, rfl, -⟩ | ⟨-, -, -, rfl, -⟩ | ⟨-, -, -, -, rfl, -⟩ <;> rfl
  · intro c v c' h
    rcases receivedFinWrite_split h with ⟨-, -, rfl⟩ | ⟨i, wk, -, hfin, rfl⟩
    · rfl
    · rcases c.state.inbound.receivedFinWrite_cases me c.wakes with ⟨-, hf⟩ | ⟨-, _, _, _, -, hf⟩ |
        ⟨-, _, -, hf⟩ | ⟨-, -, hf⟩ <;> rw [hf] at hfin <;> cases hfin <;> rfl
  · intro c v c' h
    rcases receivedFinRead_split h with ⟨-, -, rfl⟩ | ⟨o, f, wk, -, -, rfl⟩ <;> rfl

/-- The application does not change the threshold. -/
theorem app_threshold {op : AppOp} {res : AppResult} (h : c.app op me = .ok (res, c')) :
    c'.state.inbound.creditThreshold = c.state.inbound.creditThreshold := by
  cases hop : op.ofReader with
  | false => rw [(app_kept h).2.1 hop]
  | true =>
    cases op with
    | pollRead waker =>
      obtain ⟨⟨chunk, i, wk⟩, hread, h⟩ := Lib.bind_eq_ok.mp h
      cases h
      rcases InboundTraffic.pollRead_cases hread with ⟨-, -, -, -, rfl, -⟩ | ⟨-, -, rfl, -⟩ |
        ⟨data, -, htook, -⟩
      · rfl
      · rfl
      · exact htook.threshold
    | closeReading =>
      cases h
      rcases c.state.inbound.closeReading_cases me c.wakes with ⟨-, h⟩ | ⟨-, h⟩ <;> simp [h]
    | _ => cases hop

/-- A poll does not change the threshold. -/
theorem pollProgress_threshold {task task' : StreamUpdates} {allowance : ℚ≥0} {res : Poll Progress}
    (h : c.pollProgress task me allowance = .ok (res, task', c')) :
    c'.state.inbound.creditThreshold = c.state.inbound.creditThreshold := by
  obtain ⟨inRes, outRes, rxPool, wk, hin, -, -⟩ := pollProgress_split h
  rcases InboundTraffic.pollUpdate_cases hin with ⟨-, -, hi, -⟩ | ⟨_, -, -, -, -, -, hi, -⟩ |
    ⟨-, -, -, hi, -⟩ <;> rw [hi]

end StreamCtx

/-! ## What a stream has sent -/

namespace Streams

/-- The update of a stream that an event yields. -/
def emitted (r : StreamRef) : Action × Output → Option StreamUpdate
  | (.poll r' _, .polled (.ready u)) => if r' = r then some u else none
  | _ => none

/-- A step about something else yields no update of the stream. -/
theorem emitted_of_other {r : StreamRef} {a : Action} {o : Output}
    (h : ∀ allowance u, (a, o) ≠ (.poll r allowance, .polled (.ready u))) :
    emitted r (a, o) = none := by
  unfold emitted
  split
  · next r' allowance u heq =>
    refine if_neg fun hr' => h allowance u ?_
    rw [heq, hr']
  · rfl

/-- The updates of a stream that a run yields, oldest first. -/
def updatesOf (tr : List (Action × Output)) (r : StreamRef) : List StreamUpdate :=
  tr.filterMap (emitted r)

/-- This side opened the stream. -/
def Opened (tr : List (Action × Output)) (r : StreamRef) : Prop :=
  ∃ key, (.open key, .opened (some r)) ∈ tr

/-- What a stream has sent is in its state. -/
structure Emitted (tr : List (Action × Output)) (s : Streams) (r : StreamRef) : Prop where
  legal : StreamUpdate.LegalTrace s.config.frameLimit (Opened tr r) (updatesOf tr r)
  finRead : (s.state r).inbound.finSent = true ↔ ∃ u ∈ updatesOf tr r, u.flags.finRead = true
  finWrite : (s.state r).outbound.finSent = true ↔ ∃ u ∈ updatesOf tr r, u.flags.finWrite = true
  syn : ∀ task, s.updates r = some task → (task.syn = true ↔ updatesOf tr r = [] ∧ Opened tr r)

variable {tr : List (Action × Output)} {s s' : Streams} {a : Action} {o : Output} {r : StreamRef}

/-- The updates of a stream after one more event. -/
theorem updatesOf_snoc (tr : List (Action × Output)) (e : Action × Output) (r : StreamRef) :
    updatesOf (tr ++ [e]) r = updatesOf tr r ++ (emitted r e).toList := by
  rw [updatesOf, List.filterMap_append]
  cases h : emitted r e <;> simp [updatesOf, h]

/-- The streams that a step opens are new. -/
theorem next_of_opened {key : ℕ} (h : s.step (.open key) = .ok (.opened (some r), s')) :
    r = s.next ∧ s'.next = s.next + 1 := by
  simp only [step] at h
  split at h
  · next hkey =>
    rcases openOutbound_cases hkey with hopen | ⟨id, s₁, hopen, -, -, hcreated⟩
    · rw [hopen] at h
      cases h
    · rw [hopen] at h
      cases h
      exact ⟨rfl, hcreated.same.2.2.1⟩
  · cases h

/-- Whether a stream was opened is known from the step that started it. -/
theorem opened_snoc (h : s.step a = .ok (o, s')) (hr : r < s.next) :
    Opened (tr ++ [(a, o)]) r ↔ Opened tr r := by
  unfold Opened
  constructor
  · rintro ⟨key, hmem⟩
    rcases List.mem_append.mp hmem with hmem | hmem
    · exact ⟨key, hmem⟩
    · cases List.mem_singleton.mp hmem
      exact absurd (next_of_opened h).1 hr.ne
  · rintro ⟨key, hmem⟩
    exact ⟨key, List.mem_append_left _ hmem⟩

/-- A step that yields nothing of a stream and leaves its `FIN_*`s and its task alone. -/
theorem Emitted.keep (he : Emitted tr s r) (h : s.step a = .ok (o, s')) (hr : r < s.next)
    (hconfig : s'.config = s.config) (hnone : emitted r (a, o) = none)
    (hin : (s'.state r).inbound.finSent = (s.state r).inbound.finSent)
    (hout : (s'.state r).outbound.finSent = (s.state r).outbound.finSent)
    (htask : s'.updates r = s.updates r) : Emitted (tr ++ [(a, o)]) s' r := by
  have hus : updatesOf (tr ++ [(a, o)]) r = updatesOf tr r := by
    rw [updatesOf_snoc, hnone, Option.toList_none, List.append_nil]
  have hopened : Opened (tr ++ [(a, o)]) r = Opened tr r := propext (opened_snoc h hr)
  refine ⟨?_, ?_, ?_, fun task ht => ?_⟩
  · rw [hus, hopened, hconfig]
    exact he.legal
  · rw [hus, hin]
    exact he.finRead
  · rw [hus, hout]
    exact he.finWrite
  · rw [hus, hopened]
    exact he.syn task (htask ▸ ht)

/-- A poll that yields an update of a stream. -/
theorem Emitted.sent {u : StreamUpdate} {allowance : ℚ≥0} (he : Emitted tr s r) (ht : s.Tables)
    (ha : s.Accounts) (hr : r < s.next) (hpos : 0 < (s.state r).inbound.creditThreshold)
    (h : s.step (.poll r allowance) = .ok (.polled (.ready u), s')) (hconfig : s'.config = s.config)
    (hsent : s.Sent r u s') : Emitted (tr ++ [(.poll r allowance, .polled (.ready u))]) s' r := by
  have hus : updatesOf (tr ++ [(.poll r allowance, .polled (.ready u))]) r =
      updatesOf tr r ++ [u] := by
    rw [updatesOf_snoc]
    simp [emitted]
  have hopened : Opened (tr ++ [(.poll r allowance, .polled (.ready u))]) r = Opened tr r :=
    propext (opened_snoc h hr)
  have hex {P : StreamUpdate → Prop} :
      (∃ v ∈ updatesOf tr r ++ [u], P v) ↔ (∃ v ∈ updatesOf tr r, P v) ∨ P u := by
    simp only [List.mem_append, List.mem_singleton, or_and_right, exists_or, exists_eq_left]
  have hin := hsent.inbound
  have hout := hsent.outbound
  obtain ⟨task, htask, -, hsyn⟩ := hsent.task
  -- The task is there, so one of the `FIN_*`s is not sent yet.
  have hopen : ¬ ((s.state r).inbound.finSent = true ∧ (s.state r).outbound.finSent = true) := by
    rw [← StreamState.sent_iff, ← ht.task r hr, htask]
    nofun
  refine ⟨?_, ?_, ?_, fun task' htask' => ?_⟩
  · rw [hus, hopened, hconfig]
    refine he.legal.snoc ?_ ?_ (by rw [hsyn]; exact he.syn task htask) ?_ ?_ ?_ ?_
    · rcases hsent.loaded hpos with hc | hd | hf | hf
      · exact .inr (.inr (.inr (.inl (Nat.pos_of_ne_zero fun h => hc (UInt32.toNat_inj.mp h)))))
      · exact .inr (.inr (.inr (.inr hd)))
      · exact .inr (.inl hf)
      · exact .inr (.inr (.inl hf))
    · rw [← (ha.wfOut r hr).limit]
      exact hout.limit
    · rw [← he.finWrite]
      intro hfin
      refine ⟨?_, ?_⟩
      · by_contra hdata
        rw [(hout.dataOpen hdata).1] at hfin
        cases hfin
      · by_contra hf
        rw [(hout.finOpen (by simpa using hf)).1] at hfin
        cases hfin
    · rw [← he.finRead]
      intro hfin
      refine ⟨?_, ?_⟩
      · by_contra hcredit
        have hc : 0 < u.credit.toNat :=
          Nat.pos_of_ne_zero fun h => hcredit (UInt32.toNat_inj.mp h)
        rw [InboundTraffic.not_finSent_of_reading (hin.creditOpen hc)] at hfin
        cases hfin
      · by_contra hf
        rw [(hin.finOpen (by simpa using hf)).2.1] at hfin
        cases hfin
    · intro hf
      exact UInt32.toNat_inj.mp (hin.finOpen hf).2.2
    · rwa [← he.finRead, ← he.finWrite]
  · rw [hus, hex, ← he.finRead, hin.finSent, Bool.or_eq_true]
  · rw [hus, hex, ← he.finWrite, hout.finSent, Bool.or_eq_true]
  · rw [hus, hsent.started task' htask']
    simp

/-- What all streams have sent is in their states, and the streams to come have sent nothing. -/
structure Traced (tr : List (Action × Output)) (s : Streams) : Prop where
  emitted : ∀ r < s.next, Emitted tr s r
  threshold : ∀ r < s.next,
    (s.state r).inbound.creditThreshold = creditThreshold s.config.localRecvWindow
  fresh : ∀ r, s.next ≤ r → updatesOf tr r = [] ∧ ¬ Opened tr r

/-- One step, for a stream that there is. -/
theorem Traced.old (h : Traced tr s) (ht : s.Tables) (ha : s.Accounts)
    (hstep : s.step a = .ok (o, s')) (hconfig : s'.config = s.config) (hr : r < s.next) :
    Emitted (tr ++ [(a, o)]) s' r ∧
      (s'.state r).inbound.creditThreshold = creditThreshold s'.config.localRecvWindow := by
  have he := h.emitted r hr
  have hth := h.threshold r hr
  rw [hconfig]
  cases step_stream hstep hr with
  | other hstate htask hwoken happ hpoll =>
    -- Another stream may have sent something, which is not part of this trace.
    exact ⟨he.keep hstep hr hconfig (Streams.emitted_of_other hpoll) (by rw [hstate])
      (by rw [hstate]) htask, by rw [hstate, hth]⟩
  | @app op res c hact hout hc hs =>
    have hstate : s'.state r = c.state := by rw [hs, put_state_self]
    -- The application sends nothing itself.
    have hused := StreamCtx.app_used hc
    refine ⟨he.keep hstep hr hconfig (by rw [hact]; rfl) ?_ ?_ (by rw [hs]; rfl), ?_⟩
    · rw [hstate, hused.inFinSent]
      rfl
    · rw [hstate, hused.outFinSent]
      rfl
    · rw [hstate, StreamCtx.app_threshold hc, ← hth]
      rfl
  | @received header data verdict c hact hout hlookup hsyn hc hs =>
    have hstate : s'.state r = c.state := by rw [hs]; exact put_state_self _ _ _
    -- A frame of the peer makes nothing be sent, and takes no `FIN_*` back.
    obtain ⟨hfin, hfin'⟩ := StreamCtx.received_finSent hc
    refine ⟨he.keep hstep hr hconfig (by rw [hact]; rfl) ?_ ?_ (by rw [hs]; rfl), ?_⟩
    · rw [hstate, hfin]
      rfl
    · rw [hstate, hfin']
      rfl
    · rw [hstate, StreamCtx.received_threshold hc, ← hth]
      rfl
  | @polled allowance task task' poll c hact htask hc hstate hwoken hres =>
    have hstate : s'.state r = c.state := by rw [hstate, Function.update_self]
    have hth' : (s'.state r).inbound.creditThreshold =
        creditThreshold s.config.localRecvWindow := by
      rw [hstate, StreamCtx.pollProgress_threshold hc, ← hth]
      rfl
    refine ⟨?_, hth'⟩
    subst hact
    obtain ⟨⟨res, s₁⟩, hpoll, heq⟩ := Lib.bind_eq_ok.mp hstep
    cases heq
    -- The one case in which the trace grows.
    rcases pollUpdate_sends hpoll with ⟨rfl, hs⟩ | ⟨u, rfl, hsent⟩
    · refine he.keep hstep hr hconfig rfl ?_ ?_ ?_ <;> rw [hs]
    · exact he.sent ht ha hr (by rw [hth]; exact creditThreshold_pos _) hstep hconfig hsent

/-- A stream that there is not emits nothing. -/
theorem emitted_eq_none (h : s.step a = .ok (o, s')) (ht : s.Tables) (hr : s.next ≤ r) :
    emitted r (a, o) = none := by
  refine emitted_of_other fun allowance u heq => ?_
  cases heq
  -- Without a task there is nothing to poll.
  obtain ⟨⟨res, s₁⟩, hpoll, heq⟩ := Lib.bind_eq_ok.mp h
  cases heq
  rcases pollUpdate_sends hpoll with ⟨hres, -⟩ | ⟨u, -, hsent⟩
  · cases hres
  · obtain ⟨task, htask, -⟩ := hsent.task
    exact absurd (ht.taskId _ _ htask).1 hr.not_gt

/-- The threshold of a stream that a step starts. -/
theorem Started.threshold (h : s.Started a o s') :
    (s'.state s.next).inbound.creditThreshold = creditThreshold s.config.localRecvWindow := by
  cases h with
  | opened ha ho hid hrole hids hstate =>
    rw [hstate]
    rfl
  | @accepted header data verdict c ha ho hrole hvacant hsyn hc hs =>
    have hnew : ((s.accept header.id).ctx s.next).state = StreamState.new s.config :=
      Function.update_self _ _ _
    have hstate : s'.state s.next = c.state := by
      rw [hs]
      exact put_state_self _ _ _
    rw [hstate, StreamCtx.received_threshold hc, hnew]
    rfl

/-- One step, for the stream that it starts. -/
theorem Traced.started (h : Traced tr s) (ht : s.Tables) (hstep : s.step a = .ok (o, s'))
    (hs : s.Started a o s') : Emitted (tr ++ [(a, o)]) s' s.next := by
  obtain ⟨hus, hopened⟩ := h.fresh s.next le_rfl
  obtain ⟨hin, hout, task, htask, hsyn⟩ := hs.new
  have hnone : updatesOf (tr ++ [(a, o)]) s.next = [] := by
    rw [updatesOf_snoc, hus, emitted_eq_none hstep ht le_rfl]
    rfl
  refine ⟨?_, ?_, ?_, fun task' htask' => ?_⟩
  · rw [hnone]
    exact StreamUpdate.legalTrace_nil _ _
  · rw [hnone, hin]
    simp
  · rw [hnone, hout]
    simp
  · rw [htask, Option.some.injEq] at htask'
    rw [← htask', hsyn, hnone, Opened]
    simp only [List.mem_append, List.mem_singleton, true_and]
    refine exists_congr fun key => ⟨fun he => .inr he.symm, fun he => ?_⟩
    exact he.elim (fun hmem => absurd ⟨key, hmem⟩ hopened) Eq.symm

/-- Every step keeps what the streams have sent in line with their states. -/
theorem Traced.step (h : Traced tr s) (ht : s.Tables) (ha : s.Accounts)
    (hstep : s.step a = .ok (o, s')) (hconfig : s'.config = s.config) :
    Traced (tr ++ [(a, o)]) s' := by
  have hcases : ∀ r < s'.next, r < s.next ∨ (r = s.next ∧ s.Started a o s') := by
    intro r hr
    rcases step_next hstep with hnext | ⟨hnext, hs⟩
    · exact .inl (hnext ▸ hr)
    · rcases Nat.lt_succ_iff_lt_or_eq.mp (hnext ▸ hr) with hlt | rfl
      · exact .inl hlt
      · exact .inr ⟨rfl, hs⟩
  have hle := next_le_of_step hstep
  refine ⟨fun r hr => ?_, fun r hr => ?_, fun r hr => ⟨?_, ?_⟩⟩
  · rcases hcases r hr with hlt | ⟨rfl, hs⟩
    · exact (h.old ht ha hstep hconfig hlt).1
    · exact h.started ht hstep hs
  · rcases hcases r hr with hlt | ⟨rfl, hs⟩
    · exact (h.old ht ha hstep hconfig hlt).2
    · rw [hs.threshold, hconfig]
  · rw [updatesOf_snoc, (h.fresh r (hle.trans hr)).1, emitted_eq_none hstep ht (hle.trans hr)]
    rfl
  · rintro ⟨key, hmem⟩
    rcases List.mem_append.mp hmem with hmem | hmem
    · exact (h.fresh r (hle.trans hr)).2 ⟨key, hmem⟩
    · cases List.mem_singleton.mp hmem
      obtain ⟨rfl, hnext⟩ := next_of_opened hstep
      exact Nat.not_succ_le_self _ (hnext ▸ hr)

/-- So it is in every run. -/
theorem traced_of_run {role : RammuxRole} {config : RammuxConfig}
    (h : (machine role config).Run tr s) : Traced tr s := by
  refine h.invariant (I := fun tr s => Traced tr s) ⟨?_, ?_, fun r _ => ⟨rfl, nofun⟩⟩ ?_
  · exact fun r hr => absurd hr (Nat.not_lt_zero r)
  · exact fun r hr => absurd hr (Nat.not_lt_zero r)
  · intro tr s a o s' hrun htraced hstep
    refine htraced.step (tables_of_run hrun) (accounts_of_run hrun) hstep ?_
    rw [(same_of_run hrun).2, (same_of_run (hrun.step hstep)).2]

/-- Whatever the peer sends and the application does, a stream emits a legal trace. -/
theorem legal_traces {role : RammuxRole} {config : RammuxConfig} {tr : List (Action × Output)}
    {s : Streams} (h : (machine role config).Run tr s) (r : StreamRef) :
    StreamUpdate.LegalTrace config.frameLimit (Opened tr r) (updatesOf tr r) := by
  have htraced := traced_of_run h
  rcases Nat.lt_or_ge r s.next with hr | hr
  · rw [← (same_of_run h).2]
    exact (htraced.emitted r hr).legal
  · rw [(htraced.fresh r hr).1]
    exact StreamUpdate.legalTrace_nil _ _

/-- A stream that sends a byte in its first frame, and is closed in both directions after that. -/
theorem legal_traces_closed : ∃ tr s, (machine .client tightConfig).Run tr s ∧ Opened tr 0 ∧
    (updatesOf tr 0).map (fun u => (u.data, u.flags)) =
      [([7], { syn := true }), ([], { finRead := true, finWrite := true })] ∧
    StreamUpdate.LegalTrace tightConfig.frameLimit (Opened tr 0) (updatesOf tr 0) := by
  have hrun := Lib.Machine.Run.init (M := machine .client tightConfig)
    |>.step (a := .open 0) (o := .opened (some 0)) rfl
    |>.step (a := .app 0 (.write [7])) rfl
    |>.step (a := .poll 0 0) (by with_unfolding_all rfl)
    |>.step (a := .app 0 .closeReading) (by with_unfolding_all rfl)
    |>.step (a := .app 0 .closeWriting) (by with_unfolding_all rfl)
    |>.step (a := .poll 0 0) (by with_unfolding_all rfl)
    |>.step (a := .poll 0 0) (by with_unfolding_all rfl)
  exact ⟨_, _, hrun, ⟨0, by simp⟩, by with_unfolding_all rfl, legal_traces hrun 0⟩

end Streams

end Rammux
