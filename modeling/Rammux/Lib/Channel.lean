import Mathlib.Data.List.Basic

/-!
# Messages in flight on a channel

The two ends of a channel know how far a conversation is: the sender after what it has sent, the
receiver after what it has received. `Leads` says that the messages in flight lead from what the
receiver knows to what the sender knows, and that each may be sent where it is.

`Closing` is the conversation on a channel that carries loads until a message closes it.
-/

namespace Rammux.Lib

variable {σ α : Type*}

/-- The messages in flight lead from `s`, where the receiver is, to where the sender is. A message
`m` may be sent at `s` if `ok s m`, and leads to `next s m`. -/
def Leads (ok : σ → α → Prop) (next : σ → α → σ) (s : σ) : List α → σ → Prop
  | [], s' => s = s'
  | m :: ms, s' => ok s m ∧ Leads ok next (next s m) ms s'

namespace Leads

variable {ok : σ → α → Prop} {next : σ → α → σ} {s s' : σ} {m : α} {ms : List α}

/-- With nothing in flight both ends know the same. -/
theorem nil (h : Leads ok next s [] s') : s = s' := h

/-- The receiver takes a message. -/
theorem receive (h : Leads ok next s (m :: ms) s') : Leads ok next (next s m) ms s' := h.2

/-- The sender sends a message. -/
theorem send (h : Leads ok next s ms s') (hm : ok s' m) :
    Leads ok next s (ms ++ [m]) (next s' m) := by
  induction ms generalizing s with
  | nil =>
    have hs : s = s' := h
    subst hs
    exact ⟨hm, rfl⟩
  | cons m' ms ih => exact ⟨h.1, ih h.2⟩

end Leads

/-- The conversation on a channel that can be closed: a message for a closed channel has no load and
does not close it. -/
abbrev Closing (load fin : α → Bool) : Bool → List α → Bool → Prop :=
  Leads (fun closed m => closed = true → load m = false ∧ fin m = false)
    fun closed m => closed || fin m

namespace Leads

variable {load fin : α → Bool} {closed closed' : Bool} {m : α} {ms : List α}

/-- A message with a load arrives at a channel that is not closed. -/
theorem open_of_load (h : Closing load fin closed (m :: ms) closed') (hm : load m = true) :
    closed = false := by
  by_contra hc
  have hnot := (h.1 (by simpa using hc)).1
  exact Bool.noConfusion (hnot.symm.trans hm)

/-- The message that closes a channel arrives once. -/
theorem open_of_fin (h : Closing load fin closed (m :: ms) closed') (hm : fin m = true) :
    closed = false := by
  by_contra hc
  have hnot := (h.1 (by simpa using hc)).2
  exact Bool.noConfusion (hnot.symm.trans hm)

/-- The receiver takes the message that closes the channel. -/
theorem close (h : Closing load fin closed (m :: ms) closed') (hm : fin m = true) :
    Closing load fin true ms closed' := by
  have hrest := h.receive
  rwa [hm, Bool.or_true] at hrest

/-- Nothing in flight concerns a channel that the receiver has seen closed. -/
theorem of_closed (h : Closing load fin true ms closed') :
    closed' = true ∧ ∀ m ∈ ms, load m = false ∧ fin m = false := by
  induction ms with
  | nil => exact ⟨h.symm, nofun⟩
  | cons m ms ih =>
    obtain ⟨hc, hms⟩ := ih h.2
    refine ⟨hc, fun m' hm' => ?_⟩
    rcases List.mem_cons.mp hm' with rfl | hm'
    · exact h.1 rfl
    · exact hms m' hm'

end Leads

end Rammux.Lib
