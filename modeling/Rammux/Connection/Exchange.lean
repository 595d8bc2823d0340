import Rammux.Connection.Active
import Rammux.Lib.Lists

/-!
# The `PING`/`PONG` exchange on the wire

What a running connection does is looked at as a log: the `PING`s that were processed, and the
frames that were handed to the codec. `Exchanged` relates the log to what the connection remembers
of it. The bytes since the last `PING` are counted up to the largest `u32`, which is enough, since
the threshold is a `u32` itself.
-/

namespace Rammux

/-- What the exchange is about. -/
inductive Exchange where
  /-- A `PING` of the peer was processed. -/
  | ping (tPing : UInt32)
  /-- A frame was handed to the codec. -/
  | frame (frame : OutFrame)
  deriving DecidableEq

namespace Exchange

/-- The frames of a log. -/
def frames (log : List Exchange) : List OutFrame :=
  log.filterMap fun
    | .ping _ => none
    | .frame f => some f

/-- The `PING`s that were processed since the last frame, given those of an earlier log. -/
def next (pings : List UInt32) : Exchange → List UInt32
  | .ping t => pings ++ [t]
  | .frame _ => []

/-- The `PING`s that were processed since the last frame. -/
def unanswered (log : List Exchange) : List UInt32 := log.foldl next []

/-- The answer to the last of the `PING`s that were processed since the last frame. -/
def answer (log : List Exchange) : Option Pong := (unanswered log).getLast?.map Pong.mk

/-- The frames of a longer log. -/
theorem frames_append (log : List Exchange) (e : Exchange) :
    frames (log ++ [e]) = frames log ++ frames [e] := List.filterMap_append

/-- The `PING` that waits for its answer after one more exchange. -/
theorem unanswered_append (log : List Exchange) (e : Exchange) :
    unanswered (log ++ [e]) = next (unanswered log) e := by
  rw [unanswered, List.foldl_append]
  rfl

/-- The bytes of data since the last `PING`, with those of that frame. -/
def count (n : ℕ) (f : OutFrame) : ℕ := (if f.ping then 0 else n) + f.dataLen

/-- The bytes of data since the last `PING` that was sent. -/
def unpinged (frames : List OutFrame) : ℕ := frames.foldl count 0

/-- The bytes since the last `PING` after one more frame. -/
theorem unpinged_append (frames : List OutFrame) (f : OutFrame) :
    unpinged (frames ++ [f]) = count (unpinged frames) f := by
  rw [unpinged, List.foldl_append]
  rfl

/-- Frames without a `PING` add their data to the count. -/
theorem foldl_count {rest : List OutFrame} (h : ∀ f ∈ rest, f.ping = false) (n : ℕ) :
    rest.foldl count n = n + (rest.map OutFrame.dataLen).sum := by
  induction rest generalizing n with
  | nil => rfl
  | cons f rest ih =>
    have hf : count n f = n + f.dataLen := by
      rw [count, h f List.mem_cons_self]
      rfl
    rw [List.foldl_cons, hf, ih fun g hg => h g (List.mem_cons_of_mem f hg), List.map_cons,
      List.sum_cons, add_assoc]

/-- Frames of which only the first may carry a `PING` count. -/
theorem sum_le_unpinged (before : List OutFrame) (first : OutFrame) {rest : List OutFrame}
    (h : ∀ f ∈ rest, f.ping = false) :
    ((first :: rest).map OutFrame.dataLen).sum ≤ unpinged (before ++ first :: rest) := by
  rw [unpinged, List.foldl_append, List.foldl_cons, foldl_count h, List.map_cons, List.sum_cons]
  exact Nat.add_le_add_right (Nat.le_add_left _ _) _

/-- Where a frame without a `PING` is only sent below the threshold, and every frame is within the
limit, frames of which only the first may carry a `PING` are within both. -/
theorem sum_le {limit pingBytes : ℕ} {all : List OutFrame} (hpos : 0 < pingBytes)
    (hdue : ∀ before f after, all = before ++ f :: after → f.ping = false →
      unpinged before < pingBytes)
    (hlimit : ∀ f ∈ all, f.dataLen ≤ limit) (before : List OutFrame) (first : OutFrame)
    (rest after : List OutFrame) (hall : all = before ++ first :: rest ++ after)
    (hrest : ∀ f ∈ rest, f.ping = false) :
    ((first :: rest).map OutFrame.dataLen).sum ≤ pingBytes - 1 + limit := by
  rcases List.eq_nil_or_concat rest with rfl | ⟨rest', last, rfl⟩
  · have hfirst := hlimit first (by rw [hall]; simp)
    simp only [List.map_cons, List.map_nil, List.sum_cons, List.sum_nil]
    omega
  · rw [List.concat_eq_append] at hall hrest ⊢
    -- The last frame was sent below the threshold, so what is before it is less.
    have hbelow := hdue (before ++ first :: rest') last after (by rw [hall]; simp)
      (hrest last (by simp))
    have hsum := sum_le_unpinged before first fun f hf => hrest f (List.mem_append_left _ hf)
    have hlast := hlimit last (by rw [hall]; simp)
    rw [List.map_cons, List.sum_cons] at hsum
    rw [List.map_cons, List.map_append, List.sum_cons, List.sum_append]
    simp only [List.map_cons, List.map_nil, List.sum_cons, List.sum_nil]
    omega

end Exchange

/-! ## The log of a connection -/

namespace Active

open Exchange

/-- What an event adds to the log. -/
def exchanges : Action × Answer → List Exchange
  | (_, .received _ (some f)) => f.header.ping.toList.map .ping
  | (_, .sent _ fs) => fs.map .frame
  | _ => []

/-- The log of a run. -/
def log (tr : List (Action × Answer)) : List Exchange := tr.flatMap exchanges

/-- What the connection remembers of the log, and what the log is like. -/
structure Exchanged (config : RammuxConfig) (pings : Pings) (log : List Exchange) : Prop where
  owed : pings.owedPong = Exchange.answer log
  threshold : pings.schedule.pingBytes = config.pingBytes
  counted : pings.schedule.unpingedBytes = min (unpinged (frames log)) (2^32 - 1)
  pongs : ∀ before f after, log = before ++ .frame f :: after → f.pong = Exchange.answer before
  due : ∀ before f after, frames log = before ++ f :: after → f.ping = false →
    unpinged before < config.pingBytes
  limit : ∀ f ∈ frames log, f.dataLen ≤ config.frameLimit

variable {role : RammuxRole} {config : RammuxConfig} {pings : Pings} {log : List Exchange}

/-- Nothing is exchanged on a new connection. -/
theorem exchanged_new (config : RammuxConfig) : Exchanged config (.new config.pingBytes) [] where
  owed := rfl
  threshold := rfl
  counted := rfl
  pongs before f after h := absurd h.symm (by simp)
  due before f after h := absurd h.symm (by simp [frames])
  limit f hf := absurd hf (by simp [frames])

/-- A `PING` is processed: its answer is owed. -/
theorem Exchanged.ping (h : Exchanged config pings log) (t : UInt32) :
    Exchanged config (pings.receivedPing t) (log ++ [.ping t]) where
  owed := by
    rw [Exchange.answer, unanswered_append, next, List.getLast?_concat]
    rfl
  threshold := h.threshold
  counted := by
    rw [frames_append]
    exact h.counted.trans (by simp [frames])
  pongs before f after hsplit := by
    rcases Lib.append_split hsplit with ⟨e, hlog, -⟩ | ⟨e, he, -⟩
    · exact h.pongs before f e hlog
    · exact absurd he (by cases e <;> simp)
  due before f after hsplit := by
    refine h.due before f after ?_
    rw [← hsplit, frames_append]
    simp [frames]
  limit f hf := by
    refine h.limit f ?_
    rwa [frames_append, show frames [.ping t] = [] from rfl, List.append_nil] at hf

/-- Whether a `PING` is due is decided by the count, whatever it is cut off at. -/
theorem Exchanged.not_due (h : Exchanged config pings log) {elapsed : Bool}
    (hdue : pings.schedule.pollDue elapsed = false) :
    unpinged (frames log) < config.pingBytes := by
  have hcount := h.counted
  have hbytes := h.threshold
  have hlt := config.pingBytes_lt
  simp only [PingSchedule.pollDue, Bool.or_eq_false_iff, decide_eq_false_iff_not, not_le] at hdue
  omega

/-- A frame is composed and handed to the codec. -/
theorem Exchanged.frame (h : Exchanged config pings log) (elapsed : Bool)
    (update : Poll StreamUpdate) (f : OutFrame)
    (hf : f = .compose (pings.takeFramePart elapsed).1 update)
    (hlimit : f.dataLen ≤ config.frameLimit) :
    Exchanged config ((pings.takeFramePart elapsed).2.dataSent f.dataLen) (log ++ [.frame f]) where
  owed := by
    rw [Exchange.answer, unanswered_append]
    rfl
  threshold := by
    simp only [Pings.takeFramePart, Pings.dataSent, PingSchedule.dataSent]
    split_ifs <;> exact h.threshold
  counted := by
    -- A frame with a ping sets the count back; any other one adds its data to it.
    have hping : f.ping = pings.schedule.pollDue elapsed := by rw [hf]; rfl
    have hcount := h.counted
    rw [frames_append, show frames [.frame f] = [f] from rfl, unpinged_append, count, hping]
    simp only [Pings.takeFramePart, Pings.dataSent, PingSchedule.dataSent, u32SaturatingAdd,
      PingSchedule.sent]
    split_ifs
    · simp only
      omega
    · omega
  pongs before g after hsplit := by
    -- A frame of the log has its pong already; the new one answers what is owed.
    rcases Lib.append_split hsplit with ⟨e, hlog, -⟩ | ⟨e, he, hbefore⟩
    · exact h.pongs before g e hlog
    · cases e with
      | nil =>
        rw [List.nil_append, List.cons.injEq, Exchange.frame.injEq] at he
        rw [← he.1, hf, hbefore, List.append_nil, ← h.owed]
        rfl
      | cons x e => exact absurd he (by simp)
  due before g after hsplit hping := by
    -- A frame without a ping was not due for one: the schedule would have put one in.
    rw [frames_append] at hsplit
    rcases Lib.append_split hsplit with ⟨e, hlog, -⟩ | ⟨e, he, hbefore⟩
    · exact h.due before g e hlog hping
    · cases e with
      | nil =>
        rw [show frames [.frame f] = [f] from rfl, List.nil_append, List.cons.injEq] at he
        rw [hbefore, List.append_nil]
        refine h.not_due (?_ : pings.schedule.pollDue elapsed = false)
        rw [← hping, ← he.1, hf]
        rfl
      | cons x e => exact absurd he (by simp [frames])
  limit g hg := by
    rw [frames_append, List.mem_append] at hg
    rcases hg with hg | hg
    · exact h.limit g hg
    · rw [List.mem_singleton.mp hg]
      exact hlimit

/-- A turn of the loop that sends adds the frame that it hands over, if any. -/
theorem Exchanged.turn {self self' : Active} {turn : SendTurn}
    {res : Except (Poll (Except ErrorKind Unit)) OutFrame}
    (h : Exchanged config self.pings log) (hreach : self.streams.Reachable role config)
    (hturn : self.sendTurn turn = .ok (res, self')) :
    self'.streams.Reachable role config ∧
      Exchanged config self'.pings (log ++ (res.toOption.map Exchange.frame).toList) := by
  cases sendTurn_cases hturn with
  | blocked hready hblocked =>
    refine ⟨hreach, ?_⟩
    rwa [Except.toOption, Option.map_none, Option.toList_none, List.append_nil]
  | @idle codec codec' update streams flushed res hready hpoll hempty hflush =>
    refine ⟨(hreach.pollTasks hpoll).1, ?_⟩
    -- An empty frame has taken nothing from the exchange.
    have hsame : (self.pings.takeFramePart turn.elapsed).2 = self.pings := by
      simp only [OutFrame.isEmpty, OutFrame.compose, Pings.takeFramePart, Bool.and_eq_true,
        Bool.not_eq_true', Option.isNone_iff_eq_none] at hempty
      obtain ⟨⟨⟨hping, hpong⟩, -⟩, -⟩ := hempty
      rw [Pings.takeFramePart, hping]
      simp only [Bool.false_eq_true, if_false, ← hpong]
    rwa [Except.toOption, Option.map_none, Option.toList_none, List.append_nil, hsame]
  | @handed codec codec' update streams f hready hpoll hframe hne hsend =>
    obtain ⟨hreach', hupdate⟩ := hreach.pollTasks hpoll
    have hlimit : f.dataLen ≤ config.frameLimit := by
      rw [hframe]
      cases update with
      | pending => exact Nat.zero_le _
      | ready u => exact (hupdate u rfl).limit
    exact ⟨hreach', h.frame turn.elapsed update f hframe hlimit⟩

/-- A call that sends adds the frames that it hands over. -/
theorem Exchanged.send {self self' : Active} {turns : List SendTurn}
    {res : Poll (Except ErrorKind Unit)} {fs : List OutFrame}
    (h : Exchanged config self.pings log) (hreach : self.streams.Reachable role config)
    (hsend : self.pollSend turns = .ok (res, fs, self')) :
    self'.streams.Reachable role config ∧
      Exchanged config self'.pings (log ++ fs.map Exchange.frame) := by
  induction turns generalizing self log fs with
  | nil =>
    cases hsend
    exact ⟨hreach, by rwa [List.map_nil, List.append_nil]⟩
  | cons turn turns ih =>
    obtain ⟨⟨result, self₁⟩, hturn, hrest⟩ := Lib.bind_eq_ok.mp hsend
    obtain ⟨hreach₁, h₁⟩ := h.turn hreach hturn
    cases result with
    | error r =>
      cases hrest
      exact ⟨hreach₁, h₁⟩
    | ok f =>
      obtain ⟨⟨res₂, fs₂, self₂⟩, hsend₂, hret⟩ := Lib.bind_eq_ok.mp hrest
      cases hret
      obtain ⟨hreach₂, h₂⟩ := ih h₁ hreach₁ hsend₂
      rw [List.append_assoc] at h₂
      exact ⟨hreach₂, h₂⟩

/-- A call that receives adds the `PING` that it processes, if any. -/
theorem Exchanged.receive {self self' : Active} {answers : List ReadAnswer} {elapsed : Bool}
    {res : Poll (Except ErrorKind Received)} {frame : Option InboundFrame}
    (h : Exchanged config self.pings log) (hreach : self.streams.Reachable role config)
    (hreceive : self.pollReceive answers elapsed = .ok (res, frame, self')) :
    self'.streams.Reachable role config ∧
      Exchanged config self'.pings
        (log ++ exchanges (.receive answers elapsed, .received res frame)) := by
  obtain ⟨outcome, codec, -, ⟨rfl, rfl, -⟩ | ⟨f, result, rfl, -, -, hprocess⟩⟩ :=
    pollReceive_cases hreceive
  · have hnone : exchanges (.receive answers elapsed, .received res none) = [] := rfl
    rw [hnone, List.append_nil]
    exact ⟨hreach, h⟩
  · have hsome : exchanges (.receive answers elapsed, .received res (some f)) =
        f.header.ping.toList.map .ping := rfl
    obtain ⟨-, hpings, hstreams, -⟩ := process_eq_ok role config hprocess
    refine ⟨hstreams hreach, ?_⟩
    rw [hpings, hsome]
    cases f.header.ping with
    | none => rwa [Option.toList_none, List.map_nil, List.append_nil]
    | some t => exact h.ping t

/-- What every run leaves. -/
theorem exchanged_of_run {clock : Clock} {tr : List (Action × Answer)} {self : Active}
    (hrun : (machine role config clock).Run tr self) :
    self.streams.Reachable role config ∧ Exchanged config self.pings (Active.log tr) := by
  refine Lib.Machine.Run.invariant (I := fun tr self =>
    self.streams.Reachable role config ∧ Exchanged config self.pings (Active.log tr)) ?_ ?_ hrun
  · exact ⟨⟨[], .init⟩, exchanged_new config⟩
  · rintro tr self a o self' - ⟨hreach, h⟩ hstep
    have hlog : Active.log (tr ++ [(a, o)]) = Active.log tr ++ exchanges (a, o) := by
      rw [Active.log, List.flatMap_append, List.flatMap_singleton]
      rfl
    -- What the application does to streams is neither frame nor ping.
    have hact : ∀ b, self.act b = .ok (o, self') →
        self'.streams.Reachable role config ∧
          Exchanged config self'.pings (Active.log tr ++ exchanges (a, o)) := by
      intro b hb
      obtain ⟨⟨output, streams⟩, hstep', hret⟩ := Lib.bind_eq_ok.mp hb
      cases hret
      have hnone : exchanges (a, .streams output) = [] := rfl
      rw [hnone, List.append_nil]
      exact ⟨hreach.step hstep', h⟩
    rw [hlog]
    cases a with
    | arrive bytes =>
      have hnone : exchanges (.arrive bytes, .none) = [] := rfl
      simp only [machine, step] at hstep
      split_ifs at hstep <;>
      · cases hstep
        rw [hnone, List.append_nil]
        exact ⟨hreach, h⟩
    | eof =>
      cases hstep
      have hnone : exchanges (.eof, .none) = [] := rfl
      rw [hnone, List.append_nil]
      exact ⟨hreach, h⟩
    | receive answers elapsed =>
      obtain ⟨⟨res, frame, self₁⟩, hreceive, hret⟩ := Lib.bind_eq_ok.mp hstep
      cases hret
      exact h.receive hreach hreceive
    | send turns =>
      obtain ⟨⟨res, fs, self₁⟩, hsend, hret⟩ := Lib.bind_eq_ok.mp hstep
      cases hret
      exact h.send hreach hsend
    | «open» key => exact hact _ hstep
    | app r op => exact hact _ hstep

/-- The exchange on the wire, after any run. Frames of which only the first may carry a `PING` carry
less data than the threshold and one frame more. A frame answers the last `PING` that was processed
since the previous frame, if any was; and the last one that no frame has answered yet is owed. -/
theorem ping_pong {clock : Clock} {tr : List (Action × Answer)} {self : Active}
    (hrun : (machine role config clock).Run tr self) :
    (∀ before first rest after,
      frames (Active.log tr) = before ++ first :: rest ++ after → (∀ f ∈ rest, f.ping = false) →
        ((first :: rest).map OutFrame.dataLen).sum ≤ config.pingBytes - 1 + config.frameLimit) ∧
    (∀ before f after, Active.log tr = before ++ .frame f :: after →
      f.pong = (unanswered before).getLast?.map Pong.mk) ∧
    self.pings.owedPong = (unanswered (Active.log tr)).getLast?.map Pong.mk := by
  obtain ⟨-, h⟩ := exchanged_of_run hrun
  exact ⟨sum_le config.pingBytes_pos h.due h.limit, h.pongs, h.owed⟩

/-- Two `PING`s arrive before the first frame is sent: it answers the second one. -/
theorem ping_pong_superseded : ∃ tr self f,
    (machine .client .new ⟨0⟩).Run tr self ∧ Active.log tr = [.ping 9, .ping 10, .frame f] ∧
      f.ping = true ∧ f.data = [7, 8] ∧ f.pong = some ⟨10⟩ ∧ self.pings.owedPong = none := by
  have hrun := Lib.Machine.Run.init (M := machine .client .new ⟨0⟩)
    |>.step (a := .arrive [0, 0x20, 0, 0, 0, 9, 0, 0x20, 0, 0, 0, 10]) (by with_unfolding_all rfl)
    |>.step (a := .receive [.take 1 0, .take 20 0] false) (by with_unfolding_all rfl)
    |>.step (a := .receive [.take 20 0, .take 20 0] false) (by with_unfolding_all rfl)
    |>.step (a := .open 0) (by with_unfolding_all rfl)
    |>.step (a := .app 0 (.write [7, 8])) (by with_unfolding_all rfl)
    |>.step (a := .send
      [⟨[], true, [(0, 0)], .pending⟩, ⟨[⟨0, .accept 100 true⟩], false, [], .pending⟩])
      (by with_unfolding_all rfl)
  obtain ⟨-, hpong, howed⟩ := ping_pong hrun
  refine ⟨_, _, _, hrun, by with_unfolding_all rfl, by with_unfolding_all rfl,
    by with_unfolding_all rfl, hpong [.ping 9, .ping 10] _ [] (by with_unfolding_all rfl), howed⟩

end Active

end Rammux
