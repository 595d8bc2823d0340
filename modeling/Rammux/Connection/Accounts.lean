import Rammux.Connection.Tables

/-!
# The accounts of an endpoint

Both pools are counted incrementally, by every stream through every transition. `Accounts` is what
the counters stand for at all times and whatever the peer does: the sum over the streams of the
bytes that they borrow. `Held` is what an endpoint that reported no violation knows about what it
received: each stream counts the bytes it holds and the bytes it has not credited, and the pool is
not overdrawn. A stream that the tables forgot is dead, so it borrows nothing and holds nothing.
-/

namespace Rammux

namespace Streams

/-- The streams that the tables hold. -/
def live (s : Streams) : Finset StreamRef :=
  {r ∈ Finset.range s.next | s.lookup (s.ids r) = some r}

/-! ## The counters -/

/-- What the counters of the pools stand for. -/
structure Accounts (s : Streams) : Prop where
  rxSize : s.flow.rxPool.size = s.config.localRecvPool
  txSize : s.flow.txPool.size = s.config.remoteRecvPool
  inBase : ∀ r < s.next, (s.state r).inbound.window.base = s.config.localRecvWindow
  wfOut : ∀ r < s.next,
    (s.state r).outbound.WF s.config.frameLimit s.config.remoteRecvWindow
  rxUsed : s.flow.rxPool.used =
    ∑ r ∈ Finset.range s.next, (s.state r).inbound.window.borrowed
  txUsed : s.flow.txPool.used =
    ∑ r ∈ Finset.range s.next, (s.state r).outbound.ledger.window.borrowed
  txWithin : s.flow.txPool.used ≤ s.flow.txPool.size

/-- The pools of a new connection are not used, and there are no streams to use them. -/
theorem accounts_new (role : RammuxRole) (config : RammuxConfig) : (new role config).Accounts where
  rxSize := rfl
  txSize := rfl
  inBase r h := absurd h (Nat.not_lt_zero r)
  wfOut r h := absurd h (Nat.not_lt_zero r)
  rxUsed := rfl
  txUsed := rfl
  txWithin := Nat.zero_le _

/-- A sum over the streams, after something was done with one of them, in terms of the old and the
new value of that one. -/
theorem Touched.sum {s s' : Streams} {r : StreamRef} {failed : Prop} (h : s.Touched r failed s')
    (hr : r < s.next) (g : StreamState → ℕ) :
    ∑ i ∈ Finset.range s'.next, g (s'.state i) + g (s.state r) =
      ∑ i ∈ Finset.range s.next, g (s.state i) + g (s'.state r) := by
  have hstate : s'.state = Function.update s.state r (s'.state r) := by
    funext i
    by_cases hi : i = r
    · subst hi; rw [Function.update_self]
    · rw [Function.update_of_ne hi, h.others i hi]
  rw [h.next, ← Lib.sum_range_update g s.state (s'.state r) hr, ← hstate]

/-- A sum over the streams, after a new one was started. -/
theorem Created.sum {s s' : Streams} {id : StreamId} (h : s.Created id s') (g : StreamState → ℕ) :
    ∑ i ∈ Finset.range s'.next, g (s'.state i) =
      ∑ i ∈ Finset.range s.next, g (s.state i) + g (StreamState.new s.config) := by
  rw [h.same.2.2.1, Finset.sum_range_succ, h.new.1]
  congr 1
  exact Finset.sum_congr rfl fun i hi => by rw [(h.old (Finset.mem_range.mp hi)).1]

/-- A step that touches one stream keeps the accounts: the pools move with the windows of the
stream. -/
theorem Accounts.touched {s s' : Streams} {r : StreamRef} {failed : Prop} (ha : s.Accounts)
    (h : s.Touched r failed s') (hr : r < s.next) : s'.Accounts := by
  have hrx := h.moves.rx
  have htx := h.moves.tx
  refine ⟨?_, ?_, fun r' hr' => ?_, fun r' hr' => ?_, ?_, ?_, h.txWithin ha.txWithin⟩
  · rw [h.config, ← ha.rxSize]
    exact hrx.size
  · rw [h.config, ← ha.txSize]
    exact htx.size
  · rw [h.next] at hr'
    rw [h.config]
    by_cases hr'r : r' = r
    · subst hr'r
      exact hrx.base.trans (ha.inBase r' hr')
    · rw [h.others r' hr'r]
      exact ha.inBase r' hr'
  · rw [h.next] at hr'
    rw [h.config]
    by_cases hr'r : r' = r
    · subst hr'r
      exact h.wfOut _ _ (ha.wfOut r' hr')
    · rw [h.others r' hr'r]
      exact ha.wfOut r' hr'
  · have hsum := h.sum hr fun s => s.inbound.window.borrowed
    have hused := hrx.used
    have := ha.rxUsed
    dsimp only [ctx] at hused hsum
    omega
  · have hsum := h.sum hr fun s => s.outbound.ledger.window.borrowed
    have hused := htx.used
    have := ha.txUsed
    dsimp only [ctx] at hused hsum
    omega

/-- A stream that starts borrows nothing, so the accounts are kept. -/
theorem Accounts.created {s s' : Streams} {id : StreamId} (ha : s.Accounts)
    (h : s.Created id s') : s'.Accounts := by
  obtain ⟨-, hconfig, -, hflow⟩ := h.same
  have hzero : ∀ b, (Window.new b).borrowed = 0 := fun b => Nat.zero_sub b
  refine ⟨by rw [hflow, hconfig]; exact ha.rxSize, by rw [hflow, hconfig]; exact ha.txSize,
    fun r hr => ?_, fun r hr => ?_, ?_, ?_, by rw [hflow]; exact ha.txWithin⟩
  · rw [hconfig]
    rcases h.lt_cases hr with hr | rfl
    · rw [(h.old hr).1]
      exact ha.inBase r hr
    · rw [h.new.1]
      rfl
  · rw [hconfig]
    rcases h.lt_cases hr with hr | rfl
    · rw [(h.old hr).1]
      exact ha.wfOut r hr
    · rw [h.new.1]
      exact OutboundTraffic.wf_new _ _ _
  · rw [hflow, h.sum fun s => s.inbound.window.borrowed, ha.rxUsed]
    exact (Nat.add_eq_left.mpr (hzero _)).symm
  · rw [hflow, h.sum fun s => s.outbound.ledger.window.borrowed, ha.txUsed]
    exact (Nat.add_eq_left.mpr (hzero _)).symm

/-- Every step keeps the accounts. -/
theorem step_accounts {s s' : Streams} {a : Action} {o : Output} (ht : s.Tables) (ha : s.Accounts)
    (h : s.step a = .ok (o, s')) : s'.Accounts :=
  (step_stepped ht h).preserves ht ha
    (fun _ => ⟨ha.rxSize, ha.txSize, ha.inBase, ha.wfOut, ha.rxUsed, ha.txUsed, ha.txWithin⟩)
    (fun _ _ hc => ha.created hc) fun _ _ _ ha₁ hr htouched => ha₁.touched htouched hr

/-- The counters are right in every state that an endpoint reaches, whatever the peer does. -/
theorem accounts_of_run {role : RammuxRole} {config : RammuxConfig} {tr : List (Action × Output)}
    {s : Streams} (h : (machine role config).Run tr s) : s.Accounts :=
  h.invariant (I := fun _ s => s.Accounts) (accounts_new role config)
    fun _ _ _ _ _ hrun ha hstep => step_accounts (tables_of_run hrun) ha hstep

/-- A stream that the tables forgot is dead. -/
theorem Tables.dead_of_not_live {s : Streams} (ht : s.Tables) {r : StreamRef} (hr : r < s.next)
    (h : r ∉ s.live) : s.Dead r := by
  by_contra hd
  exact h (Finset.mem_filter.mpr ⟨Finset.mem_range.mpr hr, ht.listed r hr hd⟩)

/-- What a dead stream contributes nothing to is a sum over the live streams. -/
theorem Tables.sum_live {s : Streams} (ht : s.Tables) {g : StreamRef → ℕ}
    (hg : ∀ r < s.next, s.Dead r → g r = 0) :
    ∑ r ∈ Finset.range s.next, g r = ∑ r ∈ s.live, g r := by
  refine (Finset.sum_subset (Finset.filter_subset _ _) fun r hr hnot => ?_).symm
  have hlt := Finset.mem_range.mp hr
  exact hg r hlt (ht.dead_of_not_live hlt hnot)

/-- A stream borrows from the peer's pool what it has in flight beyond the base window. -/
theorem Accounts.out_borrowed {s : Streams} (ha : s.Accounts) {r : StreamRef} (hr : r < s.next) :
    (s.state r).outbound.ledger.window.borrowed =
      (s.state r).outbound.unacked - s.config.remoteRecvWindow := by
  rw [Window.borrowed, Window.borrowedAt, (ha.wfOut r hr).base]
  rfl

/-- A dead stream has nothing in flight. -/
theorem Accounts.out_dead {s : Streams} (ha : s.Accounts) {r : StreamRef} (hr : r < s.next)
    (hd : s.Dead r) : (s.state r).outbound.unacked = 0 :=
  (ha.wfOut r hr).received (StreamState.isDead_iff.mp hd).2.2

/-- A poll leaves a stream with no more borrowed bytes than it had, or than its allowance. -/
theorem pollUpdate_borrowed_le {s s' : Streams} {r : StreamRef} {allowance : ℚ≥0}
    {res : Poll StreamUpdate} (h : s.pollUpdate r allowance = .ok (res, s')) :
    (s'.state r).outbound.ledger.window.borrowed ≤
      max (s.state r).outbound.ledger.window.borrowed ⌊allowance⌋₊ := by
  rcases pollUpdate_state h with rfl | ⟨task, task', c, poll, -, hpoll, hstate⟩
  · exact le_max_left _ _
  · rw [hstate, Function.update_self]
    exact (StreamCtx.pollProgress_polled hpoll).borrowed_le

/-- The sender never overdraws, whatever the peer does. -/
theorem sender_never_overdraws {role : RammuxRole} {config : RammuxConfig}
    {tr : List (Action × Output)} {s : Streams} (h : (machine role config).Run tr s) :
    s.flow.txPool.used =
        ∑ r ∈ s.live, ((s.state r).outbound.unacked - config.remoteRecvWindow) ∧
      s.flow.txPool.used ≤ config.remoteRecvPool ∧
      (∀ r < s.next, r ∉ s.live → (s.state r).outbound.unacked - config.remoteRecvWindow = 0) ∧
      ∀ r < s.next, ∀ allowance o s', s.step (.poll r allowance) = .ok (o, s') →
        (s'.state r).outbound.unacked - config.remoteRecvWindow ≤
          max ((s.state r).outbound.unacked - config.remoteRecvWindow) ⌊allowance⌋₊ := by
  have ht := tables_of_run h
  have ha := accounts_of_run h
  obtain ⟨-, rfl⟩ := same_of_run h
  refine ⟨?_, ha.txSize ▸ ha.txWithin, fun r hr hnot => ?_, fun r hr allowance o s' hstep => ?_⟩
  · rw [ha.txUsed, ← ht.sum_live fun r hr hd => by rw [ha.out_dead hr hd, Nat.zero_sub]]
    exact Finset.sum_congr rfl fun r hr => ha.out_borrowed (Finset.mem_range.mp hr)
  · rw [ha.out_dead hr (ht.dead_of_not_live hr hnot), Nat.zero_sub]
  · have ha' := step_accounts ht ha hstep
    simp only [step, Lib.bind_eq_ok] at hstep
    obtain ⟨⟨res, s₁⟩, hpoll, hstep⟩ := hstep
    cases hstep
    have htouched := pollUpdate_touched hpoll ht hr
    have hborrowed' := ha'.out_borrowed (r := r) (by rwa [htouched.next])
    rw [htouched.config] at hborrowed'
    rw [← hborrowed', ← ha.out_borrowed hr]
    exact pollUpdate_borrowed_le hpoll

/-- A configuration whose windows and pools are a few bytes. -/
def tightConfig : RammuxConfig :=
  { RammuxConfig.new with
    localRecvWindow := 2
    remoteRecvWindow := 2
    localRecvPool := 3
    remoteRecvPool := 3
    localRecvWindow_pos := by decide
    localRecvWindow_lt := by decide
    remoteRecvWindow_pos := by decide
    remoteRecvWindow_lt := by decide
    localRecvPool_lt := by decide
    remoteRecvPool_lt := by decide }

/-- A stream with a base window of two bytes and an allowance of three sends five of six bytes, and
the pool of three bytes is used up. -/
theorem sender_never_overdraws_full : ∃ tr s, (machine .client tightConfig).Run tr s ∧
    (s.state 0).outbound.unacked = 5 ∧ s.flow.txPool.used = 3 ∧
    s.flow.txPool.used ≤ tightConfig.remoteRecvPool := by
  have h := Lib.Machine.Run.init (M := machine .client tightConfig)
    |>.step (a := .observe 1) rfl |>.step (a := .open 0) rfl
    |>.step (a := .app 0 (.write [1, 2, 3, 4, 5, 6])) rfl
    |>.step (a := .poll 0 3) (by with_unfolding_all rfl)
  exact ⟨_, _, h, by decide +kernel, by decide +kernel, (sender_never_overdraws h).2.1⟩

/-! ## What was received -/

/-- What an endpoint that reported no violation knows about what it received. -/
structure Held (s : Streams) : Prop where
  wfIn : ∀ r < s.next, (s.state r).inbound.WF s.config.localRecvWindow
  rxWithin : s.flow.rxPool.used ≤ s.flow.rxPool.size
  /-- The tables hold no dead streams. -/
  alive : ∀ id r, s.lookup id = some r → ¬ s.Dead r

/-- A new connection has received nothing. -/
theorem held_new (role : RammuxRole) (config : RammuxConfig) : (new role config).Held where
  wfIn r h := absurd h (Nat.not_lt_zero r)
  rxWithin := Nat.zero_le _
  alive id r h := absurd ((tables_new role config).lookup id r h).1 (Nat.not_lt_zero r)

/-- A stream that starts has received nothing. -/
theorem Held.created {s s' : Streams} {id : StreamId} (hh : s.Held) (ht : s.Tables)
    (h : s.Created id s') : s'.Held := by
  obtain ⟨-, hconfig, -, hflow⟩ := h.same
  refine ⟨fun r hr => ?_, by rw [hflow]; exact hh.rxWithin, fun id' r hr => ?_⟩
  · rw [hconfig]
    rcases h.lt_cases hr with hr | rfl
    · rw [(h.old hr).1]
      exact hh.wfIn r hr
    · rw [h.new.1]
      exact InboundTraffic.wf_new _
  · by_cases hid : id' = id
    · subst hid
      rw [h.lookup_self] at hr
      cases hr
      rw [Dead, h.new.1]
      exact Bool.false_ne_true
    · rw [h.lookup_ne id' hid] at hr
      rw [Dead, (h.old (ht.lookup id' r hr).1).1]
      exact hh.alive id' r hr

/-- What is done with one stream, without a violation, keeps what is known of what was received. -/
theorem Held.touched {s s' : Streams} {r : StreamRef} {failed : Prop} (hh : s.Held) (ht : s.Tables)
    (h : s.Touched r failed s') (hr : r < s.next) (hok : ¬ failed) : s'.Held := by
  obtain ⟨hwf, hpool⟩ := (h.wfIn _ (hh.wfIn r hr) hh.rxWithin).resolve_right fun hf => hok hf.1
  refine ⟨fun r' hr' => ?_, hpool, fun id r' hr' hd => ?_⟩
  · rw [h.next] at hr'
    rw [h.config]
    by_cases hne : r' = r
    · subst hne
      exact hwf
    · rw [h.others r' hne]
      exact hh.wfIn r' hr'
  · rcases h.lookup id with hl | ⟨-, -, -, hl⟩
    · rw [hl] at hr'
      have hnd := hh.alive id r' hr'
      by_cases hne : r' = r
      · subst hne
        have hnone := h.gone hok hd hnd
        rw [(ht.lookup id r' hr').2, hl, hr'] at hnone
        cases hnone
      · exact hnd ((h.dead_iff hne).mp hd)
    · rw [hl] at hr'
      cases hr'

/-- Every step without a violation keeps what is known of what was received. -/
theorem step_held {s s' : Streams} {a : Action} {o : Output} (ht : s.Tables) (hh : s.Held)
    (h : s.step a = .ok (o, s')) (hok : NoViolation (a, o)) : s'.Held := by
  have hfailed : ¬ ∃ v, o = .received (.error v) := fun ⟨v, hv⟩ => hok v hv
  exact (step_stepped ht h).preserves ht hh (fun _ => ⟨hh.wfIn, hh.rxWithin, hh.alive⟩)
    (fun _ _ hc => hh.created ht hc) fun _ _ ht₁ hh₁ hr htouched =>
      hh₁.touched ht₁ htouched hr hfailed

/-- An endpoint that reported no violation knows what it received. -/
theorem held_of_run {role : RammuxRole} {config : RammuxConfig} {tr : List (Action × Output)}
    {s : Streams} (h : (machine role config).Run tr s) (hok : ∀ e ∈ tr, NoViolation e) :
    s.Held := by
  have hreach : (machine role config).Reaches NoViolation s := ⟨tr, h, hok⟩
  refine hreach.invariant (held_new role config) fun s a o s' hr hh hstep hok => ?_
  obtain ⟨tr, hrun, -⟩ := hr
  exact step_held (tables_of_run hrun) hh hstep hok

/-- A stream borrows from the own pool what it has not returned beyond the base window. -/
theorem Accounts.in_borrowed {s : Streams} (ha : s.Accounts) {r : StreamRef} (hr : r < s.next) :
    (s.state r).inbound.window.borrowed =
      (s.state r).inbound.window.unacked - s.config.localRecvWindow := by
  rw [Window.borrowed, Window.borrowedAt, ha.inBase r hr]

/-- What a stream borrows from the receive pool is counted there. -/
theorem Accounts.in_borrowed_le {s : Streams} (ha : s.Accounts) {r : StreamRef} (hr : r < s.next) :
    (s.state r).inbound.window.borrowed ≤ s.flow.rxPool.used := by
  rw [ha.rxUsed]
  exact Finset.single_le_sum (f := fun r => (s.state r).inbound.window.borrowed)
    (fun _ _ => Nat.zero_le _) (Finset.mem_range.mpr hr)

/-- What a stream borrows from the peer's pool is counted there. -/
theorem Accounts.out_borrowed_le {s : Streams} (ha : s.Accounts) {r : StreamRef} (hr : r < s.next) :
    (s.state r).outbound.ledger.window.borrowed ≤ s.flow.txPool.used := by
  rw [ha.txUsed]
  exact Finset.single_le_sum (f := fun r => (s.state r).outbound.ledger.window.borrowed)
    (fun _ _ => Nat.zero_le _) (Finset.mem_range.mpr hr)

/-- A dead stream holds nothing. -/
theorem buffered_of_dead {s : Streams} {r : StreamRef} (hd : s.Dead r) :
    (s.state r).inbound.buffered = [] :=
  InboundTraffic.buffered_of_not_reading
    (InboundTraffic.not_reading_of_finSent (StreamState.isDead_iff.mp hd).1.1)

/-- The bytes held are bounded by the base windows of the live streams and a pool, if each stream
holds no more than its base window and a share of the pool. -/
theorem Tables.sum_buffered_le {s : Streams} (ht : s.Tables) {window pool : ℕ}
    (share : StreamRef → ℕ)
    (hle : ∀ r < s.next, (s.state r).inbound.bufferedLen ≤ window + share r)
    (hshare : ∑ r ∈ Finset.range s.next, share r ≤ pool) :
    ∑ r ∈ Finset.range s.next, (s.state r).inbound.bufferedLen ≤ s.live.card * window + pool := by
  calc ∑ r ∈ Finset.range s.next, (s.state r).inbound.bufferedLen
      = ∑ r ∈ s.live, (s.state r).inbound.bufferedLen :=
        ht.sum_live fun r _ hd => by rw [InboundTraffic.bufferedLen, buffered_of_dead hd]; rfl
    _ ≤ ∑ r ∈ s.live, (window + share r) := Finset.sum_le_sum fun r hr =>
        hle r (Finset.mem_range.mp (Finset.mem_filter.mp hr).1)
    _ = s.live.card * window + ∑ r ∈ s.live, share r := by
        rw [Finset.sum_add_distrib, Finset.sum_const, smul_eq_mul]
    _ ≤ s.live.card * window + ∑ r ∈ Finset.range s.next, share r := by
        gcongr
        exact Finset.filter_subset _ _
    _ ≤ s.live.card * window + pool := by gcongr

/-- All that is buffered fits in the base windows of the live streams and the pool. -/
theorem Held.sum_buffered_le {s : Streams} (hh : s.Held) (ht : s.Tables) (ha : s.Accounts) :
    ∑ r ∈ Finset.range s.next, (s.state r).inbound.bufferedLen ≤
      s.live.card * s.config.localRecvWindow + s.config.localRecvPool :=
  ht.sum_buffered_le _ (fun r hr => (hh.wfIn r hr).bufferedLen_le)
    (ha.rxUsed ▸ ha.rxSize ▸ hh.rxWithin)

/-- The bound on the bytes held survives the frame that fails the connection, too. -/
theorem step_sum_buffered_le {s s' : Streams} {a : Action} {o : Output} (ht : s.Tables)
    (ha : s.Accounts) (hh : s.Held) (h : s.step a = .ok (o, s')) :
    ∑ r ∈ Finset.range s'.next, (s'.state r).inbound.bufferedLen ≤
      s'.live.card * s'.config.localRecvWindow + s'.config.localRecvPool := by
  have ht' := step_tables ht h
  have ha' := step_accounts ht ha h
  -- What the frame does to one stream keeps the invariant, or leaves what is held as it was.
  have htouched : ∀ {s₁ : Streams} {r failed}, s₁.Tables → s₁.Accounts → s₁.Held → r < s₁.next →
      s₁.Touched r failed s' →
      ∑ r ∈ Finset.range s'.next, (s'.state r).inbound.bufferedLen ≤
        s'.live.card * s'.config.localRecvWindow + s'.config.localRecvPool := by
    intro s₁ r failed ht₁ ha₁ hh₁ hr htouch
    rcases htouch.wfIn _ (hh₁.wfIn r hr) hh₁.rxWithin with ⟨hwf, hpool⟩ | ⟨-, hbuffered⟩
    · refine ht'.sum_buffered_le _ (fun r' hr' => ?_) (ha'.rxUsed ▸ ha'.rxSize ▸ hpool)
      refine InboundTraffic.WF.bufferedLen_le ?_
      rw [htouch.config]
      by_cases hne : r' = r
      · subst hne
        exact hwf
      · rw [htouch.others r' hne]
        exact hh₁.wfIn r' (htouch.next ▸ hr')
    · refine ht'.sum_buffered_le (fun r' => (s₁.state r').inbound.window.borrowed)
        (fun r' hr' => ?_) ?_
      · have hle := (hh₁.wfIn r' (htouch.next ▸ hr')).bufferedLen_le
        have hsame : (s'.state r').inbound.buffered = (s₁.state r').inbound.buffered := by
          by_cases hne : r' = r
          · subst hne
            exact hbuffered
          · rw [htouch.others r' hne]
        rw [htouch.config, InboundTraffic.bufferedLen, hsame]
        exact hle
      · rw [htouch.next, htouch.config, ← ha₁.rxUsed, ← ha₁.rxSize]
        exact hh₁.rxWithin
  cases step_stepped ht h with
  | idle h => exact h ▸ hh.sum_buffered_le ht ha
  | observed rtt h =>
    refine Held.sum_buffered_le ?_ ht' ha'
    rw [h]
    exact ⟨hh.wfIn, hh.rxWithin, hh.alive⟩
  | created id h => exact (hh.created ht h).sum_buffered_le ht' ha'
  | touched r hr h => exact htouched ht ha hh hr h
  | accepted id s₁ h₁ h =>
    refine htouched (ht.created h₁) (ha.created h₁) (hh.created ht h₁) ?_ h
    rw [h₁.same.2.2.1]
    exact Nat.lt_succ_self _

/-- So it is in every run, and also when its last event is the first violation. -/
theorem sum_buffered_le_of_run {role : RammuxRole} {config : RammuxConfig}
    {tr : List (Action × Output)} {s : Streams} (h : (machine role config).Run tr s)
    (hlast : ∀ e ∈ tr.dropLast, NoViolation e) :
    ∑ r ∈ Finset.range s.next, (s.state r).inbound.bufferedLen ≤
      s.live.card * s.config.localRecvWindow + s.config.localRecvPool := by
  cases h with
  | init => exact Nat.zero_le _
  | step hrun hstep =>
    rw [List.dropLast_concat] at hlast
    exact step_sum_buffered_le (tables_of_run hrun) (accounts_of_run hrun)
      (held_of_run hrun hlast) hstep

/-! ## Credit -/

/-- The credit that an event sent on a stream. -/
def eventCredit (r : StreamRef) : Action × Output → ℕ
  | (.poll r' _, .polled (.ready update)) => if r' = r then update.credit.toNat else 0
  | _ => 0

/-- The bytes that the application read from a stream in an event. -/
def eventRead (r : StreamRef) : Action × Output → ℕ
  | (.app r' _, .app result) => if r' = r then result.readLen else 0
  | _ => 0

/-- The credit ever sent on a stream. -/
def creditSent (tr : List (Action × Output)) (r : StreamRef) : ℕ := (tr.map (eventCredit r)).sum

/-- The bytes that the application ever read from a stream. -/
def bytesRead (tr : List (Action × Output)) (r : StreamRef) : ℕ := (tr.map (eventRead r)).sum

/-- The bytes of a stream that were read and not credited. -/
def owed (s : Streams) (r : StreamRef) : ℕ := if r < s.next then (s.state r).inbound.credit else 0

/-- What a stream owes is its credit. -/
theorem owed_of_lt {s : Streams} {r : StreamRef} (hr : r < s.next) :
    s.owed r = (s.state r).inbound.credit := if_pos hr

/-- A new stream is owed nothing. -/
theorem Created.owed {s s' : Streams} {id : StreamId} (h : s.Created id s') (r : StreamRef) :
    s'.owed r = s.owed r := by
  have hnext := h.same.2.2.1
  by_cases hr : r < s.next
  · rw [owed_of_lt hr, owed_of_lt (hnext ▸ hr.trans (Nat.lt_succ_self _)), (h.old hr).1]
  · have hold : s.owed r = 0 := if_neg hr
    rw [hold]
    by_cases hr' : r < s'.next
    · rw [owed_of_lt hr']
      obtain rfl := (h.lt_cases hr').resolve_left hr
      rw [h.new.1]
      rfl
    · exact if_neg hr'

/-- The other streams are owed what they were. -/
theorem Touched.owed {s s' : Streams} {r r' : StreamRef} {failed : Prop}
    (h : s.Touched r' failed s') (hr : r ≠ r') : s'.owed r = s.owed r := by
  rw [Streams.owed, Streams.owed, h.next, h.others r hr]

/-- A frame is nothing to what the streams owe. -/
theorem deliver_owed {s s' : Streams} {r r' : StreamRef} {header : StreamHeader} {data : Bytes}
    {newStream : Option StreamRef} {res : Except StreamViolation (Option StreamRef)}
    (h : s.deliver r' header data newStream = .ok (res, s')) (hr' : s.lookup header.id = some r')
    (hid : header.id = s.ids r') : s'.owed r = s.owed r := by
  have htouched := deliver_touched h hr' hid
  by_cases hr : r = r'
  · subst hr
    obtain ⟨c, verdict, hrec, hres⟩ := deliver_eq_ok h
    have hstate : s'.state r = c.state := by
      rcases hres with ⟨e, -, -, rfl⟩ | ⟨fin, -, -, hrem⟩
      · exact put_state_self s r c
      · rw [removeIfDead_same hrem]
        exact put_state_self s r c
    rw [Streams.owed, Streams.owed, htouched.next, hstate, StreamCtx.received_credit hrec]
    rfl
  · exact htouched.owed hr

/-- A step sends no more credit than was owed, and only reading makes it more. -/
theorem step_credit {s s' : Streams} {a : Action} {o : Output} (ht : s.Tables)
    (h : s.step a = .ok (o, s')) (r : StreamRef) :
    eventCredit r (a, o) + s'.owed r ≤ s.owed r + eventRead r (a, o) := by
  cases a with
  | «open» key =>
    simp only [step] at h
    split at h
    · next hkey =>
      cases h
      -- A new stream is owed nothing.
      rcases openOutbound_cases hkey with hopen | ⟨id, s', hopen, -, -, hcreated⟩
      · simp [hopen, eventCredit, eventRead]
      · simp [hopen, eventCredit, eventRead, hcreated.owed r]
    · cases h
      simp [eventCredit, eventRead]
  | receive header data =>
    simp only [step, Lib.bind_eq_ok] at h
    obtain ⟨⟨res, s₁⟩, hrec, h⟩ := h
    cases h
    simp only [eventCredit, eventRead, zero_add, add_zero]
    rcases receive_eq_ok hrec with ⟨e, -, rfl⟩ | ⟨r', hr', -, hdel⟩ | ⟨hrole, hvacant, -, -, hdel⟩
    · exact le_rfl
    · -- A frame of the peer fills the buffer, but credit is owed for what was read only.
      exact (deliver_owed hdel hr' (ht.lookup _ _ hr').2.symm).le
    · have hcreated := accept_created hrole hvacant
      rw [deliver_owed hdel hcreated.lookup_self hcreated.new.2.1.symm, hcreated.owed r]
  | poll r' allowance =>
    simp only [step, Lib.bind_eq_ok] at h
    obtain ⟨⟨res, s₁⟩, hpoll, h⟩ := h
    cases h
    have hnext := pollUpdate_next hpoll
    rcases pollUpdate_sends hpoll with ⟨rfl, hsame⟩ | ⟨u, rfl, hsent⟩
    · have hstate : s₁.state = s.state := by rw [hsame]
      simp [eventCredit, eventRead, owed, hnext, hstate]
    · -- The credit that the update announces is taken from what was owed.
      by_cases hr : r = r'
      · subst hr
        obtain ⟨task, htask, -⟩ := hsent.task
        have hr := (ht.taskId r task htask).1
        simp only [eventCredit, eventRead, if_true, add_zero]
        rw [owed_of_lt hr, owed_of_lt (hnext ▸ hr)]
        exact hsent.inbound.credit_add_le
      · simp [eventCredit, eventRead, owed, hnext, (hsent.others r hr).1, Ne.symm hr]
  | app r' op =>
    simp only [step] at h
    split at h
    · next hr' =>
      simp only [Lib.bind_eq_ok] at h
      obtain ⟨⟨res, c⟩, happ, h⟩ := h
      cases h
      -- Reading is what the credit is owed for.
      have hcredit := StreamCtx.app_credit happ
      by_cases hr : r = r'
      · subst hr
        simp only [eventCredit, eventRead, if_true, zero_add]
        rw [owed_of_lt hr', owed_of_lt (s := s.put r c) hr', put_state_self, hcredit]
        exact le_rfl
      · simp [eventCredit, eventRead, Ne.symm hr, (app_touched happ).owed hr]
    · cases h
      simp [eventCredit, eventRead]
  | observe rtt =>
    cases h
    simp [eventCredit, eventRead, owed]

/-- The credit sent on a stream never exceeds the bytes its application has read. -/
theorem creditSent_le_bytesRead {role : RammuxRole} {config : RammuxConfig}
    {tr : List (Action × Output)} {s : Streams} (h : (machine role config).Run tr s)
    (r : StreamRef) : creditSent tr r + s.owed r ≤ bytesRead tr r := by
  refine h.invariant (I := fun tr s => creditSent tr r + s.owed r ≤ bytesRead tr r) ?_ ?_
  · exact le_rfl
  · intro tr s a o s' hrun ih hstep
    have hle := step_credit (tables_of_run hrun) hstep r
    simp only [creditSent, bytesRead, List.map_append, List.map_singleton, List.sum_append,
      List.sum_singleton] at ih ⊢
    omega

/-- The memory that a peer can make an endpoint use is bounded, up to and including the state right
after the frame that fails the connection. -/
theorem receive_memory_bounded {role : RammuxRole} {config : RammuxConfig}
    {tr : List (Action × Output)} {s : Streams} (h : (machine role config).Run tr s)
    (hlast : ∀ e ∈ tr.dropLast, NoViolation e) :
    ((∀ e ∈ tr, NoViolation e) →
      (∀ r < s.next, (s.state r).inbound.reading = true →
        (s.state r).inbound.window.unacked =
          (s.state r).inbound.bufferedLen + (s.state r).inbound.credit) ∧
      s.flow.rxPool.used =
        ∑ r ∈ s.live, ((s.state r).inbound.window.unacked - config.localRecvWindow) ∧
      s.flow.rxPool.used ≤ config.localRecvPool) ∧
    ∑ r ∈ Finset.range s.next, (s.state r).inbound.bufferedLen ≤
      s.live.card * config.localRecvWindow + config.localRecvPool ∧
    (∀ r < s.next, r ∉ s.live → (s.state r).inbound.buffered = []) ∧
    ∀ r, creditSent tr r ≤ bytesRead tr r := by
  have ht := tables_of_run h
  have ha := accounts_of_run h
  obtain ⟨-, rfl⟩ := same_of_run h
  refine ⟨fun hok => ?_, ?_, fun r hr hnot => ?_, fun r => ?_⟩
  · have hh := held_of_run h hok
    refine ⟨fun r hr => (hh.wfIn r hr).held, ?_, ha.rxSize ▸ hh.rxWithin⟩
    rw [ha.rxUsed, ← ht.sum_live fun r hr hd => ?_]
    · exact Finset.sum_congr rfl fun r hr => ha.in_borrowed (Finset.mem_range.mp hr)
    · rw [(hh.wfIn r hr).sent (StreamState.isDead_iff.mp hd).1.1, Nat.zero_sub]
  · exact sum_buffered_le_of_run h hlast
  · exact buffered_of_dead (ht.dead_of_not_live hr hnot)
  · have := creditSent_le_bytesRead h r
    omega

/-- The peer starts a stream with three bytes, and then sends three more than the pool has room
for. -/
theorem receive_memory_bounded_violation : ∃ tr s, (machine .server tightConfig).Run tr s ∧
    (∀ e ∈ tr.dropLast, NoViolation e) ∧
    tr.getLast?.map Prod.snd = some (.received (.error ⟨⟨0⟩, .exceededPool⟩)) ∧
    ∑ r ∈ Finset.range s.next, (s.state r).inbound.bufferedLen ≤
      s.live.card * tightConfig.localRecvWindow + tightConfig.localRecvPool := by
  have h := Lib.Machine.Run.init (M := machine .server tightConfig)
    |>.step (a := .receive ⟨⟨0⟩, { syn := true }, none, none⟩ [1, 2, 3]) rfl
    |>.step (a := .receive ⟨⟨0⟩, {}, none, none⟩ [4, 5, 6]) rfl
  refine ⟨_, _, h, ?_, rfl, (receive_memory_bounded h ?_).2.1⟩
  all_goals
    intro e he v
    rw [List.mem_singleton.mp he]
    exact nofun

/-! ## An endpoint in order -/

/-- An endpoint that reported no violation is in order. -/
structure Sane (role : RammuxRole) (config : RammuxConfig) (s : Streams) : Prop where
  role : s.role = role
  config : s.config = config
  tables : s.Tables
  accounts : s.Accounts
  held : s.Held

/-- A new connection is in order. -/
theorem sane_new (role : RammuxRole) (config : RammuxConfig) : (new role config).Sane role config :=
  ⟨rfl, rfl, tables_new _ _, accounts_new _ _, held_new _ _⟩

/-- Every step without a violation leaves the connection in order. -/
theorem step_sane {role : RammuxRole} {config : RammuxConfig} {s s' : Streams} {a : Action}
    {o : Output} (hs : s.Sane role config) (h : s.step a = .ok (o, s')) (hok : NoViolation (a, o)) :
    s'.Sane role config := by
  have hsame := (step_stepped hs.tables h).preserves
    (I := fun s => s.role = role ∧ s.config = config) hs.tables ⟨hs.role, hs.config⟩
    (fun _ => ⟨hs.role, hs.config⟩)
    (fun _ _ hc => by rw [hc.same.1, hc.same.2.1]; exact ⟨hs.role, hs.config⟩)
    fun _ _ _ hsame _ ht => by rwa [ht.role, ht.config]
  exact ⟨hsame.1, hsame.2, step_tables hs.tables h, step_accounts hs.tables hs.accounts h,
    step_held hs.tables hs.held h hok⟩

/-- After a run without a violation, an endpoint is in order. -/
theorem sane_of_reaches {role : RammuxRole} {config : RammuxConfig} {s : Streams}
    (h : (machine role config).Reaches NoViolation s) : s.Sane role config := by
  obtain ⟨tr, hrun, hok⟩ := h
  obtain ⟨hrole, hconfig⟩ := same_of_run hrun
  exact ⟨hrole, hconfig, tables_of_run hrun, accounts_of_run hrun, held_of_run hrun hok⟩

/-- A stream that starts leaves the connection in order. -/
theorem Sane.created {role : RammuxRole} {config : RammuxConfig} {s s' : Streams} {id : StreamId}
    (hs : s.Sane role config) (h : s.Created id s') : s'.Sane role config :=
  ⟨h.same.1.trans hs.role, h.same.2.1.trans hs.config, hs.tables.created h, hs.accounts.created h,
    hs.held.created hs.tables h⟩

variable {role : RammuxRole} {config : RammuxConfig} {s : Streams} {r : StreamRef}

/-- The receive counters of a stream and of the pool are far from the end of their type. -/
theorem Sane.rx_lt (hs : s.Sane role config) (hr : r < s.next) :
    s.flow.rxPool.used + (s.state r).inbound.window.unacked < 2^34 := by
  have hle := hs.accounts.in_borrowed_le hr
  have hwithin := hs.held.rxWithin
  rw [hs.accounts.rxSize, hs.config] at hwithin
  have hpool := config.localRecvPool_lt
  have hwindow := config.localRecvWindow_lt
  have hbase := hs.accounts.in_borrowed hr
  rw [hs.config] at hbase
  omega

/-- The send counters of a stream and of the pool are far from the end of their type. -/
theorem Sane.tx_lt (hs : s.Sane role config) (hr : r < s.next) :
    s.flow.txPool.used + (s.state r).outbound.unacked < 2^34 := by
  have hle := hs.accounts.out_borrowed_le hr
  have hwithin := hs.accounts.txWithin
  rw [hs.accounts.txSize, hs.config] at hwithin
  have hpool := config.remoteRecvPool_lt
  have hwindow := config.remoteRecvWindow_lt
  have hbase := hs.accounts.out_borrowed hr
  rw [hs.config] at hbase
  unfold OutboundTraffic.unacked at hbase ⊢
  omega

end Streams

end Rammux
