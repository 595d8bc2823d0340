import Rammux.Connection.History

/-!
# Violations are detected exactly

An endpoint refuses a frame exactly when the frame breaks the rules of the history
(`violations_exact`). What a stream checks when it is handed a frame is `StreamCtx.Accepts`; the
history says the same of the stream (`Agrees.accepts`), and the pool counts what the live streams
use according to it (`Remembers.share`).
-/

namespace Rammux

/-- The stream accepts the frame: every part of it is one that the peer may send, and the receive
pool has room for its data. -/
structure StreamCtx.Accepts (c : StreamCtx) (header : StreamHeader) (data : Bytes) : Prop where
  window : header.credit ≠ none → c.state.outbound.finReceived = false
  credit_le : creditLen header.credit ≤ c.state.outbound.unacked
  dataOpen : data ≠ [] → c.state.inbound.ended = false
  finWrite : header.flags.finWrite = true → c.state.inbound.ended = false
  finRead : header.flags.finRead = true → c.state.outbound.finReceived = false
  room : c.state.inbound.finSent = false → c.flow.rxPool.used +
      Window.borrowedAt (c.state.inbound.window.unacked + data.length)
        c.state.inbound.window.base ≤
    c.flow.rxPool.size + c.state.inbound.window.borrowed

/-- What a stream needs to answer a frame at all: the pools count what its windows borrow. -/
structure StreamCtx.Counted (c : StreamCtx) : Prop where
  rx : c.state.inbound.window.borrowed ≤ c.flow.rxPool.used
  rx_lt : c.flow.rxPool.used + c.state.inbound.window.unacked + 2^16 < 2^64
  tx : c.state.outbound.ledger.window.borrowed ≤ c.flow.txPool.used
  tx_lt : c.flow.txPool.used + c.state.outbound.unacked < 2^64

/-- A stream accepts a frame, or refuses it with an error. -/
theorem StreamCtx.received_accepts {c : StreamCtx} {header : StreamHeader} {data : Bytes}
    {me : StreamRef} {b : ℕ} (hc : c.Counted) (hw : c.state.inbound.WF b)
    (hpool : c.flow.rxPool.used ≤ c.flow.rxPool.size) (hlen : data.length < 2^16) :
    ∃ verdict c', c.received header.credit data header.flags me = .ok (verdict, c') ∧
      ((∃ fin, verdict = .ok fin) ↔ c.Accepts header data) := by
  have hrx_lt : c.flow.rxPool.used + c.state.inbound.window.unacked + data.length < 2^64 := by
    have := hc.rx_lt
    omega
  have hreturns : ∃ r, c.received header.credit data header.flags me = .ok r :=
    received_returns hc.rx hrx_lt hc.tx hc.tx_lt
  obtain ⟨⟨verdict, c'⟩, hrec⟩ := hreturns
  refine ⟨verdict, c', hrec, ?_, fun hacc => ?_⟩
  · rintro ⟨fin, rfl⟩
    obtain ⟨hin, hout, -⟩ := received_eq_ok hrec
    refine ⟨fun hcredit => hout.creditOpen ?_, hout.credit_le, hin.dataOpen, hin.finOpen,
      hout.finOpen, fun hfin => ?_⟩
    · obtain ⟨k, hk⟩ := Option.ne_none_iff_exists'.mp hcredit
      rw [hk]
      exact k.toNat_pos
    · -- The pool is not overdrawn after the frame, and it counts what the window borrows.
      have hwithin : c'.flow.rxPool.used ≤ c'.flow.rxPool.size := by
        rcases received_inbound hrec hw hpool with ⟨-, hle⟩ | ⟨⟨e, he⟩, -⟩
        · exact hle
        · cases he
      have hmoves := (received_keeps hrec).1.rx
      have hused := hmoves.used
      have hunacked := hin.unacked
      rw [hfin] at hunacked
      simp only [Bool.false_eq_true, if_false] at hunacked
      rw [Window.borrowed, Window.borrowed, hunacked, hmoves.base] at hused
      rw [hmoves.size] at hwithin
      rw [Window.borrowed]
      omega
  · have haccepted : ∃ fin c', c.received header.credit data header.flags me = .ok (.ok fin, c') :=
      received_ok hacc.window hacc.credit_le hacc.dataOpen hacc.finWrite hacc.finRead hacc.room
        hc.rx hrx_lt hc.tx hc.tx_lt
    obtain ⟨fin, c'', haccepted⟩ := haccepted
    rw [hrec] at haccepted
    cases haccepted
    exact ⟨fin, rfl⟩

/-- The history says of a live stream what the stream itself would check, but for the pool. -/
theorem StreamRecord.Agrees.accepts {e : StreamRecord} {c : StreamCtx} {header : StreamHeader}
    {data : Bytes} (h : e.Agrees c.state) :
    c.Accepts header data ↔ ¬ History.BreaksWindow e header ∧ ¬ History.BreaksFin e header data ∧
      (c.state.inbound.finSent = false → c.flow.rxPool.used +
          Window.borrowedAt (c.state.inbound.window.unacked + data.length)
            c.state.inbound.window.base ≤
        c.flow.rxPool.size + c.state.inbound.window.borrowed) := by
  have hnone : header.credit = none → creditLen header.credit = 0 := by
    intro hnone
    rw [hnone]
    rfl
  unfold History.BreaksWindow History.BreaksFin
  rw [← h.finReadReceived, ← h.finWriteReceived]
  constructor
  · -- What the stream accepts breaks no rule.
    intro ha
    refine ⟨?_, ?_, ha.room⟩
    · rintro ⟨hcredit, hrec | hlt⟩
      · rw [ha.window hcredit] at hrec
        cases hrec
      · have hsum := h.sent (ha.window hcredit)
        have hle := ha.credit_le
        omega
    · rintro (⟨hdata | hfin, hended⟩ | ⟨hfin, hrec⟩)
      · rw [ha.dataOpen hdata] at hended
        cases hended
      · rw [ha.finWrite hfin] at hended
        cases hended
      · rw [ha.finRead hfin] at hrec
        cases hrec
  · -- What breaks no rule the stream accepts, check by check.
    rintro ⟨hwindow, hfins, hroom⟩
    refine ⟨fun hcredit => ?_, ?_, fun hdata => ?_, fun hfin => ?_, fun hfin => ?_, hroom⟩
    · exact Bool.eq_false_iff.mpr fun hrec => hwindow ⟨hcredit, .inl hrec⟩
    · by_cases hcredit : header.credit = none
      · rw [hnone hcredit]
        exact Nat.zero_le _
      · have hrec : c.state.outbound.finReceived = false :=
          Bool.eq_false_iff.mpr fun hrec => hwindow ⟨hcredit, .inl hrec⟩
        have hsum := h.sent hrec
        have hle : ¬ e.bytesSent - e.creditReceived < creditLen header.credit := fun hlt =>
          hwindow ⟨hcredit, .inr hlt⟩
        omega
    · exact Bool.eq_false_iff.mpr fun hended => hfins (.inl ⟨.inl hdata, hended⟩)
    · exact Bool.eq_false_iff.mpr fun hended => hfins (.inl ⟨.inr hfin, hended⟩)
    · exact Bool.eq_false_iff.mpr fun hrec => hfins (.inr ⟨hfin, hrec⟩)

/-! ## The pool and the tables -/

namespace Streams

variable {s : Streams} {r : StreamRef} {h : History}

/-- A stream can answer any frame. -/
theorem counted (ha : s.Accounts) (hh : s.Held) (hr : r < s.next) : (s.ctx r).Counted := by
  have hrx := ha.in_borrowed_le hr
  have htx := ha.out_borrowed_le hr
  have hrxle := hh.rxWithin
  have htxle := ha.txWithin
  have hrxsize := ha.rxSize
  have htxsize := ha.txSize
  have hin := ha.in_borrowed hr
  have hout := ha.out_borrowed hr
  have hpool := s.config.localRecvPool_lt
  have hpool' := s.config.remoteRecvPool_lt
  have hwindow := s.config.localRecvWindow_lt
  have hwindow' := s.config.remoteRecvWindow_lt
  refine ⟨hrx, ?_, htx, ?_⟩
  · simp only [ctx]
    omega
  · simp only [ctx]
    omega

end Streams

namespace History.Remembers

variable {h : History} {s : Streams} {r : StreamRef}

/-- What a stream borrows is what it uses of the pool according to the frames. -/
theorem share_eq (hm : h.Remembers s) (ht : s.Tables) (ha : s.Accounts) (hh : s.Held)
    {id : StreamId} (hr : s.lookup id = some r) :
    (h.records id).share s.config.localRecvWindow = (s.state r).inbound.window.borrowed := by
  have hrn := (ht.lookup id r hr).1
  have hagrees := hm.records id r hr
  rw [ha.in_borrowed hrn, StreamRecord.share, ← hagrees.finReadSent]
  split_ifs with hfin
  · rw [(hh.wfIn r hrn).sent hfin, Nat.zero_sub]
  · have hsum := hagrees.received (Bool.eq_false_iff.mpr hfin)
    omega

/-- A sum over the live streams of the history is a sum over the streams in the tables. -/
theorem sum_live (hm : h.Remembers s) (ht : s.Tables) (f : StreamId → ℕ) :
    ∑ id ∈ h.live, f id = ∑ r ∈ s.live, f (s.ids r) := by
  have hmem : ∀ r, r ∈ s.live ↔ r < s.next ∧ s.lookup (s.ids r) = some r := by
    intro r
    rw [Streams.live, Finset.mem_filter, Finset.mem_range]
  have hlive : h.live = s.live.image s.ids := by
    ext id
    rw [hm.live, Finset.mem_image, Option.ne_none_iff_exists']
    constructor
    · rintro ⟨r, hr⟩
      obtain ⟨hrn, hid⟩ := ht.lookup id r hr
      exact ⟨r, (hmem r).mpr ⟨hrn, by rw [hid, hr]⟩, hid⟩
    · rintro ⟨r, hr, rfl⟩
      exact ⟨r, ((hmem r).mp hr).2⟩
  rw [hlive, Finset.sum_image]
  intro r hr r' hr' hid
  have hr := ((hmem r).mp hr).2
  have hr' := ((hmem r').mp hr').2
  rw [show s.ids r = s.ids r' from hid, hr'] at hr
  exact (Option.some.inj hr).symm

/-- The pool counts what the live streams use of it according to the frames. -/
theorem pool_used (hm : h.Remembers s) (ht : s.Tables) (ha : s.Accounts) (hh : s.Held) :
    s.flow.rxPool.used = ∑ id ∈ h.live, (h.records id).share s.config.localRecvWindow := by
  have hdead : ∀ r < s.next, s.Dead r → (s.state r).inbound.window.borrowed = 0 := by
    intro r hr hdead
    have hsent := (StreamState.isDead_iff.mp hdead).1.1
    rw [ha.in_borrowed hr, (hh.wfIn r hr).sent hsent, Nat.zero_sub]
  rw [ha.rxUsed, ht.sum_live hdead, hm.sum_live ht]
  refine Finset.sum_congr rfl fun r hr => ?_
  rw [Streams.live, Finset.mem_filter] at hr
  exact (hm.share_eq ht ha hh hr.2).symm

/-- The table of the peer's streams holds those that are live according to the frames. -/
theorem peers_card (hm : h.Remembers s) (ht : s.Tables) :
    s.inbound.entries.length = {id ∈ h.live | id.initiatedBy ≠ s.role}.card := by
  have hkeys : s.inbound.keys.toFinset = {id ∈ h.live | id.initiatedBy ≠ s.role} := by
    ext id
    rw [List.mem_toFinset, Finset.mem_filter, hm.live]
    constructor
    · intro hid
      have hrole := ht.peers id hid
      rw [Streams.lookup_peer hrole]
      exact ⟨fun hnone => AList.lookup_eq_none.mp hnone hid, hrole⟩
    · rintro ⟨hid, hrole⟩
      rw [Streams.lookup_peer hrole] at hid
      by_contra hnot
      exact hid (AList.lookup_eq_none.mpr hnot)
  rw [← hkeys, List.toFinset_card_of_nodup s.inbound.keys_nodup, AList.keys, List.keys,
    List.length_map]

/-- With the data of a frame, a live stream uses the pool as the frames say. -/
theorem room_iff (hm : h.Remembers s) (ht : s.Tables) (ha : s.Accounts) (hh : s.Held)
    {header : StreamHeader} {data : Bytes} (hr : s.lookup header.id = some r) :
    ((s.state r).inbound.finSent = false → s.flow.rxPool.used +
        Window.borrowedAt ((s.state r).inbound.window.unacked + data.length)
          (s.state r).inbound.window.base ≤
      s.flow.rxPool.size + (s.state r).inbound.window.borrowed) ↔
      ¬ h.BreaksPool s.config header data := by
  have hrn := (ht.lookup _ r hr).1
  have hagrees := hm.records _ r hr
  have hlive : header.id ∈ h.live := (hm.live _).mpr (by rw [hr]; exact Option.some_ne_none r)
  have hshare := hm.share_eq ht ha hh hr
  have hused := hm.pool_used ht ha hh
  -- The pool is used by the stream of the frame and by the others, which the frame is nothing to.
  rw [← Finset.add_sum_erase _ _ hlive, hshare] at hused
  unfold BreaksPool
  rw [← Finset.add_sum_erase _ _ hlive, if_pos rfl, ← hagrees.finReadSent]
  have hrest : ∑ id ∈ h.live.erase header.id, (if id = header.id
      then ({ h.records id with
        bytesReceived := (h.records id).bytesReceived + data.length } : StreamRecord)
      else h.records id).share s.config.localRecvWindow =
      ∑ id ∈ h.live.erase header.id, (h.records id).share s.config.localRecvWindow := by
    refine Finset.sum_congr rfl fun id hid => ?_
    rw [if_neg (Finset.ne_of_mem_erase hid)]
  rw [hrest, ha.rxSize, ha.inBase r hrn]
  generalize ∑ id ∈ h.live.erase header.id, (h.records id).share s.config.localRecvWindow = rest
    at hused ⊢
  -- A stream that has sent `FIN_READ` takes no room, and is not checked.
  by_cases hfin : (s.state r).inbound.finSent = true
  · simp only [hfin, Bool.true_eq_false, false_imp_iff, false_and, and_false, not_false_iff]
  · have hfin' := Bool.eq_false_iff.mpr hfin
    have hsum := hagrees.received hfin'
    have hrec : (h.records header.id).finReadSent = false := hagrees.finReadSent.symm.trans hfin'
    have hwithin := hh.rxWithin
    rw [ha.rxSize] at hwithin
    simp only [hfin', true_imp_iff, true_and, StreamRecord.share, hrec, Bool.false_eq_true,
      if_false, Window.borrowedAt, not_and, not_lt]
    -- A frame without data is not checked either: what is used stays within the pool.
    by_cases hdata : data = []
    · subst hdata
      have hin := ha.in_borrowed hrn
      simp only [ne_eq, not_true_eq_false, false_imp_iff, iff_true, List.length_nil]
      omega
    · simp only [ne_eq, hdata, not_false_eq_true, true_imp_iff]
      omega

end History.Remembers

namespace Streams

variable {s : Streams} {r : StreamRef} {h : History}

/-- A stream that is handed a frame refuses it exactly when the frame breaks the rules of its
history. -/
theorem deliver_breaks (hm : h.Remembers s) (ht : s.Tables) (ha : s.Accounts) (hh : s.Held)
    {header : StreamHeader} {data : Bytes} (hr : s.lookup header.id = some r)
    (hlen : data.length < 2^16) (newStream : Option StreamRef) :
    ∃ res s', s.deliver r header data newStream = .ok (res, s') ∧
      ((∃ v, res = .error v) ↔
        History.BreaksWindow (h.records header.id) header ∨
          History.BreaksFin (h.records header.id) header data ∨
          h.BreaksPool s.config header data) := by
  have hrn := (ht.lookup _ r hr).1
  obtain ⟨verdict, c, hrec, hiff⟩ : ∃ verdict c,
      (s.ctx r).received header.credit data header.flags r = .ok (verdict, c) ∧
        ((∃ fin, verdict = .ok fin) ↔ (s.ctx r).Accepts header data) := StreamCtx.received_accepts
    (counted ha hh hrn) (hh.wfIn r hrn) hh.rxWithin hlen
  -- What the stream checks, said of the history: its window, its `FIN_*`s and the pool.
  have hacc : (s.ctx r).Accepts header data ↔ _ := (hm.records _ r hr).accepts
  rw [show (s.ctx r).state = s.state r from rfl, show (s.ctx r).flow = s.flow from rfl,
    hm.room_iff ht ha hh hr] at hacc
  cases verdict with
  | error e =>
    refine ⟨.error ⟨header.id, e⟩, s.put r c, ?_, iff_of_true ⟨_, rfl⟩ ?_⟩
    · rw [deliver, hrec]
      rfl
    · have hnot : ¬ (s.ctx r).Accepts header data := fun hacc => by
        obtain ⟨fin, hfin⟩ := hiff.mpr hacc
        cases hfin
      rw [hacc] at hnot
      tauto
  | ok fin =>
    have hlookup : (s.put r c).lookup header.id = some r := hr
    obtain ⟨s', hrem⟩ := removeIfDead_ok fin hlookup
    refine ⟨.ok newStream, s', ?_, iff_of_false ?_ ?_⟩
    · exact Lib.bind_eq_ok.mpr ⟨_, hrec, Lib.bind_eq_ok.mpr ⟨s', hrem, rfl⟩⟩
    · rintro ⟨v, hv⟩
      cases hv
    · have hnot := hacc.mp (hiff.mp ⟨fin, rfl⟩)
      tauto

/-- An endpoint refuses a frame exactly when the frame breaks the rules of the history that it
remembers. -/
theorem receive_breaks (hm : h.Remembers s) (ht : s.Tables) (ha : s.Accounts) (hh : s.Held)
    (header : StreamHeader) (data : Bytes) (hlen : data.length < 2^16) :
    ∃ res s', s.receive header data = .ok (res, s') ∧
      ((∃ v, res = .error v) ↔ h.Breaks s.role s.config header data) := by
  have hlive := hm.live header.id
  have hcard := hm.peers_card ht
  unfold History.Breaks History.BreaksSyn History.syn
  cases hsyn : header.flags.syn with
  | false =>
    simp only [Bool.false_eq_true, if_false]
    cases hr : s.lookup header.id with
    | none =>
      -- The frame names no live stream.
      have hnot : header.id ∉ h.live := fun hmem => hlive.mp hmem hr
      refine ⟨.error ⟨header.id, .unknownStream⟩, s, ?_, iff_of_true ⟨_, rfl⟩ (.inl hnot)⟩
      unfold lookup at hr
      unfold receive
      dsimp only
      split_ifs at hr with hrole
      · rw [if_pos hrole, if_neg (by simp [hsyn]), hr]
      · rw [if_neg hrole, hr]
        exact if_neg (by simp [hsyn])
    | some r =>
      obtain ⟨res, s', hdel, hiff⟩ := deliver_breaks hm ht ha hh hr hlen none
      refine ⟨res, s', (receive_of_lookup hr hsyn).trans hdel, hiff.trans ?_⟩
      have hmem : header.id ∈ h.live := hlive.mpr (by rw [hr]; exact Option.some_ne_none r)
      simp only [hmem, not_true_eq_false, false_or]
  | true =>
    simp only [if_true]
    by_cases hrole : header.id.initiatedBy = s.role
    · refine ⟨.error ⟨header.id, .wrongPool⟩, s, ?_, iff_of_true ⟨_, rfl⟩ (.inl (.inl hrole))⟩
      unfold receive
      dsimp only
      rw [if_pos hrole, if_pos hsyn]
    · cases hr : s.lookup header.id with
      | some r =>
        have hmem : header.id ∈ h.live := hlive.mpr (by rw [hr]; exact Option.some_ne_none r)
        refine ⟨.error ⟨header.id, .occupiedId⟩, s, ?_,
          iff_of_true ⟨_, rfl⟩ (.inl (.inr (.inl hmem)))⟩
        rw [lookup_peer hrole] at hr
        unfold receive
        dsimp only
        rw [if_neg hrole, hr]
        exact if_pos hsyn
      | none =>
        have hnot : header.id ∉ h.live := fun hmem => hlive.mp hmem hr
        by_cases hlimit : s.config.maxInboundStreams ≤ s.inbound.entries.length
        · refine ⟨.error ⟨header.id, .tooManyStreams⟩, s, ?_,
            iff_of_true ⟨_, rfl⟩ (.inl (.inr (.inr (hcard ▸ hlimit))))⟩
          rw [lookup_peer hrole] at hr
          unfold receive
          dsimp only
          rw [if_neg hrole, hr]
          exact (if_pos hsyn).trans (if_pos hlimit)
        · -- The frame starts a stream, and its other parts are the stream's first.
          have hcreated := accept_created hrole hr
          obtain ⟨res, s', hdel, hiff⟩ := deliver_breaks (hm.created ht hcreated)
            (ht.created hcreated) (ha.created hcreated) (hh.created ht hcreated)
            hcreated.lookup_self hlen (some s.next)
          refine ⟨res, s', (receive_of_vacant hrole hr hsyn (by omega)).trans hdel,
            hiff.trans ?_⟩
          rw [hcreated.same.2.1]
          simp only [hrole, hnot, ← hcard, hlimit, or_self, false_or]

/-- Violations are detected exactly: after any run without a violation, an endpoint refuses the next
frame if and only if the frame breaks the rules that `PROTOCOL.md` states over the history of the
frames. -/
theorem violations_exact {role : RammuxRole} {config : RammuxConfig} {tr : List (Action × Output)}
    {s : Streams} (h : (machine role config).Run tr s) (hok : ∀ e ∈ tr, NoViolation e)
    (header : StreamHeader) (data : Bytes) (hlen : data.length < 2^16) :
    ∃ res s', s.receive header data = .ok (res, s') ∧
      ((∃ v, res = .error v) ↔ (History.ofTrace role tr).Breaks role config header data) := by
  have hm := remembers_of_run h hok
  have hbreaks := receive_breaks hm (tables_of_run h) (accounts_of_run h) (held_of_run h hok) header
    data hlen
  rwa [(same_of_run h).1, (same_of_run h).2] at hbreaks

/-- The peer starts a stream with five bytes, all that the window and the pool have room for. One
byte more breaks the rules, and is refused. -/
theorem violations_exact_pool :
    let tr : List (Action × Output) :=
      [(.receive ⟨⟨0⟩, { syn := true }, none, none⟩ [1, 2, 3, 4, 5], .received (.ok (some 0)))]
    (History.ofTrace .server tr).Breaks .server tightConfig ⟨⟨0⟩, {}, none, none⟩ [6] ∧
      ∃ s, (machine .server tightConfig).Run tr s ∧ (∀ e ∈ tr, NoViolation e) ∧
        ∃ v s', s.receive ⟨⟨0⟩, {}, none, none⟩ [6] = .ok (.error v, s') := by
  intro tr
  have hbreaks : (History.ofTrace .server tr).Breaks .server tightConfig
      ⟨⟨0⟩, {}, none, none⟩ [6] := .inr (.inr (.inr ⟨by decide, by decide, by decide⟩))
  have h := Lib.Machine.Run.init (M := machine .server tightConfig)
    |>.step (a := .receive ⟨⟨0⟩, { syn := true }, none, none⟩ [1, 2, 3, 4, 5]) rfl
  have hok : ∀ e ∈ tr, NoViolation e := by
    intro e he v
    rw [List.mem_singleton.mp he]
    exact nofun
  obtain ⟨res, s', hrec, hiff⟩ := violations_exact h hok ⟨⟨0⟩, {}, none, none⟩ [6] (by decide)
  obtain ⟨v, rfl⟩ := hiff.mpr hbreaks
  exact ⟨hbreaks, _, h, hok, v, s', hrec⟩

end Streams

end Rammux
