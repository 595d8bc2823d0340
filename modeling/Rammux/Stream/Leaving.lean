import Rammux.Stream.Waiting

/-!
# What an aborted stream leaves to its application

A stream is aborted when its connection is gone, also when it is gone because of a violation. The
invariant of the receiving direction does not survive a violation: bytes that overdraw the pool are
counted, and not held. `InboundTraffic.Readable` is the part of it that does, and it is what reading
needs. The abort leaves it, and the chunks that were received (`buffered_receivedFinWrite`); nothing
can be written any more (`writing_abort`).

While the application has not closed reading (`InboundTraffic.Unclosed`), every chunk that a frame
brings is held until it is read.
-/

namespace Rammux

namespace InboundTraffic

/-- What reading needs: a half-closed direction has data, and the bytes that are held or were read
are counted in a `u64`. -/
structure Readable (t : InboundTraffic) : Prop where
  halfClosed : ∀ readyData, t.state = .halfClosed readyData → readyData ≠ []
  held : t.reading = true → t.bufferedLen + t.credit ≤ t.window.unacked
  lt : t.window.unacked < 2^64

/-- A new direction is readable. -/
theorem readable_new (base : ℕ) : (new base).Readable where
  halfClosed _ h := nomatch h
  held _ := Nat.le_refl 0
  lt := Nat.two_pow_pos 64

/-- A direction that nobody reads is readable: it gives the end of the stream. -/
theorem Readable.of_not_reading {t : InboundTraffic} (h : t.reading = false)
    (hlt : t.window.unacked < 2^64) : t.Readable where
  halfClosed readyData hs := by
    rw [reading, hs] at h
    cases h
  held hr := Bool.noConfusion (h.symm.trans hr)
  lt := hlt

/-- A direction that holds what it counts is readable. -/
theorem WF.readable {t : InboundTraffic} {b : ℕ} (hw : t.WF b) (hlt : t.window.unacked < 2^64) :
    t.Readable where
  halfClosed := hw.halfClosed
  held hr := (hw.held hr).ge
  lt := hlt

variable {t t' : InboundTraffic} {me : StreamRef} {wk wk' : Wakes}

/-- Reading never panics: a half-closed direction has data, and the credit is never more than the
bytes counted. -/
theorem Readable.pollRead_ok (h : t.Readable) (waker : Waker) (me : StreamRef) (wk : Wakes) :
    ∃ r, t.pollRead waker me wk = .ok r := by
  have htook : ∀ (t₁ : InboundTraffic) (data : Bytes) (wk₁ : Wakes),
      t₁.credit + data.length < 2^64 → ∃ r, t₁.took data me wk₁ = .ok r := by
    intro t₁ data wk₁ hc
    exact ⟨_, Lib.bind_eq_ok.mpr ⟨_, u64Add_eq_ok.mpr ⟨hc, rfl⟩, rfl⟩⟩
  have hcount : ∀ data rest, t.buffered = data :: rest → t.reading = true →
      t.credit + data.length < 2^64 := by
    intro data rest hb hr
    have hheld := h.held hr
    have hlt := h.lt
    simp only [bufferedLen, hb, List.map_cons, List.sum_cons] at hheld
    omega
  unfold InboundTraffic.pollRead
  split
  · exact ⟨_, rfl⟩
  · next data rest reader hs =>
    exact htook _ _ _ (hcount data rest (by simp [buffered, hs]) (by simp [reading, hs]))
  · next hs => exact absurd rfl (h.halfClosed [] hs)
  · next data hs =>
    exact htook _ _ _ (hcount data [] (by simp [buffered, hs]) (by simp [reading, hs]))
  · next data next rest hs =>
    exact htook _ _ _ (hcount data (next :: rest) (by simp [buffered, hs]) (by simp [reading, hs]))
  · exact ⟨_, rfl⟩

/-- A read leaves the direction readable. -/
theorem Readable.pollRead {waker : Waker} {res : Poll (Option Bytes)} (hr : t.Readable)
    (h : t.pollRead waker me wk = .ok (res, t', wk')) : t'.Readable := by
  rcases pollRead_cases h with ⟨-, hb, -, ⟨reader, hs⟩, rfl, -⟩ | ⟨-, -, rfl, -⟩ | ⟨data, -, ht, -⟩
  · have hheld := hr.held (by simp [reading, hs])
    simp only [bufferedLen, hb] at hheld
    exact ⟨by simp, fun _ => hheld, hr.lt⟩
  · exact hr
  · refine ⟨ht.halfClosed, fun _ => ?_, by rw [ht.window]; exact hr.lt⟩
    have hheld := hr.held ht.reading
    rw [ht.bufferedLen] at hheld
    rw [ht.credit, ht.window]
    omega

/-- Closing the reader leaves the direction readable. -/
theorem Readable.closeReading (hr : t.Readable) (me : StreamRef) (wk : Wakes) :
    (t.closeReading me wk).1.Readable := by
  rcases t.closeReading_cases me wk with ⟨-, h⟩ | ⟨-, h⟩
  · rw [h]
    exact .of_not_reading rfl hr.lt
  · rw [h]
    exact hr

/-- A poll leaves the direction readable. -/
theorem Readable.pollUpdate {pool pool' : Pool} {res : Poll (UInt32 × Bool)} (hr : t.Readable)
    (h : t.pollUpdate pool = .ok (res, t', pool')) : t'.Readable := by
  have hlt := hr.lt
  rcases pollUpdate_cases h with ⟨-, -, rfl, -⟩ | ⟨credit, -, hread, -, hmin, hle, rfl, -⟩ |
    ⟨-, -, -, rfl, -⟩
  · exact hr
  · have hheld := hr.held hread
    refine ⟨hr.halfClosed, fun _ => ?_, ?_⟩
    · show t.bufferedLen + (t.credit - credit.toNat) ≤ t.window.unacked - credit.toNat
      have hcredit : credit.toNat ≤ t.credit := by omega
      omega
    · show t.window.unacked - credit.toNat < 2^64
      omega
  · exact .of_not_reading rfl (Nat.two_pow_pos 64)

/-- The bytes received and not credited back are counted in a `u64`. -/
theorem receivedData_lt {data : Bytes} {pool pool' : Pool} {verdict : Except StreamError Unit}
    (h : t.receivedData data pool wk = .ok (verdict, t', pool', wk'))
    (hlt : t.window.unacked < 2^64) : t'.window.unacked < 2^64 := by
  -- The sum is checked before it is stored, also where the pool is overdrawn.
  have hcount : ∀ {w w' : Window} {p p' : Pool} {n : ℕ} {v : Except StreamError Unit},
      count w p n = .ok (v, w', p') → w'.unacked < 2^64 := by
    intro w w' p p' n v hc
    obtain ⟨⟨w₁, p₁⟩, hadd, hc⟩ := Lib.bind_eq_ok.mp hc
    obtain ⟨sum, hsum, hset⟩ := Lib.bind_eq_ok.mp hadd
    obtain ⟨hsumlt, rfl⟩ := u64Add_eq_ok.mp hsum
    obtain ⟨⟨freed, w₂, p₂⟩, hset, hok⟩ := Lib.bind_eq_ok.mp hset
    obtain ⟨rfl, -, -⟩ := Window.set_eq_ok hset
    cases hok
    have hw' : w' = { w with unacked := w.unacked + n } := by
      dsimp only at hc
      split at hc <;> cases hc <;> rfl
    rw [hw']
    exact hsumlt
  unfold receivedData at h
  split at h
  · cases h
    exact hlt
  split at h
  · obtain ⟨⟨v, w, p⟩, hc, h⟩ := Lib.bind_eq_ok.mp h
    cases v with
    | error e =>
      cases h
      exact hcount hc
    | ok u =>
      cases h
      exact hcount hc
  · cases h
    exact hlt
  · split at h
    · cases h
      exact hlt
    split at h
    · cases h
      exact hlt
    · obtain ⟨⟨v, w, p⟩, hc, h⟩ := Lib.bind_eq_ok.mp h
      cases h
      exact hcount hc

/-- Whatever the verdict, the direction stays readable. -/
theorem Readable.receivedData {data : Bytes} {pool pool' : Pool} {verdict : Except StreamError Unit}
    (hr : t.Readable) (h : t.receivedData data pool wk = .ok (verdict, t', pool', wk')) :
    t'.Readable := by
  have hlt := receivedData_lt h hr.lt
  rcases receivedData_cases h with ⟨-, -, rfl, -, -⟩ | ⟨-, -, ⟨rd, reader, hs, rfl, -⟩, -⟩ |
    ⟨-, -, hread, -, -, rfl, -⟩ | ⟨-, -, -, rfl, -⟩ | ⟨-, -, -, -, rfl, -⟩
  · exact hr
  · refine ⟨nofun, fun _ => ?_, hlt⟩
    have hheld := hr.held (by simp [reading, hs])
    simp only [bufferedLen, buffered, hs, List.map_append, List.sum_append, List.map_cons,
      List.map_nil, List.sum_cons, List.sum_nil] at hheld ⊢
    omega
  · exact .of_not_reading hread hlt
  · exact hr
  · -- The bytes overdraw the pool: they are counted, and not held.
    exact ⟨hr.halfClosed, fun hread => (hr.held hread).trans (Nat.le_add_right _ _), hlt⟩

/-- `FIN_WRITE` leaves the direction readable. -/
theorem Readable.receivedFinWrite (hr : t.Readable) (me : StreamRef) (wk : Wakes) :
    (t.receivedFinWrite me wk).2.1.Readable := by
  rcases t.receivedFinWrite_cases me wk with ⟨-, h⟩ | ⟨-, data, rest, reader, hs, h⟩ |
    ⟨-, reader, hs, h⟩ | ⟨-, -, h⟩
  · rw [h]
    exact hr
  · rw [h]
    have hheld := hr.held (by simp [reading, hs])
    simp only [bufferedLen, buffered, hs] at hheld
    refine ⟨fun readyData hd => ?_, fun _ => hheld, hr.lt⟩
    cases hd
    exact List.cons_ne_nil data rest
  · rw [h]
    exact .of_not_reading rfl hr.lt
  · rw [h]
    exact .of_not_reading rfl hr.lt

/-! ## Chunks -/

/-- The application did not close reading: it reads, or the peer ended the stream. -/
def Unclosed (t : InboundTraffic) : Prop := t.reading = true ∨ t.ended = true

/-- A read takes the first chunk. -/
theorem Unclosed.pollRead {waker : Waker} {res : Poll (Option Bytes)} (hu : t.Unclosed)
    (h : t.pollRead waker me wk = .ok (res, t', wk')) : t'.Unclosed ∧
      t.buffered = (match res with
        | .ready (some data) => [data]
        | _ => []) ++ t'.buffered := by
  rcases pollRead_cases h with ⟨rfl, hb, -, ⟨reader, hs⟩, rfl, -⟩ | ⟨rfl, -, rfl, -⟩ |
    ⟨data, rfl, ht, -⟩
  · exact ⟨.inl rfl, hb⟩
  · exact ⟨hu, rfl⟩
  · exact ⟨ht.drained.imp_right And.left, ht.buffered⟩

/-- What a poll of the task sends is nothing to the chunks. -/
theorem Unclosed.pollUpdate {pool pool' : Pool} {res : Poll (UInt32 × Bool)} (hu : t.Unclosed)
    (h : t.pollUpdate pool = .ok (res, t', pool')) : t'.Unclosed ∧ t'.buffered = t.buffered := by
  have hemits := pollUpdate_emits h
  refine ⟨?_, hemits.buffered⟩
  unfold Unclosed
  rw [hemits.reading, hemits.ended]
  exact hu

/-- The data of a frame is held, if it is no violation. -/
theorem Unclosed.receivedData {data : Bytes} {pool pool' : Pool} {verdict : Except StreamError Unit}
    (hu : t.Unclosed) (h : t.receivedData data pool wk = .ok (verdict, t', pool', wk')) :
    t'.Unclosed ∧ t'.buffered = t.buffered ++ (match verdict with
      | .ok _ => chunks data
      | .error _ => []) := by
  rcases receivedData_cases h with ⟨rfl, hd, rfl, -, -⟩ |
    ⟨rfl, hne, ⟨rd, reader, hs, rfl, -⟩, -⟩ | ⟨rfl, -, hread, hended, -⟩ |
    ⟨rfl, -, -, rfl, -⟩ | ⟨rfl, -, -, -, rfl, -⟩
  · -- The data is empty: a direction that sent `FIN_READ` before the end was closed.
    have hnil : data = [] := by
      rcases hd with hd | ⟨hsent, hended⟩
      · exact hd
      · rcases hu with hu | hu
        · exact Bool.noConfusion ((not_reading_of_finSent hsent).symm.trans hu)
        · exact Bool.noConfusion (hended.symm.trans hu)
    refine ⟨hu, ?_⟩
    simp [chunks, hnil]
  · refine ⟨.inl rfl, ?_⟩
    simp [buffered, hs, chunks, hne]
  · rcases hu with hu | hu
    · exact Bool.noConfusion (hread.symm.trans hu)
    · exact Bool.noConfusion (hended.symm.trans hu)
  · exact ⟨hu, (List.append_nil _).symm⟩
  · exact ⟨hu, (List.append_nil _).symm⟩

/-- The end of the stream keeps what was received. -/
theorem buffered_receivedFinWrite (t : InboundTraffic) (me : StreamRef)
    (wk : Wakes) : (t.receivedFinWrite me wk).2.1.buffered = t.buffered := by
  rcases t.receivedFinWrite_cases me wk with ⟨-, h⟩ | ⟨-, data, rest, reader, hs, h⟩ |
    ⟨-, reader, hs, h⟩ | ⟨-, hr, h⟩
  · rw [h]
  · rw [h]
    simp [buffered, hs]
  · rw [h]
    simp [buffered, hs]
  · rw [h, buffered_of_not_reading hr]
    rfl

/-- After it the stream has ended, whatever came before. -/
theorem ended_receivedFinWrite (t : InboundTraffic) (me : StreamRef) (wk : Wakes) :
    (t.receivedFinWrite me wk).2.1.ended = true := by
  rcases t.receivedFinWrite_cases me wk with ⟨hended, h⟩ | ⟨-, data, rest, reader, hs, h⟩ |
    ⟨-, reader, hs, h⟩ | ⟨-, hr, h⟩ <;> rw [h]
  · exact hended
  · rfl
  · rfl
  · rfl

/-- Once the stream has ended, a read takes the next chunk, or gives the end. -/
theorem Readable.pollRead_ended (hr : t.Readable) (hended : t.ended = true) (waker : Waker)
    (me : StreamRef) (wk : Wakes) : ∃ t' wk',
      t.pollRead waker me wk = .ok (.ready t.buffered.head?, t', wk') ∧ t'.Readable ∧
        t'.ended = true ∧ t'.buffered = t.buffered.tail := by
  obtain ⟨⟨res, t', wk'⟩, hpoll⟩ := hr.pollRead_ok waker me wk
  have hread := hr.pollRead hpoll
  rcases pollRead_cases hpoll with ⟨-, -, hopen, -⟩ | ⟨rfl, hread, rfl, -⟩ | ⟨data, rfl, ht, -⟩
  · exact Bool.noConfusion (hopen.symm.trans hended)
  · rw [buffered_of_not_reading hread]
    exact ⟨t', wk', hpoll, hr, hended, buffered_of_not_reading hread⟩
  · rw [ht.buffered]
    exact ⟨t', wk', hpoll, hread, ht.ended.trans hended, rfl⟩

end InboundTraffic

namespace OutboundTraffic

/-- Nothing can be written to an aborted stream. -/
theorem writing_abort (t : OutboundTraffic) (me : StreamRef) (wk : Wakes) :
    (t.abort me wk).1.writing = false := by
  rw [abort]
  rcases t.closeReadingSide_cases me wk with ⟨hrec, h⟩ | ⟨-, wk', h, -⟩
  · rw [h]
    exact not_writing_of_finReceived hrec
  · rw [h]
    rfl

variable {t : OutboundTraffic}

/-- A write to a direction that was closed fails. -/
theorem write_of_not_writing (h : t.writing = false) (data : Bytes) (me : StreamRef) (wk : Wakes) :
    t.write data me wk = (.error .brokenPipe, t, wk) := by
  unfold writing at h
  unfold write
  split at h
  · cases h
  · rfl
  · rfl

/-- It is never ready for a write, and that is no reason to wait. -/
theorem pollWriteReady_of_not_writing (h : t.writing = false) (waker : Waker) :
    t.pollWriteReady waker = (.ready (.error .brokenPipe), t) := by
  unfold writing at h
  unfold pollWriteReady
  split at h
  · cases h
  · rfl
  · rfl

end OutboundTraffic

/-- Whether the violation is found after the data of the frame was taken. -/
def StreamError.afterData : StreamError → Bool
  | .duplicateFinWrite | .duplicateFinRead => true
  | _ => false

namespace StreamCtx

variable {c c' : StreamCtx} {me : StreamRef}

/-- The chunks that a frame with this verdict brings. -/
def brought (data : Bytes) : Except StreamError FinState → List Bytes
  | .ok _ => InboundTraffic.chunks data
  | .error e => if e.afterData then InboundTraffic.chunks data else []

/-- The application uses a stream that is readable. -/
theorem app_returns (hr : c.state.inbound.Readable) (op : AppOp) (me : StreamRef) :
    ∃ r, c.app op me = .ok r := by
  cases op with
  | pollRead waker =>
    obtain ⟨r, hread⟩ := hr.pollRead_ok waker me c.wakes
    exact ⟨_, Lib.bind_eq_ok.mpr ⟨r, hread, rfl⟩⟩
  | _ => exact ⟨_, rfl⟩

/-- Whatever the verdict, a received frame leaves the stream readable. -/
theorem received_readable {credit : Option NonZeroU32} {data : Bytes} {flags : ControlFlags}
    {verdict : Except StreamError FinState}
    (h : c.received credit data flags me = .ok (verdict, c'))
    (hr : c.state.inbound.Readable) : c'.state.inbound.Readable := by
  refine received_rel (R := fun c c' => c.state.inbound.Readable → c'.state.inbound.Readable)
    (fun _ h => h) (fun h h' hr => h' (h hr)) ?_ ?_ ?_ ?_ h hr
  · intro c v c' h
    rcases receivedCredit_split h with ⟨-, -, rfl⟩ | ⟨k, o, f, wk, -, -, rfl⟩ <;> exact id
  · intro c v c' h hr
    obtain ⟨i, rxPool, wk, hd, rfl⟩ := receivedData_split h
    exact hr.receivedData hd
  · intro c v c' h hr
    rcases receivedFinWrite_split h with ⟨-, -, rfl⟩ | ⟨i, wk, -, hfin, rfl⟩
    · exact hr
    · have hread := hr.receivedFinWrite me c.wakes
      rw [hfin] at hread
      exact hread
  · intro c v c' h
    rcases receivedFinRead_split h with ⟨-, -, rfl⟩ | ⟨o, f, wk, -, -, rfl⟩ <;> exact id

/-- The `WINDOW` part of a frame is nothing to the data. -/
theorem receivedCredit_inbound {credit : Option NonZeroU32} {v : Except StreamError Unit}
    (h : c.receivedCredit credit me = .ok (v, c')) :
    c'.state.inbound = c.state.inbound ∧ ∀ e, v = .error e → e.afterData = false := by
  rcases receivedCredit_split h with ⟨-, rfl, rfl⟩ | ⟨k, o, f, wk, -, hup, rfl⟩
  · exact ⟨rfl, nofun⟩
  · refine ⟨rfl, fun e he => ?_⟩
    rcases OutboundTraffic.receivedWindowUpdate_cases hup with ⟨⟨rfl, -⟩ | ⟨rfl, -⟩, -⟩ | ⟨rfl, -⟩
    · cases he
      rfl
    · cases he
      rfl
    · cases he

/-- Nor is the `FIN_READ` part. -/
theorem receivedFinRead_inbound {finRead : Bool} {v : Except StreamError Unit}
    (h : c.receivedFinRead finRead me = .ok (v, c')) :
    c'.state.inbound = c.state.inbound ∧ ∀ e, v = .error e → e.afterData = true := by
  rcases receivedFinRead_split h with ⟨-, rfl, rfl⟩ | ⟨o, f, wk, -, hfin, rfl⟩
  · exact ⟨rfl, nofun⟩
  · refine ⟨rfl, fun e he => ?_⟩
    rcases OutboundTraffic.receivedFinRead_cases hfin with ⟨rfl, -⟩ | ⟨rfl, -⟩
    · cases he
      rfl
    · cases he

/-- The `FIN_WRITE` part keeps what was received. -/
theorem receivedFinWrite_unclosed {finWrite : Bool} {v : Except StreamError Unit}
    (h : c.receivedFinWrite finWrite me = .ok (v, c')) (hu : c.state.inbound.Unclosed) :
    c'.state.inbound.Unclosed ∧ c'.state.inbound.buffered = c.state.inbound.buffered ∧
      ∀ e, v = .error e → e.afterData = true := by
  rcases receivedFinWrite_split h with ⟨-, rfl, rfl⟩ | ⟨i, wk, -, hfin, rfl⟩
  · exact ⟨hu, rfl, nofun⟩
  have hb := c.state.inbound.buffered_receivedFinWrite me c.wakes
  have hended := c.state.inbound.ended_receivedFinWrite me c.wakes
  rw [hfin] at hb hended
  refine ⟨.inr hended, hb, fun e he => ?_⟩
  rcases c.state.inbound.receivedFinWrite_cases me c.wakes with ⟨-, hf⟩ |
    ⟨-, d, rest, reader, -, hf⟩ |
    ⟨-, reader, -, hf⟩ | ⟨-, -, hf⟩ <;> rw [hf] at hfin <;> cases hfin <;> cases he
  rfl

/-- A frame brings its data, unless the data or what comes before it is a violation. -/
theorem received_unclosed {credit : Option NonZeroU32} {data : Bytes} {flags : ControlFlags}
    {verdict : Except StreamError FinState}
    (h : c.received credit data flags me = .ok (verdict, c'))
    (hu : c.state.inbound.Unclosed) : c'.state.inbound.Unclosed ∧
      c'.state.inbound.buffered = c.state.inbound.buffered ++ brought data verdict := by
  rcases Lib.andThen_cases h with ⟨e, hx, rfl⟩ | ⟨_, c₁, hx, h⟩
  · obtain ⟨hin, he⟩ := receivedCredit_inbound hx
    rw [hin, brought, he e rfl]
    exact ⟨hu, (List.append_nil _).symm⟩
  rw [← (receivedCredit_inbound hx).1] at hu ⊢
  rcases Lib.andThen_cases h with ⟨e, hx, rfl⟩ | ⟨_, c₂, hx, h⟩
  · obtain ⟨i, rxPool, wk, hd, rfl⟩ := receivedData_split hx
    have he : e.afterData = false := by
      rcases InboundTraffic.receivedData_cases hd with ⟨hv, -⟩ | ⟨hv, -⟩ | ⟨hv, -⟩ | ⟨hv, -⟩ |
        ⟨hv, -⟩ <;> cases hv <;> rfl
    rw [brought, he]
    exact hu.receivedData hd
  -- From here on the data is taken, whatever the `FIN_*`s are.
  obtain ⟨i, rxPool, wk, hd, rfl⟩ := receivedData_split hx
  obtain ⟨hu₂, hb⟩ := hu.receivedData hd
  rcases Lib.andThen_cases h with ⟨e, hx, rfl⟩ | ⟨_, c₃, hx, h⟩
  · obtain ⟨hu₃, hb₃, he⟩ := receivedFinWrite_unclosed hx hu₂
    rw [brought, he e rfl]
    exact ⟨hu₃, hb₃.trans hb⟩
  obtain ⟨hu₃, hb₃, -⟩ := receivedFinWrite_unclosed hx hu₂
  rcases Lib.andThen_cases h with ⟨e, hx, rfl⟩ | ⟨_, c₄, hx, h⟩
  · obtain ⟨hin, he⟩ := receivedFinRead_inbound hx
    rw [hin, brought, he e rfl]
    exact ⟨hu₃, hb₃.trans hb⟩
  · cases h
    rw [(receivedFinRead_inbound hx).1]
    exact ⟨hu₃, hb₃.trans hb⟩

/-- Whatever the application does, a direction that was closed stays closed. -/
theorem app_not_writing {op : AppOp} {res : AppResult} (h : c.app op me = .ok (res, c'))
    (hw : c.state.outbound.writing = false) : c'.state.outbound.writing = false := by
  cases op with
  | pollRead waker =>
    rw [(app_kept h).2.2 rfl]
    exact hw
  | closeReading =>
    rw [(app_kept h).2.2 rfl]
    exact hw
  | pollWriteReady waker =>
    cases h
    rw [OutboundTraffic.pollWriteReady_of_not_writing hw]
    exact hw
  | write data =>
    cases h
    rw [OutboundTraffic.write_of_not_writing hw]
    exact hw
  | pollFlushed waker =>
    cases h
    exact (OutboundTraffic.pollFlushed_rewaked c.state.outbound waker).same.2.2.1.trans hw
  | closeWriting =>
    cases h
    rcases c.state.outbound.closeWriting_cases me c.wakes with ⟨-, hc⟩ | ⟨w, -, hc⟩ |
      ⟨d, w, -, -, hc⟩
    · rw [hc]
      exact hw
    · rw [hc]
      rfl
    · rw [hc]
      rfl

end StreamCtx

end Rammux
