import Rammux.Connection.Downgrade

/-!
# The codec changes hands

A connection writes frames other than `TERM`, and reads such frames, until it stops. Its codec then
goes to the future that recovers the transport, with what is pending and with what the decoder
holds. The future goes on from there: it writes the rest of the pending frame, and then `TERM`; and
it reads on to the peer's `TERM`, which the connection may have read already.

`Side.Holds` says this of a connection and its downgrade as a whole, whichever of the two has the
transport. Every step keeps it, and reads from the front of what there is to read (`step_holds`).
-/

namespace Rammux

open Protocol

namespace RammuxCodec

variable {c c' c'' : RammuxCodec} {read chunk chunk' : Bytes}

/-- What calls do to the codec: they read `chunk`, and write more. -/
structure Advances (c c' : RammuxCodec) (chunk : Bytes) : Prop where
  inbox : c.io.inbox.bytes = chunk ++ c'.io.inbox.bytes
  out : c.io.out <+: c'.io.out
  frameLimit : c'.frameLimit = c.frameLimit

/-- A codec on which nothing is called has read and written nothing. -/
theorem Advances.refl (c : RammuxCodec) : c.Advances c [] := ⟨rfl, List.prefix_rfl, rfl⟩

/-- What two calls read and write, one after the other. -/
theorem Advances.trans (h : c.Advances c' chunk) (h' : c'.Advances c'' chunk') :
    c.Advances c'' (chunk ++ chunk') :=
  ⟨by rw [h.inbox, h'.inbox, List.append_assoc], h.out.trans h'.out,
    h'.frameLimit.trans h.frameLimit⟩

/-- A call that writes. -/
theorem SameReader.advances (h : c.SameReader c') (hout : c.io.out <+: c'.io.out) :
    c.Advances c' [] := ⟨by rw [h.inbox, List.nil_append], hout, h.frameLimit⟩

/-- A call that reads. -/
theorem SameWriter.advances (h : c.SameWriter c')
    (hinbox : c.io.inbox.bytes = chunk ++ c'.io.inbox.bytes) : c.Advances c' chunk :=
  ⟨hinbox, h.out ▸ List.prefix_rfl, h.frameLimit⟩

/-- The codec was handed frames other than `TERM`. -/
def SendsFrames (c : RammuxCodec) : Prop :=
  ∃ frames : List OutFrame, (∀ f ∈ frames, f.term = false) ∧ c.Sends frames

/-- The codec was handed frames other than `TERM`, and then `TERM`. -/
def SendsTerm (c : RammuxCodec) : Prop :=
  ∃ frames : List OutFrame, (∀ f ∈ frames, f.term = false) ∧ c.Sends (frames ++ [.terminate])

end RammuxCodec

/-! ## The connection -/

namespace Active

variable {a a' : Active} {read : Bytes}

/-- What a connection did to its codec, while it reads and sends frames other than `TERM`. -/
structure Runs (a a' : Active) (read chunk : Bytes) : Prop where
  advances : a.codec.Advances a'.codec chunk
  sends : a'.codec.SendsFrames
  reads : a'.codec.Reads (read ++ chunk)

/-- A call that receives reads to the end of a frame at most. -/
theorem pollReceive_codec {answers : List ReadAnswer} {elapsed : Bool}
    {res : Poll (Except ErrorKind Received)} {frame : Option InboundFrame}
    (hsends : a.codec.SendsFrames) (hreads : a.codec.Reads read)
    (h : a.pollReceive answers elapsed = .ok (res, frame, a')) :
    ∃ chunk, a.codec.Advances a'.codec chunk ∧ a'.codec.SendsFrames ∧
      ((∃ e, res = .ready (.error e) ∧ e.isMisuse = false) ∨
        (res = .ready (.ok .term) ∧ RammuxCodec.ReadTerm a.codec.frameLimit (read ++ chunk)) ∨
        ((∀ e, res ≠ .ready (.error e)) ∧ res ≠ .ready (.ok .term) ∧
          a'.codec.Reads (read ++ chunk))) := by
  obtain ⟨frames, hframes, hsends⟩ := hsends
  obtain ⟨outcome, codec, hnext, hrest⟩ := pollReceive_cases h
  obtain ⟨outcome', codec', chunk, hnext', htook⟩ := hreads.pollNext answers elapsed
  cases hnext.symm.trans hnext'
  have hadvances := htook.same.advances htook.inbox
  have hsends' : codec.SendsFrames := ⟨frames, hframes, hsends.congr htook.same⟩
  rcases hrest with ⟨-, rfl, hres⟩ | ⟨f, result, -, rfl, rfl, hprocess⟩
  · refine ⟨chunk, hadvances, hsends', ?_⟩
    rcases hres with ⟨houtcome, rfl⟩ | ⟨e, rfl, he⟩ | ⟨houtcome, hres⟩
    · exact .inr (.inr ⟨nofun, nofun, htook.pending houtcome⟩)
    · refine .inl ⟨e, rfl, ?_⟩
      rcases he with rfl | houtcome
      · rfl
      · exact htook.error e houtcome
    · exact .inr (.inl ⟨hres, htook.term houtcome⟩)
  · have hprocessed := process_eq_ok a.streams.role a.streams.config hprocess
    have hcodec : a'.codec = codec := hprocessed.codec
    rw [hcodec]
    refine ⟨chunk, hadvances, hsends', ?_⟩
    rcases hprocessed.res with ⟨newStream, rfl⟩ | ⟨violation, rfl⟩
    · exact .inr (.inr ⟨nofun, nofun, (htook.frame f rfl).1⟩)
    · exact .inl ⟨_, rfl, rfl⟩

/-- A frame that the connection composes is not `TERM`. -/
theorem sendTurn_codec {turn : SendTurn} {res : Except (Poll (Except ErrorKind Unit)) OutFrame}
    (hsends : a.codec.SendsFrames) (hreads : a.codec.Reads read)
    (h : a.sendTurn turn = .ok (res, a')) :
    a.Runs a' read [] ∧ ∀ e, res = .error (.ready (.error e)) → e.isMisuse = false := by
  obtain ⟨frames, hframes, hsends⟩ := hsends
  obtain ⟨ready, codec, hready, hwrote⟩ := hsends.pollReady turn.attempts
  have hruns {streams : Streams} {pings : Pings} {codec' : RammuxCodec}
      (hsame : a.codec.SameReader codec') (hout : a.codec.io.out <+: codec'.io.out)
      (hsends' : codec'.SendsFrames) : a.Runs ⟨codec', streams, pings⟩ read [] :=
    ⟨hsame.advances hout, hsends', (List.append_nil read).symm ▸ hreads.congr hsame⟩
  cases sendTurn_cases h with
  | blocked hready' =>
    cases hready.symm.trans hready'
    refine ⟨hruns hwrote.same hwrote.out ⟨frames, hframes, hwrote.sends⟩, fun e he => ?_⟩
    obtain ⟨io, rfl⟩ := hwrote.error e (Except.error.inj he)
    rfl
  | idle hready' _ _ hflush hres =>
    cases hready.symm.trans hready'
    obtain ⟨flushed, codec', hflush', hwrote'⟩ := hwrote.sends.pollThen [] turn.flush
    cases hflush.symm.trans hflush'
    refine ⟨hruns (hwrote.same.trans hwrote'.same) (hwrote.out.trans hwrote'.out)
      ⟨frames, hframes, hwrote'.sends⟩, fun e he => ?_⟩
    obtain ⟨io, rfl⟩ := hwrote'.error e (hres e (Except.error.inj he))
    rfl
  | handed hready' _ hframe _ hsend =>
    cases hready.symm.trans hready'
    obtain ⟨hsends', hsame', hout'⟩ := hwrote.sends.startSend hsend
    refine ⟨hruns (hwrote.same.trans hsame') (hout' ▸ hwrote.out) ⟨_, fun f hf => ?_, hsends'⟩,
      nofun⟩
    rcases List.mem_append.mp hf with hf | hf
    · exact hframes f hf
    · rw [List.mem_singleton.mp hf, hframe]
      rfl

/-- Sending hands frames to the codec, and reads nothing. -/
theorem pollSend_codec {turns : List SendTurn} {res : Poll (Except ErrorKind Unit)}
    {frames : List OutFrame} (hsends : a.codec.SendsFrames) (hreads : a.codec.Reads read)
    (h : a.pollSend turns = .ok (res, frames, a')) :
    a.Runs a' read [] ∧ ∀ e, res = .ready (.error e) → e.isMisuse = false := by
  -- By induction on the turns of the loop.
  induction turns generalizing a frames with
  | nil =>
    cases h
    exact ⟨⟨.refl _, hsends, (List.append_nil read).symm ▸ hreads⟩, nofun⟩
  | cons turn turns ih =>
    obtain ⟨⟨result, a₁⟩, hturn, h⟩ := Lib.bind_eq_ok.mp h
    obtain ⟨hruns, herror⟩ := sendTurn_codec hsends hreads hturn
    cases result with
    | error res' =>
      cases h
      exact ⟨hruns, fun e he => herror e (congrArg Except.error he)⟩
    | ok frame =>
      obtain ⟨⟨res', frames', a₂⟩, hrest, h⟩ := Lib.bind_eq_ok.mp h
      cases h
      have hreads₁ := hruns.reads
      rw [List.append_nil] at hreads₁
      obtain ⟨hruns', herror'⟩ := ih hruns.sends hreads₁ hrest
      exact ⟨⟨hruns.advances.trans hruns'.advances, hruns'.sends, hruns'.reads⟩, herror'⟩

/-- The batch reads frames, up to `TERM` at most. -/
theorem receiveBatch_codec {progress : Poll RammuxProgress} {readings : List ReadTurn}
    {batch : Batch} (hsends : a.codec.SendsFrames) (hreads : a.codec.Reads read)
    (hprogress : ∀ future, progress ≠ .ready (.downgraded future))
    (h : a.receiveBatch progress readings = .ok (batch, a')) :
    ∃ chunk, a.codec.Advances a'.codec chunk ∧ a'.codec.SendsFrames ∧
      ((∃ e, batch = .failed e ∧ e.isMisuse = false) ∨
        (batch = .term ∧ RammuxCodec.ReadTerm a.codec.frameLimit (read ++ chunk)) ∨
        ∃ progress, batch = .processed progress ∧
          (∀ future, progress ≠ .ready (.downgraded future)) ∧ a'.codec.Reads (read ++ chunk)) := by
  induction readings generalizing a read progress with
  | nil =>
    cases h
    exact ⟨[], .refl _, hsends,
      .inr (.inr ⟨_, rfl, hprogress, (List.append_nil read).symm ▸ hreads⟩)⟩
  | cons reading readings ih =>
    obtain ⟨⟨res, frame, a₁⟩, hreceive, h⟩ := Lib.bind_eq_ok.mp h
    obtain ⟨chunk, hadvances, hsends₁, hres⟩ := pollReceive_codec hsends hreads hreceive
    -- A failure and `TERM` end the batch; of the rest only a frame that starts no stream goes on.
    rcases hres with ⟨e, rfl, he⟩ | ⟨rfl, hterm⟩ | ⟨hnotError, hnotTerm, hreads₁⟩
    · cases h
      exact ⟨chunk, hadvances, hsends₁, .inl ⟨e, rfl, he⟩⟩
    · cases h
      exact ⟨chunk, hadvances, hsends₁, .inr (.inl ⟨rfl, hterm⟩)⟩
    match res with
    | .ready (.error e) => exact absurd rfl (hnotError e)
    | .ready (.ok .term) => exact absurd rfl hnotTerm
    | .pending =>
      cases h
      exact ⟨chunk, hadvances, hsends₁, .inr (.inr ⟨_, rfl, hprogress, hreads₁⟩)⟩
    | .ready (.ok (.frame (some stream))) =>
      cases h
      exact ⟨chunk, hadvances, hsends₁, .inr (.inr ⟨_, rfl,
        fun _ h => RammuxProgress.noConfusion (Poll.ready.inj h), hreads₁⟩)⟩
    | .ready (.ok (.frame none)) =>
      obtain ⟨chunk', hadvances', hsends', hbatch⟩ := ih hsends₁ hreads₁
        (fun _ h => RammuxProgress.noConfusion (Poll.ready.inj h)) h
      rw [hadvances.frameLimit, List.append_assoc] at hbatch
      exact ⟨chunk ++ chunk', hadvances.trans hadvances', hsends', hbatch⟩

end Active

/-! ## The future -/

namespace Downgraded

variable {d d' : Downgraded} {c : RammuxCodec} {read : Bytes} {frames : List OutFrame}

/-- What was written, as far as the future has come. -/
def Sending (d : Downgraded) (c : RammuxCodec) : Prop :=
  match d.termSent with
  | .init => c.SendsFrames
  | .enqueued => c.SendsTerm
  | .flushed | .shutDown => c.SendsTerm ∧ c.pending = none

/-- What was read, as far as the future has come. -/
def Receiving (d : Downgraded) (c : RammuxCodec) (read : Bytes) : Prop :=
  if d.termReceived then RammuxCodec.ReadTerm c.frameLimit read else c.Reads read

/-- The same, for the frames that were handed to the codec before the downgrade. -/
def Hands (d : Downgraded) (c : RammuxCodec) (frames : List OutFrame) : Prop :=
  match d.termSent with
  | .init => c.Sends frames
  | .enqueued => c.Sends (frames ++ [.terminate])
  | .flushed | .shutDown => c.Sends (frames ++ [.terminate]) ∧ c.pending = none

/-- The future sends when the codec was handed frames other than `TERM`. -/
theorem sending_iff : d.Sending c ↔
    ∃ frames : List OutFrame, (∀ f ∈ frames, f.term = false) ∧ d.Hands c frames := by
  unfold Sending Hands
  cases d.termSent with
  | init => exact Iff.rfl
  | enqueued => exact Iff.rfl
  | flushed => simp only [RammuxCodec.SendsTerm, ← exists_and_right, and_assoc]
  | shutDown => simp only [RammuxCodec.SendsTerm, ← exists_and_right, and_assoc]

/-- What was handed over does not depend on the reading half of the codec. -/
theorem Hands.congr {c' : RammuxCodec} (h : d.Hands c frames)
    (hsame : c.SameWriter c') (hterm : d'.termSent = d.termSent) : d'.Hands c' frames := by
  unfold Hands at h ⊢
  rw [hterm]
  revert h
  cases d.termSent <;> intro h
  case init => exact RammuxCodec.Sends.congr h hsame
  case enqueued => exact RammuxCodec.Sends.congr h hsame
  case flushed => exact ⟨RammuxCodec.Sends.congr h.1 hsame, hsame.pending.trans h.2⟩
  case shutDown => exact ⟨RammuxCodec.Sends.congr h.1 hsame, hsame.pending.trans h.2⟩

/-- So it is for what the future sends. -/
theorem Sending.congr {c' : RammuxCodec} (h : d.Sending c) (hsame : c.SameWriter c')
    (hterm : d'.termSent = d.termSent) : d'.Sending c' := by
  obtain ⟨frames, hframes, hhands⟩ := sending_iff.mp h
  exact sending_iff.mpr ⟨frames, hframes, hhands.congr hsame hterm⟩

/-- What the future has received does not depend on the writing half of the codec. -/
theorem Receiving.congr {c' : RammuxCodec} (h : d.Receiving c read) (hsame : c.SameReader c')
    (hterm : d'.termReceived = d.termReceived) : d'.Receiving c' read := by
  unfold Receiving at h ⊢
  rw [hterm]
  split_ifs at h ⊢
  · rwa [hsame.frameLimit]
  · exact h.congr hsame

/-- The reader reads on to `TERM`, and no further. -/
theorem pollRecoverReader_hands {readings : List ReadTurn} {res : Poll (Except ErrorKind Unit)}
    (hcodec : d.codec = some c) (hhands : d.Hands c frames) (hreceiving : d.Receiving c read)
    (h : d.pollRecoverReader readings = .ok (res, d')) :
    ∃ c' chunk, d'.codec = some c' ∧ c.Advances c' chunk ∧ d'.Hands c' frames ∧
      ((∃ e, res = .ready (.error e)) ∨
        d'.Receiving c' (read ++ chunk) ∧ (res = .ready (.ok ()) → d'.termReceived = true)) := by
  have hstay : d.Receiving c (read ++ []) := (List.append_nil read).symm ▸ hreceiving
  -- By induction on the turns of the loop: every frame before `TERM` is read and dropped.
  induction readings generalizing d c read with
  | nil =>
    unfold pollRecoverReader at h
    rw [hcodec] at h
    split_ifs at h with hterm
    · cases h
      exact ⟨c, [], hcodec, .refl c, hhands, .inr ⟨hstay, fun _ => hterm⟩⟩
    · cases h
      exact ⟨c, [], hcodec, .refl c, hhands, .inr ⟨hstay, nofun⟩⟩
  | cons reading readings ih =>
    unfold pollRecoverReader at h
    rw [hcodec] at h
    split_ifs at h with hterm
    · cases h
      exact ⟨c, [], hcodec, .refl c, hhands, .inr ⟨hstay, fun _ => hterm⟩⟩
    rw [Receiving, if_neg hterm] at hreceiving
    obtain ⟨⟨outcome, c₁⟩, hnext, h⟩ := Lib.bind_eq_ok.mp h
    obtain ⟨_, _, chunk, hnext', htook⟩ := hreceiving.pollNext reading.answers reading.elapsed
    cases hnext.symm.trans hnext'
    have hadvances := htook.same.advances htook.inbox
    have hhands₁ : Hands { d with codec := some c₁ } c₁ frames := hhands.congr htook.same rfl
    -- Before `TERM` it is the codec that says what was read.
    have hreading (hreads : c₁.Reads (read ++ chunk)) :
        Receiving { d with codec := some c₁ } c₁ (read ++ chunk) := by
      rw [Receiving, if_neg hterm]
      exact hreads
    match outcome with
    | .pending =>
      cases h
      exact ⟨c₁, chunk, rfl, hadvances, hhands₁, .inr ⟨hreading (htook.pending rfl), nofun⟩⟩
    | .ready none =>
      cases h
      exact ⟨c₁, chunk, rfl, hadvances, hhands₁, .inl ⟨_, rfl⟩⟩
    | .ready (some (.error e)) =>
      cases h
      exact ⟨c₁, chunk, rfl, hadvances, hhands₁, .inl ⟨_, rfl⟩⟩
    | .ready (some (.ok .terminate)) =>
      cases h
      refine ⟨c₁, chunk, rfl, hadvances, hhands₁, .inr ⟨?_, fun _ => rfl⟩⟩
      rw [Receiving, if_pos rfl, hadvances.frameLimit]
      exact htook.term rfl
    | .ready (some (.ok (.frame f))) =>
      have hreading₁ := hreading (htook.frame f rfl).1
      obtain ⟨c₂, chunk', hcodec₂, hadvances₂, hhands₂, hrest⟩ :=
        ih rfl hhands₁ hreading₁ h ((List.append_nil _).symm ▸ hreading₁)
      rw [List.append_assoc] at hrest
      exact ⟨c₂, chunk ++ chunk', hcodec₂, hadvances.trans hadvances₂, hhands₂, hrest⟩

/-- Recovering the reader reads on, and ends when `TERM` is read. -/
theorem pollRecoverReader_codec {readings : List ReadTurn} {res : Poll (Except ErrorKind Unit)}
    (hcodec : d.codec = some c) (hsending : d.Sending c) (hreceiving : d.Receiving c read)
    (h : d.pollRecoverReader readings = .ok (res, d')) :
    ∃ c' chunk, d'.codec = some c' ∧ c.Advances c' chunk ∧ d'.Sending c' ∧
      ((∃ e, res = .ready (.error e)) ∨
        d'.Receiving c' (read ++ chunk) ∧ (res = .ready (.ok ()) → d'.termReceived = true)) := by
  obtain ⟨frames, hframes, hhands⟩ := sending_iff.mp hsending
  obtain ⟨c', chunk, hcodec', hadvances, hhands', hrest⟩ :=
    pollRecoverReader_hands hcodec hhands hreceiving h
  exact ⟨c', chunk, hcodec', hadvances, sending_iff.mpr ⟨frames, hframes, hhands'⟩, hrest⟩

/-- A turn of the writer goes on to `TERM`, and then waits until it is written. -/
theorem writerTurn_hands {turn : WriteTurn} {res : Option (Poll (Except ErrorKind Unit))}
    (hhands : d.Hands c frames) (h : d.writerTurn c turn = .ok (res, d')) :
    ∃ c', d'.codec = some c' ∧ c.SameReader c' ∧ c.io.out <+: c'.io.out ∧ d'.Hands c' frames ∧
      d'.termReceived = d.termReceived ∧ res ≠ some (.ready (.ok ())) ∧
      ∀ e, res = some (.ready (.error e)) → ∃ io, e = .io io := by
  unfold writerTurn at h
  split at h
  · next hinit =>
    rw [Hands, hinit] at hhands
    obtain ⟨⟨ready, c₁⟩, hready, h⟩ := Lib.bind_eq_ok.mp h
    obtain ⟨_, _, hready', hsends₁, hsame, hout, -, herror⟩ :=
      RammuxCodec.Sends.pollReady hhands turn.attempts
    cases hready.symm.trans hready'
    have hwait : Hands { d with codec := some c₁ } c₁ frames := by
      rw [Hands, hinit]
      exact hsends₁
    match ready with
    | .pending =>
      cases h
      exact ⟨c₁, rfl, hsame, hout, hwait, rfl, nofun, nofun⟩
    | .ready (.error e) =>
      cases h
      exact ⟨c₁, rfl, hsame, hout, hwait, rfl, nofun, fun e he => herror e (Option.some.inj he)⟩
    | .ready (.ok ()) =>
      obtain ⟨c₂, hsend, h⟩ := Lib.bind_eq_ok.mp h
      obtain ⟨hsends₂, hsame', hout'⟩ := hsends₁.startSend hsend
      cases h
      exact ⟨c₂, rfl, hsame.trans hsame', hout' ▸ hout, hsends₂, rfl, nofun, nofun⟩
  · next hnot =>
    -- `TERM` was handed to the codec, and a call that finds nothing pending leaves it so.
    have hsends : c.Sends (frames ++ [.terminate]) := by
      unfold Hands at hhands
      split at hhands
      · next hinit => exact absurd hinit hnot
      · exact hhands
      · exact hhands.1
      · exact hhands.1
    obtain ⟨⟨flushed, c₁⟩, hflush, h⟩ := Lib.bind_eq_ok.mp h
    obtain ⟨_, _, hflush', hsends₁, hsame, hout, hnone, herror⟩ :=
      hsends.pollThen turn.attempts turn.answer
    have heq : (if d.withShutdown then c.pollClose turn.attempts turn.answer
        else c.pollFlush turn.attempts turn.answer) = c.pollThen turn.attempts turn.answer :=
      ite_self _
    cases (heq.symm.trans hflush).symm.trans hflush'
    have hwait : Hands { d with codec := some c₁ } c₁ frames := by
      unfold Hands at hhands ⊢
      split at hhands
      · next hinit => exact absurd hinit hnot
      · next henqueued => rwa [henqueued]
      · next hflushed =>
        rw [hflushed]
        exact ⟨hsends₁, hnone (.inl hhands.2)⟩
      · next hshut =>
        rw [hshut]
        exact ⟨hsends₁, hnone (.inl hhands.2)⟩
    match flushed with
    | .pending =>
      cases h
      exact ⟨c₁, rfl, hsame, hout, hwait, rfl, nofun, nofun⟩
    | .ready (.error e) =>
      cases h
      exact ⟨c₁, rfl, hsame, hout, hwait, rfl, nofun, fun e he => herror e (Option.some.inj he)⟩
    | .ready (.ok ()) =>
      cases h
      refine ⟨c₁, rfl, hsame, hout, ?_, rfl, nofun, nofun⟩
      cases d.withShutdown <;> exact ⟨hsends₁, hnone (.inr rfl)⟩

/-- A turn of the writer writes on, and never ends the recovery by itself. -/
theorem writerTurn_codec {turn : WriteTurn} {res : Option (Poll (Except ErrorKind Unit))}
    (hsending : d.Sending c) (h : d.writerTurn c turn = .ok (res, d')) :
    ∃ c', d'.codec = some c' ∧ c.SameReader c' ∧ c.io.out <+: c'.io.out ∧ d'.Sending c' ∧
      d'.termReceived = d.termReceived ∧ res ≠ some (.ready (.ok ())) := by
  obtain ⟨frames, hframes, hhands⟩ := sending_iff.mp hsending
  obtain ⟨c', hcodec', hsame, hout, hhands', hterm, hne, -⟩ := writerTurn_hands hhands h
  exact ⟨c', hcodec', hsame, hout, sending_iff.mpr ⟨frames, hframes, hhands'⟩, hterm, hne⟩

/-- The writer writes `TERM` after the frames, reads nothing, and fails only with the transport. -/
theorem pollRecoverWriter_hands {turns : List WriteTurn} {res : Poll (Except ErrorKind Unit)}
    (hcodec : d.codec = some c) (hhands : d.Hands c frames)
    (h : d.pollRecoverWriter turns = .ok (res, d')) :
    ∃ c', d'.codec = some c' ∧ c.SameReader c' ∧ c.io.out <+: c'.io.out ∧ d'.Hands c' frames ∧
      d'.termReceived = d.termReceived ∧ (res = .ready (.ok ()) → d'.writerRecovered = true) ∧
      ∀ e, res = .ready (.error e) → ∃ io, e = .io io := by
  have hrefl : c.SameReader c := ⟨rfl, rfl, rfl, rfl⟩
  -- By induction on the turns of the loop.
  induction turns generalizing d c with
  | nil =>
    unfold pollRecoverWriter at h
    rw [hcodec] at h
    cases h
    refine ⟨c, hcodec, hrefl, List.prefix_rfl, hhands, rfl, fun hres => ?_, fun e hres => ?_⟩
    · split_ifs at hres with hrecovered
      exact hrecovered
    · split_ifs at hres
      cases hres
  | cons turn turns ih =>
    unfold pollRecoverWriter at h
    rw [hcodec] at h
    split_ifs at h with hrecovered
    · cases h
      exact ⟨c, hcodec, hrefl, List.prefix_rfl, hhands, rfl, fun _ => hrecovered, nofun⟩
    obtain ⟨⟨res', d₁⟩, hturn, h⟩ := Lib.bind_eq_ok.mp h
    obtain ⟨c₁, hcodec₁, hsame, hout, hhands₁, hterm, hne, herror⟩ := writerTurn_hands hhands hturn
    cases res' with
    | some res' =>
      cases h
      exact ⟨c₁, hcodec₁, hsame, hout, hhands₁, hterm, fun heq => absurd (congrArg some heq) hne,
        fun e he => herror e (congrArg some he)⟩
    | none =>
      obtain ⟨c₂, hcodec₂, hsame₂, hout₂, hhands₂, hterm₂, hres⟩ :=
        ih hcodec₁ hhands₁ h ⟨rfl, rfl, rfl, rfl⟩
      exact ⟨c₂, hcodec₂, hsame.trans hsame₂, hout.trans hout₂, hhands₂, hterm₂.trans hterm, hres⟩

/-- Recovering the writer writes on, and ends when `TERM` is written. -/
theorem pollRecoverWriter_codec {turns : List WriteTurn} {res : Poll (Except ErrorKind Unit)}
    (hcodec : d.codec = some c) (hsending : d.Sending c)
    (h : d.pollRecoverWriter turns = .ok (res, d')) :
    ∃ c', d'.codec = some c' ∧ c.SameReader c' ∧ c.io.out <+: c'.io.out ∧ d'.Sending c' ∧
      d'.termReceived = d.termReceived ∧ (res = .ready (.ok ()) → d'.writerRecovered = true) := by
  obtain ⟨frames, hframes, hhands⟩ := sending_iff.mp hsending
  obtain ⟨c', hcodec', hsame, hout, hhands', hterm, hdone, -⟩ :=
    pollRecoverWriter_hands hcodec hhands h
  exact ⟨c', hcodec', hsame, hout, sending_iff.mpr ⟨frames, hframes, hhands'⟩, hterm, hdone⟩

/-- Once the writer is recovered, `TERM` is written. -/
theorem Hands.recovered (h : d.Hands c frames) (hrecovered : d.writerRecovered = true) :
    c.Sends (frames ++ [.terminate]) ∧ c.pending = none := by
  unfold Hands at h
  unfold writerRecovered at hrecovered
  cases hterm : d.termSent <;> rw [hterm] at h hrecovered
  · cases hrecovered
  · cases hrecovered
  · exact h
  · exact h

/-- A poll of the future gives the transport back once `TERM` is written and the peer's `TERM` is
read. -/
theorem poll_hands {readings : List ReadTurn} {turns : List WriteTurn}
    {res : Poll (Except ErrorKind Transport)} (hcodec : d.codec = some c)
    (hhands : d.Hands c frames)
    (hreceiving : d.Receiving c read) (h : d.poll readings turns = .ok (res, d')) :
    ∃ c' chunk, c.Advances c' chunk ∧
      ((res = .pending ∧ d'.codec = some c' ∧ d'.Hands c' frames ∧
          d'.Receiving c' (read ++ chunk)) ∨
        (res = .ready (.ok c'.io) ∧ c'.Sends (frames ++ [.terminate]) ∧ c'.pending = none ∧
          RammuxCodec.ReadTerm c'.frameLimit (read ++ chunk)) ∨
        ∃ e, res = .ready (.error e) ∧ d'.codec = some c' ∧ d'.Hands c' frames ∧
          (d.pollRecoverReader readings = .ok (.ready (.error e), d') ∨ ∃ io, e = .io io)) := by
  obtain ⟨⟨reader, d₁⟩, hreader, h⟩ := Lib.bind_eq_ok.mp h
  obtain ⟨c₁, chunk, hcodec₁, hadvances, hhands₁, hread⟩ :=
    pollRecoverReader_hands hcodec hhands hreceiving hreader
  -- The reader is polled first, and its error ends the poll before the writer has its turn.
  by_cases herror : ∃ e, reader = .ready (.error e)
  · obtain ⟨e, rfl⟩ := herror
    cases h
    exact ⟨c₁, chunk, hadvances, .inr (.inr ⟨e, rfl, hcodec₁, hhands₁, .inl hreader⟩)⟩
  obtain ⟨hreceiving₁, hterm⟩ := hread.resolve_left herror
  -- What the poll comes to, in terms of what the writer answers.
  have hwrite : ∃ writer d₂, d₁.pollRecoverWriter turns = .ok (writer, d₂) ∧
      ((∃ e, writer = .ready (.error e) ∧ res = .ready (.error e) ∧ d' = d₂) ∨
        (reader = .ready (.ok ()) ∧ writer = .ready (.ok ()) ∧
          ∃ codec, d₂.codec = some codec ∧ res = .ready (.ok codec.io)) ∨
        (res = .pending ∧ d' = d₂)) := by
    match reader with
    | .ready (.error e) => exact absurd ⟨e, rfl⟩ herror
    | .pending =>
      -- Without the peer's `TERM` the poll does not end, whatever was written.
      obtain ⟨⟨writer, d₂⟩, hwriter, h⟩ := Lib.bind_eq_ok.mp h
      refine ⟨writer, d₂, hwriter, ?_⟩
      match writer with
      | .ready (.error e) =>
        cases h
        exact .inl ⟨e, rfl, rfl, rfl⟩
      | .ready (.ok ()) =>
        cases h
        exact .inr (.inr ⟨rfl, rfl⟩)
      | .pending =>
        cases h
        exact .inr (.inr ⟨rfl, rfl⟩)
    | .ready (.ok ()) =>
      -- With the peer's `TERM` the poll ends once the writer does.
      obtain ⟨⟨writer, d₂⟩, hwriter, h⟩ := Lib.bind_eq_ok.mp h
      refine ⟨writer, d₂, hwriter, ?_⟩
      match writer with
      | .ready (.error e) =>
        cases h
        exact .inl ⟨e, rfl, rfl, rfl⟩
      | .ready (.ok ()) =>
        simp only at h
        split at h
        · cases h
        · next codec hsome =>
          cases h
          exact .inr (.inl ⟨rfl, rfl, codec, hsome, rfl⟩)
      | .pending =>
        cases h
        exact .inr (.inr ⟨rfl, rfl⟩)
  -- The writer reads nothing, so what the reader has found still holds.
  obtain ⟨writer, d₂, hwriter, hres⟩ := hwrite
  obtain ⟨c₂, hcodec₂, hsame, hout, hhands₂, hterm₂, hrecovered, hio⟩ :=
    pollRecoverWriter_hands hcodec₁ hhands₁ hwriter
  have hadvances₂ : c.Advances c₂ chunk := by
    have htrans := hadvances.trans (hsame.advances hout)
    rwa [List.append_nil] at htrans
  have hreceiving₂ : d₂.Receiving c₂ (read ++ chunk) := hreceiving₁.congr hsame hterm₂
  refine ⟨c₂, chunk, hadvances₂, ?_⟩
  rcases hres with ⟨e, rfl, rfl, rfl⟩ | ⟨rfl, rfl, codec, hsome, rfl⟩ | ⟨rfl, rfl⟩
  · exact .inr (.inr ⟨e, rfl, hcodec₂, hhands₂, .inr (hio e rfl)⟩)
  · -- Both are done: `TERM` is written, and the peer's `TERM` was read.
    cases hcodec₂.symm.trans hsome
    obtain ⟨hsends, hnone⟩ := hhands₂.recovered (hrecovered rfl)
    refine .inr (.inl ⟨rfl, hsends, hnone, ?_⟩)
    rw [Receiving, if_pos (hterm₂.trans (hterm rfl))] at hreceiving₂
    exact hreceiving₂
  · exact .inl ⟨rfl, hcodec₂, hhands₂, hreceiving₂⟩

/-- A poll of the future reads and writes on. It gives the transport back when `TERM` is written and
read, with nothing left to write. -/
theorem poll_codec {readings : List ReadTurn} {turns : List WriteTurn}
    {res : Poll (Except ErrorKind Transport)} (hcodec : d.codec = some c) (hsending : d.Sending c)
    (hreceiving : d.Receiving c read) (h : d.poll readings turns = .ok (res, d')) :
    ∃ c' chunk, c.Advances c' chunk ∧
      ((res = .pending ∧ d'.codec = some c' ∧ d'.Sending c' ∧ d'.Receiving c' (read ++ chunk)) ∨
        (res = .ready (.ok c'.io) ∧ c'.SendsTerm ∧ c'.pending = none ∧
          RammuxCodec.ReadTerm c'.frameLimit (read ++ chunk)) ∨
        ∃ e, res = .ready (.error e) ∧ d'.codec = some c' ∧ d'.Sending c') := by
  obtain ⟨frames, hframes, hhands⟩ := sending_iff.mp hsending
  obtain ⟨c', chunk, hadvances, hrest⟩ := poll_hands hcodec hhands hreceiving h
  have hsending' (hhands' : d'.Hands c' frames) : d'.Sending c' :=
    sending_iff.mpr ⟨frames, hframes, hhands'⟩
  refine ⟨c', chunk, hadvances, ?_⟩
  rcases hrest with ⟨hres, hcodec', hhands', hreceiving'⟩ | ⟨hres, hsends, hrest⟩ |
    ⟨e, hres, hcodec', hhands', -⟩
  · exact .inl ⟨hres, hcodec', hsending' hhands', hreceiving'⟩
  · exact .inr (.inl ⟨hres, ⟨frames, hframes, hsends⟩, hrest⟩)
  · exact .inr (.inr ⟨e, hres, hcodec', hsending' hhands'⟩)

end Downgraded

/-! ## A side as a whole -/

/-- What a connection and its downgrade have come to, whichever of them has the transport. `read` is
what they read from it, and `raw` is what the application wrote to it since it got it back. -/
inductive Side.Holds (limit : ℕ) (read : Bytes) : Bytes → Side → Prop
  | active {a : Active} (hlimit : a.codec.frameLimit = limit) (hsends : a.codec.SendsFrames)
      (hreads : a.codec.Reads read) : Holds limit read [] ⟨.active a, .none⟩
  | poisoned {codec : RammuxCodec} {io : Transport} {streams : Streams}
      (hio : io.out = codec.io.out)
      (hsends : codec.SendsFrames) : Holds limit read [] ⟨.poisoned io streams, .none⟩
  | polling {future : Downgraded} {codec : RammuxCodec} {streams : Streams}
      (hcodec : future.codec = some codec) (hlimit : codec.frameLimit = limit)
      (hsending : future.Sending codec) (hreceiving : future.Receiving codec read) :
      Holds limit read [] ⟨.downgraded streams, .polling future⟩
  | recovered {codec : RammuxCodec} {io : Transport} {streams : Streams} {raw : Bytes}
      (hio : io.out.map Prod.fst = codec.io.out.map Prod.fst ++ raw) (hsends : codec.SendsTerm)
      (hnone : codec.pending = none) (hread : RammuxCodec.ReadTerm limit read) :
      Holds limit read raw ⟨.downgraded streams, .recovered io⟩
  | failed {future : Downgraded} {codec : RammuxCodec} {streams : Streams}
      (hcodec : future.codec = some codec) (hsending : future.Sending codec) :
      Holds limit read [] ⟨.downgraded streams, .failed future⟩

/-- What a step does to the transport: it reads `chunk`, and writes more. -/
def Side.Advances (s s' : Side) (chunk : Bytes) : Prop :=
  ∃ io io', s.io = some io ∧ s'.io = some io' ∧ io.inbox.bytes = chunk ++ io'.inbox.bytes ∧
    io.out <+: io'.out

namespace Side

variable {limit : ℕ} {read raw : Bytes} {s s' : Side}

/-- The future has the transport. -/
theorem io_of_future {future : Downgraded} {codec : RammuxCodec}
    (h : s.recovery = .polling future ∨ s.recovery = .failed future)
    (hcodec : future.codec = some codec) : s.io = some codec.io := by
  obtain ⟨conn, recovery⟩ := s
  rcases h with rfl | rfl <;> exact congrArg (Option.map RammuxCodec.io) hcodec

/-- The application has the transport back. -/
theorem io_of_recovered {io : Transport} (h : s.recovery = .recovered io) : s.io = some io := by
  obtain ⟨conn, recovery⟩ := s
  cases h
  rfl

/-- A step that leaves the transport alone. -/
theorem Advances.of_io (h : s'.io = s.io) (hio : s.io ≠ none) : s.Advances s' [] := by
  obtain ⟨io, hio⟩ := Option.ne_none_iff_exists'.mp hio
  exact ⟨io, io, hio, h.trans hio, rfl, List.prefix_rfl⟩

/-- A poll of the connection goes on, fails, or reads `TERM` and hands the codec over. -/
theorem progress_holds {a : Active} {readings : List ReadTurn} {turns : List SendTurn} {o : Answer}
    (hlimit : a.codec.frameLimit = limit) (hsends : a.codec.SendsFrames)
    (hreads : a.codec.Reads read)
    (h : step ⟨.active a, .none⟩ (.progress readings turns) = .ok (o, s')) :
    ∃ chunk, s'.Holds limit (read ++ chunk) [] ∧ Advances ⟨.active a, .none⟩ s' chunk := by
  obtain ⟨⟨res, conn⟩, hpoll, h⟩ := Lib.bind_eq_ok.mp h
  have hpending (future : Downgraded) :
      Poll.pending ≠ .ready (RammuxProgress.downgraded future) := by
    intro h
    cases h
  -- A failure poisons the connection, since it is no misuse.
  have hfail {a' : Active} {e : ErrorKind} {chunk : Bytes} (he : e.isMisuse = false)
      (hadvances : a.codec.Advances a'.codec chunk) (hsends' : a'.codec.SendsFrames)
      (hs' : s' = ⟨if e.isMisuse then .active a' else (ConnState.active a').fail, .none⟩) :
      ∃ chunk, s'.Holds limit (read ++ chunk) [] ∧ Advances ⟨.active a, .none⟩ s' chunk := by
    rw [he] at hs'
    subst hs'
    exact ⟨chunk, .poisoned rfl hsends', _, _, rfl, rfl, hadvances.inbox, hadvances.out⟩
  cases ConnState.pollProgress_cases hpoll with
  | failed hbatch =>
    cases h
    obtain ⟨chunk, hadvances, hsends', hcases⟩ :=
      Active.receiveBatch_codec hsends hreads hpending hbatch
    obtain ⟨e, he, hmisuse⟩ | ⟨h, -⟩ | ⟨_, h, -⟩ := hcases
    · cases he
      exact hfail hmisuse hadvances hsends' rfl
    · cases h
    · cases h
  | term hbatch =>
    cases h
    obtain ⟨chunk, hadvances, hsends', hcases⟩ :=
      Active.receiveBatch_codec hsends hreads hpending hbatch
    obtain ⟨_, h, -⟩ | ⟨-, hterm⟩ | ⟨_, h, -⟩ := hcases
    · cases h
    · refine ⟨chunk, .polling rfl (hadvances.frameLimit.trans hlimit) hsends' ?_, _, _, rfl, rfl,
        hadvances.inbox, hadvances.out⟩
      rw [← hadvances.frameLimit] at hterm
      exact hterm
    · cases h
  | stuck hbatch hsend =>
    cases h
    obtain ⟨chunk, hadvances, hsends₁, hcases⟩ :=
      Active.receiveBatch_codec hsends hreads hpending hbatch
    obtain ⟨_, h, -⟩ | ⟨h, -⟩ | ⟨_, h, -, hreads₁⟩ := hcases
    · cases h
    · cases h
    · obtain ⟨hruns, herror⟩ := Active.pollSend_codec hsends₁ hreads₁ hsend
      have hboth := hadvances.trans hruns.advances
      exact hfail (herror _ rfl) hboth hruns.sends rfl
  | @sent a₁ a' progress sent frames hbatch hsend =>
    obtain ⟨chunk, hadvances, hsends₁, hcases⟩ :=
      Active.receiveBatch_codec hsends hreads hpending hbatch
    obtain ⟨_, h, -⟩ | ⟨h, -⟩ | ⟨_, hprogress, hne, hreads₁⟩ := hcases
    · cases h
    · cases h
    · cases hprogress
      obtain ⟨hruns, -⟩ := Active.pollSend_codec hsends₁ hreads₁ hsend
      have hboth := hadvances.trans hruns.advances
      have hreads' := hruns.reads
      rw [List.append_nil] at hboth hreads'
      have hs' : s' = ⟨.active a', .none⟩ := by
        match progress with
        | .pending =>
          cases h
          rfl
        | .ready .empty =>
          cases h
          rfl
        | .ready (.inbound stream) =>
          cases h
          rfl
        | .ready (.downgraded future) => exact absurd rfl (hne future)
      subst hs'
      exact ⟨chunk, .active (hboth.frameLimit.trans hlimit) hruns.sends hreads', _, _, rfl, rfl,
        hboth.inbox, hboth.out⟩

/-- A poll of the future goes on, fails, or gives the transport back. -/
theorem recover_holds {future : Downgraded} {codec : RammuxCodec} {streams : Streams}
    {readings : List ReadTurn} {turns : List WriteTurn} {o : Answer}
    (hcodec : future.codec = some codec) (hlimit : codec.frameLimit = limit)
    (hsending : future.Sending codec) (hreceiving : future.Receiving codec read)
    (h : step ⟨.downgraded streams, .polling future⟩ (.recover readings turns) = .ok (o, s')) :
    ∃ chunk, s'.Holds limit (read ++ chunk) [] ∧
      Advances ⟨.downgraded streams, .polling future⟩ s' chunk := by
  obtain ⟨⟨res, future'⟩, hpoll, h⟩ := Lib.bind_eq_ok.mp h
  obtain ⟨c', chunk, hadvances, hcases⟩ := Downgraded.poll_codec hcodec hsending hreceiving hpoll
  have hlimit' := hadvances.frameLimit.trans hlimit
  have hio : io ⟨.downgraded streams, .polling future⟩ = some codec.io :=
    io_of_future (.inl rfl) hcodec
  rcases hcases with ⟨rfl, hcodec', hsending', hreceiving'⟩ | ⟨rfl, hsends, hnone, hterm⟩ |
    ⟨e, rfl, hcodec', hsending'⟩
  · cases h
    exact ⟨chunk, .polling hcodec' hlimit' hsending' hreceiving', _, c'.io, hio,
      io_of_future (.inl rfl) hcodec', hadvances.inbox, hadvances.out⟩
  · cases h
    exact ⟨chunk, .recovered (List.append_nil _).symm hsends hnone (hlimit' ▸ hterm), _, c'.io, hio,
      rfl, hadvances.inbox, hadvances.out⟩
  · cases h
    exact ⟨chunk, .failed hcodec' hsending', _, c'.io, hio,
      io_of_future (.inr rfl) hcodec', hadvances.inbox, hadvances.out⟩

/-- A side always has a transport. -/
theorem Holds.io_ne_none (h : s.Holds limit read raw) : s.io ≠ none := by
  cases h with
  | active => exact Option.some_ne_none _
  | poisoned => exact Option.some_ne_none _
  | polling hcodec =>
    rw [io_of_future (.inl rfl) hcodec]
    exact Option.some_ne_none _
  | recovered => exact Option.some_ne_none _
  | failed hcodec =>
    rw [io_of_future (.inr rfl) hcodec]
    exact Option.some_ne_none _

/-- The application uses its streams, whatever became of the connection. -/
theorem Holds.putStreams (h : s.Holds limit read raw) (streams : Streams) :
    Holds limit read raw { s with conn := s.conn.putStreams streams } ∧
      io { s with conn := s.conn.putStreams streams } = s.io := by
  cases h with
  | active hlimit hsends hreads => exact ⟨.active hlimit hsends hreads, rfl⟩
  | poisoned hio hsends => exact ⟨.poisoned hio hsends, rfl⟩
  | polling hcodec hlimit hsending hreceiving =>
    exact ⟨.polling hcodec hlimit hsending hreceiving, rfl⟩
  | recovered hio hsends hnone hread => exact ⟨.recovered hio hsends hnone hread, rfl⟩
  | failed hcodec hsending => exact ⟨.failed hcodec hsending, rfl⟩

/-- Whether the application acts on the connection. -/
def Action.onConn : Action → Bool
  | .progress .. | .open _ | .downgrade => true
  | _ => false

/-- Whether the application acts on the future. -/
def Action.onFuture : Action → Bool
  | .withShutdown | .recover .. => true
  | _ => false

/-- Opening a stream does nothing, or starts it in a slot that is vacant. -/
theorem step_open {key : ℕ} {o : Answer} (h : s.step (.open key) = .ok (o, s')) :
    s' = s ∨ s.conn.streams.outbound.Vacant key ∧
      s' = { s with conn := (s.conn.tryStartOutbound key).2 } := by
  simp only [step] at h
  split_ifs at h with hkey
  · cases h
    exact .inr ⟨hkey, rfl⟩
  · cases h
    exact .inl rfl

/-- A connection that stopped answers with an error, and is left as it is. -/
theorem step_of_stopped {a : Action} {o : Answer} (hconn : ∀ conn, s.conn ≠ .active conn)
    (ha : a.onConn = true) (h : s.step a = .ok (o, s')) : s' = s := by
  by_cases hopen : ∃ key, a = .open key
  · obtain ⟨key, rfl⟩ := hopen
    obtain rfl | ⟨-, rfl⟩ := step_open h
    · rfl
    · obtain ⟨conn, recovery⟩ := s
      cases conn with
      | active conn => exact absurd rfl (hconn conn)
      | poisoned io streams => rfl
      | downgraded streams => rfl
  obtain ⟨conn, recovery⟩ := s
  cases conn with
  | active conn => exact absurd rfl (hconn conn)
  | poisoned io streams =>
    cases a with
    | «open» key => exact absurd ⟨key, rfl⟩ hopen
    | _ => cases ha <;> cases h <;> rfl
  | downgraded streams =>
    cases a with
    | «open» key => exact absurd ⟨key, rfl⟩ hopen
    | _ => cases ha <;> cases h <;> rfl

/-- Without a future to poll, nothing happens. -/
theorem step_of_no_future {a : Action} {o : Answer}
    (hfuture : ∀ future, s.recovery ≠ .polling future)
    (ha : a.onFuture = true) (h : s.step a = .ok (o, s')) : s' = s := by
  obtain ⟨conn, recovery⟩ := s
  cases recovery with
  | polling future => exact absurd rfl (hfuture future)
  | none => cases a <;> cases ha <;> cases h <;> rfl
  | recovered io => cases a <;> cases ha <;> cases h <;> rfl
  | failed future => cases a <;> cases ha <;> cases h <;> rfl

/-- Every step keeps what a side holds, and reads from the front of what there is to read. -/
theorem step_holds {a : Action} {o : Answer} (hs : s.Holds limit read raw)
    (h : s.step a = .ok (o, s')) :
    ∃ chunk, s'.Holds limit (read ++ chunk) raw ∧ s.Advances s' chunk := by
  have hstay {t : Side} (ht : t.Holds limit read raw) (hio : t.io = s.io) :
      ∃ chunk, t.Holds limit (read ++ chunk) raw ∧ s.Advances t chunk :=
    ⟨[], (List.append_nil read).symm ▸ ht, .of_io hio hs.io_ne_none⟩
  by_cases happ : ∃ r op, a = .app r op
  · obtain ⟨r, op, rfl⟩ := happ
    obtain ⟨⟨output, streams⟩, -, h⟩ := Lib.bind_eq_ok.mp h
    cases h
    obtain ⟨hs', hio⟩ := hs.putStreams streams
    exact hstay hs' hio
  -- Only a connection that is active and a future that is pending do anything.
  by_cases hidle : s' = s
  · subst hidle
    exact hstay hs rfl
  have hconn : a.onConn = true → ∃ conn, s.conn = .active conn := by
    intro ha
    by_contra hne
    exact hidle (step_of_stopped (not_exists.mp hne) ha h)
  have hfuture : a.onFuture = true → ∃ future, s.recovery = .polling future := by
    intro ha
    by_contra hne
    exact hidle (step_of_no_future (not_exists.mp hne) ha h)
  cases a with
  | app r op => exact absurd ⟨r, op, rfl⟩ happ
  | progress readings turns =>
    obtain ⟨conn, hconn⟩ := hconn rfl
    cases hs with
    | active hlimit hsends hreads => exact progress_holds hlimit hsends hreads h
    | _ => cases hconn
  | «open» key =>
    obtain ⟨conn, hconn⟩ := hconn rfl
    cases hs with
    | active hlimit hsends hreads =>
      obtain rfl | ⟨-, rfl⟩ := step_open h
      · exact absurd rfl hidle
      · exact hstay (.active hlimit hsends hreads) rfl
    | _ => cases hconn
  | downgrade =>
    obtain ⟨conn, hconn⟩ := hconn rfl
    cases hs with
    | active hlimit hsends hreads =>
      cases h
      exact hstay (.polling rfl hlimit hsends hreads) rfl
    | _ => cases hconn
  | withShutdown =>
    obtain ⟨future, hfuture⟩ := hfuture rfl
    cases hs with
    | polling hcodec hlimit hsending hreceiving =>
      cases h
      exact hstay (.polling hcodec hlimit hsending hreceiving) rfl
    | _ => cases hfuture
  | recover readings turns =>
    obtain ⟨future, hfuture⟩ := hfuture rfl
    cases hs with
    | polling hcodec hlimit hsending hreceiving =>
      exact recover_holds hcodec hlimit hsending hreceiving h
    | _ => cases hfuture

/-- Once the transport is given back, it is the application's. -/
theorem step_recovered {a : Action} {o : Answer} {io : Transport} (hs : s.Holds limit read raw)
    (hio : s.recovery = .recovered io) (h : s.step a = .ok (o, s')) :
    s'.recovery = .recovered io := by
  have hconn : ∀ conn, s.conn ≠ .active conn := by
    cases hs with
    | recovered => exact fun _ => ConnState.noConfusion
    | _ => cases hio
  have hfuture : ∀ future, s.recovery ≠ .polling future := by
    intro future heq
    cases hio.symm.trans heq
  cases a with
  | app r op =>
    obtain ⟨⟨output, streams⟩, -, h⟩ := Lib.bind_eq_ok.mp h
    cases h
    exact hio
  | progress readings turns => rw [step_of_stopped hconn rfl h, hio]
  | «open» key => rw [step_of_stopped hconn rfl h, hio]
  | downgrade => rw [step_of_stopped hconn rfl h, hio]
  | withShutdown => rw [step_of_no_future hfuture rfl h, hio]
  | recover readings turns => rw [step_of_no_future hfuture rfl h, hio]

/-! ## What was written, as strings of frames -/

/-- The bytes of `TERM`. -/
def term : Bytes := OutFrame.terminate.encoding 0

/-- Strings that are encodings of frames other than `TERM`. -/
def Framed (strs : List Bytes) : Prop := ∀ s ∈ strs, ∃ f : OutFrame, f.term = false ∧ f.Encoded s

/-- What the frames of a connection are encoded to is a sequence of frames. -/
theorem framed_of_encoded {frames : List OutFrame} {strs : List Bytes}
    (hframes : ∀ f ∈ frames, f.term = false) (h : List.Forall₂ OutFrame.Encoded frames strs) :
    Framed strs := by
  intro s hs
  induction h with
  | nil => cases hs
  | cons hf _ ih =>
    rcases List.mem_cons.mp hs with rfl | hs
    · exact ⟨_, hframes _ List.mem_cons_self, hf⟩
    · exact ih (fun f hf => hframes f (List.mem_cons_of_mem _ hf)) hs

/-- The encoding of the closing frame is `TERM`. -/
theorem encoded_terminate {s : Bytes} (h : OutFrame.terminate.Encoded s) : s = term := by
  obtain ⟨t, rfl⟩ := h.bytes
  rw [term, OutFrame.encoding, OutFrame.encoding, OutFrame.header_of_not_ping rfl 0]

/-- Before `TERM`, what was written is a beginning of frames. -/
theorem framed_of_sendsFrames {c : RammuxCodec} (h : c.SendsFrames) :
    ∃ strs, Framed strs ∧ c.io.out.map Prod.fst <+: strs.flatten := by
  obtain ⟨frames, hframes, hsends⟩ := h
  obtain ⟨strs, hstrs, hout, -⟩ := hsends.encodings
  exact ⟨strs, framed_of_encoded hframes hstrs, hout⟩

/-- With `TERM` handed over after the frames, what was written is a beginning of their encodings and
`TERM`, and all of it once nothing is pending. -/
theorem encodings_term {c : RammuxCodec} {frames : List OutFrame}
    (h : c.Sends (frames ++ [.terminate])) :
    ∃ strs, List.Forall₂ OutFrame.Encoded frames strs ∧
      c.io.out.map Prod.fst <+: strs.flatten ++ term ∧
      (c.pending = none → c.io.out.map Prod.fst = strs.flatten ++ term) := by
  obtain ⟨strs, hstrs, hout, hall⟩ := h.encodings
  -- The last string is that of `TERM`.
  have hfirst := (List.forall₂_take_append _ _ _ hstrs.flip).flip
  have hlast := (List.forall₂_drop_append _ _ _ hstrs.flip).flip
  obtain ⟨last, rest, hterm, hrest, hdrop⟩ := List.forall₂_cons_left_iff.mp hlast
  cases hrest
  have hflatten : strs.flatten = (strs.take frames.length).flatten ++ term := by
    conv_lhs => rw [← List.take_append_drop frames.length strs, List.flatten_append, hdrop,
      List.flatten_singleton, encoded_terminate hterm]
  rw [hflatten] at hout hall
  exact ⟨_, hfirst, hout, hall⟩

/-- A codec that was handed `TERM` writes frames, and then `TERM`, and all of it when nothing is
pending. -/
theorem framed_of_sendsTerm {c : RammuxCodec} (h : c.SendsTerm) :
    ∃ strs, Framed strs ∧ c.io.out.map Prod.fst <+: strs.flatten ++ term ∧
      (c.pending = none → c.io.out.map Prod.fst = strs.flatten ++ term) := by
  obtain ⟨frames, hframes, hsends⟩ := h
  obtain ⟨strs, hstrs, hout, hall⟩ := encodings_term hsends
  exact ⟨strs, framed_of_encoded hframes hstrs, hout, hall⟩

/-- The bytes that were written to the transport. -/
def written (s : Side) : Bytes := s.io.elim [] fun io => io.out.map Prod.fst

/-- What a side wrote is what its transport took. -/
theorem written_of_io {io : Transport} (h : s.io = some io) : s.written = io.out.map Prod.fst := by
  rw [written, h]
  rfl

/-- The bytes that arrived and were not read. -/
def unread (s : Side) : Bytes := s.io.elim [] fun io => io.inbox.bytes

/-- What a side has not read waits in its transport. -/
theorem unread_of_io {io : Transport} (h : s.io = some io) : s.unread = io.inbox.bytes := by
  rw [unread, h]
  rfl

/-- What was written is a beginning of frames, of `TERM`, and of what the application wrote; once
the transport is given back it is all of them. -/
theorem Holds.framed (h : s.Holds limit read raw) :
    ∃ strs tail, Framed strs ∧ s.written <+: strs.flatten ++ tail ∧
      (tail = [] ∨ tail = term ++ raw) ∧
      ((∃ io, s.recovery = .recovered io) → s.written = strs.flatten ++ (term ++ raw)) ∧
      ((∀ io, s.recovery ≠ .recovered io) → raw = []) := by
  -- The future was handed `TERM` or not, and has written a beginning of it in either case.
  have hfuture {future : Downgraded} {codec : RammuxCodec} (hsending : future.Sending codec) :
      ∃ strs tail, Framed strs ∧ codec.io.out.map Prod.fst <+: strs.flatten ++ tail ∧
        (tail = [] ∨ tail = term ++ []) := by
    have hterm (hsends : codec.SendsTerm) : ∃ strs tail, Framed strs ∧
        codec.io.out.map Prod.fst <+: strs.flatten ++ tail ∧ (tail = [] ∨ tail = term ++ []) := by
      obtain ⟨strs, hstrs, hout, -⟩ := framed_of_sendsTerm hsends
      exact ⟨strs, term, hstrs, hout, .inr (List.append_nil _).symm⟩
    unfold Downgraded.Sending at hsending
    split at hsending
    · obtain ⟨strs, hstrs, hout⟩ := framed_of_sendsFrames hsending
      exact ⟨strs, [], hstrs, (List.append_nil _).symm ▸ hout, .inl rfl⟩
    · exact hterm hsending
    · exact hterm hsending.1
    · exact hterm hsending.1
  cases h with
  | active _ hsends =>
    obtain ⟨strs, hstrs, hout⟩ := framed_of_sendsFrames hsends
    exact ⟨strs, [], hstrs, (List.append_nil _).symm ▸ hout, .inl rfl, nofun, fun _ => rfl⟩
  | poisoned hio hsends =>
    obtain ⟨strs, hstrs, hout⟩ := framed_of_sendsFrames hsends
    rw [← hio] at hout
    exact ⟨strs, [], hstrs, (List.append_nil _).symm ▸ hout, .inl rfl, nofun, fun _ => rfl⟩
  | polling hcodec _ hsending =>
    obtain ⟨strs, tail, hstrs, hout, htail⟩ := hfuture hsending
    refine ⟨strs, tail, hstrs, ?_, htail, nofun, fun _ => rfl⟩
    rw [written_of_io (io_of_future (.inl rfl) hcodec)]
    exact hout
  | recovered hio hsends hnone =>
    -- All is written, and then the bytes are the application's.
    obtain ⟨strs, hstrs, -, hout⟩ := framed_of_sendsTerm hsends
    have heq := hio.trans (congrArg (· ++ _) (hout hnone))
    rw [List.append_assoc] at heq
    exact ⟨strs, _, hstrs, heq ▸ List.prefix_rfl, .inr rfl, fun _ => heq,
      fun hne => absurd rfl (hne _)⟩
  | failed hcodec hsending =>
    obtain ⟨strs, tail, hstrs, hout, htail⟩ := hfuture hsending
    refine ⟨strs, tail, hstrs, ?_, htail, nofun, fun _ => rfl⟩
    rw [written_of_io (io_of_future (.inr rfl) hcodec)]
    exact hout

/-- Whoever has the transport back has read up to `TERM`. -/
theorem Holds.readTerm {io : Transport} (h : s.Holds limit read raw)
    (hio : s.recovery = .recovered io) : RammuxCodec.ReadTerm limit read := by
  cases h with
  | recovered _ _ _ hread => exact hread
  | _ => cases hio

/-- `TERM` is offered by the grammar as the item that ends the frames. -/
theorem offers_term (limit : ℕ) : (grammar limit).Offers .terminate term := by
  have hencoded : OutFrame.terminate.Encoded term :=
    ⟨(OutFrame.legal_terminate 0).header (by decide) 0, by decide, 0, rfl⟩
  obtain ⟨i, hi, hoffers⟩ := hencoded.offers limit
  rwa [hi.mpr rfl] at hoffers

/-- What happens to the transport wherever it is. -/
theorem io_mapIo (s : Side) (f : Transport → Transport) : (s.mapIo f).io = s.io.map f := by
  obtain ⟨conn, recovery⟩ := s
  cases recovery with
  | none => cases conn <;> rfl
  | polling future =>
    change (future.codec.map _).map _ = (future.codec.map _).map f
    rw [Option.map_map, Option.map_map]
    rfl
  | recovered io => rfl
  | failed future =>
    change (future.codec.map _).map _ = (future.codec.map _).map f
    rw [Option.map_map, Option.map_map]
    rfl

/-- What happens to a transport does not take it back from the connection. -/
theorem recovery_mapIo {f : Transport → Transport} (s : Side)
    (h : ∀ io, (s.mapIo f).recovery ≠ .recovered io) (io : Transport) :
    s.recovery ≠ .recovered io := by
  obtain ⟨conn, recovery⟩ := s
  rintro rfl
  exact h (f io) rfl

/-- Bytes that arrive change nothing of what a side holds. -/
theorem Holds.mapIo (h : s.Holds limit read raw) {f : Transport → Transport}
    (hf : ∀ io, (f io).out = io.out) : (s.mapIo f).Holds limit read raw := by
  have hsame (codec : RammuxCodec) : codec.SameWriter { codec with io := f codec.io } :=
    ⟨hf _, rfl, rfl, rfl⟩
  have hcodec' {future : Downgraded} {codec : RammuxCodec} (hcodec : future.codec = some codec) :
      future.codec.map (fun codec => { codec with io := f codec.io }) =
        some { codec with io := f codec.io } := by
    rw [hcodec]
    rfl
  cases h with
  | active hlimit hsends hreads =>
    obtain ⟨frames, hframes, hsends⟩ := hsends
    exact .active hlimit ⟨frames, hframes, hsends.congr (hsame _)⟩ hreads
  | poisoned hio hsends => exact .poisoned ((hf _).trans hio) hsends
  | polling hcodec hlimit hsending hreceiving =>
    exact .polling (hcodec' hcodec) hlimit (hsending.congr (hsame _) rfl) hreceiving
  | recovered hio hsends hnone hread =>
    exact .recovered ((congrArg (List.map Prod.fst) (hf _)).trans hio) hsends hnone hread
  | failed hcodec hsending => exact .failed (hcodec' hcodec) (hsending.congr (hsame _) rfl)

/-- The application writes to the transport that it got back. -/
theorem Holds.write {io : Transport} (h : s.Holds limit read raw) (hio : s.recovery = .recovered io)
    (data : Bytes) (now : Instant) :
    (s.mapIo fun io => { io with out := io.out ++ data.map fun b => (b, now) }).Holds limit read
      (raw ++ data) := by
  cases h with
  | recovered hout hsends hnone hread =>
    refine .recovered ?_ hsends hnone hread
    rw [List.map_append, hout, List.map_map, List.append_assoc]
    congr 2
    exact List.map_id _
  | _ => cases hio

/-- A reader that took frames up to `TERM` from what a writer wrote has taken what the writer wrote
as frames and as `TERM`. -/
theorem read_of_readTerm {strs : List Bytes} {tail : Bytes}
    (hread : RammuxCodec.ReadTerm limit read)
    (hstrs : Framed strs) (htail : tail = [] ∨ tail = term ++ raw)
    (h : read <+: strs.flatten ++ tail) : tail = term ++ raw ∧ read = strs.flatten ++ term := by
  obtain ⟨taken, last, rfl, htaken, hlast⟩ := hread
  have hterm := offers_term limit
  have hwritten : ∀ s ∈ strs, ∃ i, ¬ i = .terminate ∧ (grammar limit).Offers i s := by
    intro s hs
    obtain ⟨f, hf, hencoded⟩ := hstrs s hs
    obtain ⟨i, hi, hoffers⟩ := hencoded.offers limit
    exact ⟨i, fun heq => Bool.false_ne_true (hf.symm.trans (hi.mp heq)), hoffers⟩
  obtain ⟨rfl, hbegins⟩ := Lib.Grammar.cut_unique (P := (· = .terminate)) htaken hlast rfl hwritten
    (htail.imp_right fun heq => ⟨term, raw, _, heq, rfl, hterm⟩) h
  obtain ⟨rest, hbegins⟩ := hbegins
  rcases htail with rfl | rfl
  · exact absurd (List.append_eq_nil_iff.mp hbegins).1 hlast.ne_nil
  · obtain ⟨-, rfl, -⟩ := hlast.eq_of_append_eq hterm hbegins
    exact ⟨rfl, rfl⟩

end Side

end Rammux
