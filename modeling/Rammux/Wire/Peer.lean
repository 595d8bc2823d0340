import Rammux.Wire.Codec

/-!
# A codec that reads what another one wrote

The codec of one side was handed frames, and what it has written so far begins their encodings,
after which there may be `TERM` and whatever the application writes then (`Incoming`). The codec of
the other side has read a beginning of that. So each frame that it yields is the next one that was
handed over, whatever the transport does on the way, and it never finds an error in what it reads
(`ReadsFrames.pollNext`).
-/

namespace Rammux

open Protocol

/-- The encoding of a frame is that frame for whoever takes one from it. -/
theorem OutFrame.Encoded.offers_item {f : OutFrame} {s : Bytes} (h : f.Encoded s) (limit : ℕ) :
    ∃ t, s = f.encoding t ∧ (grammar limit).Offers (f.item t) s := by
  obtain ⟨t, rfl⟩ := h.bytes
  refine ⟨t, rfl, fun more j rest hparse => ?_⟩
  have henc := OutFrame.parse_encoding h.legal h.fits limit t more
  rw [show (grammar limit).parse = parse limit from rfl, henc] at hparse
  split_ifs at hparse
  cases hparse
  exact ⟨rfl, rfl⟩

/-- A receiver with a limit that is large enough takes the frame from its encoding. -/
theorem OutFrame.Encoded.parse {f : OutFrame} {s : Bytes} (h : f.Encoded s) {limit : ℕ}
    (hlimit : f.data.length ≤ limit) (more : Bytes) :
    ∃ i, parse limit (s ++ more) = .item i more := by
  obtain ⟨t, rfl⟩ := h.bytes
  refine ⟨f.item t, ?_⟩
  rw [OutFrame.parse_encoding h.legal h.fits, if_neg (by omega)]

/-- The frame that one of the encodings is of. -/
theorem OutFrame.encoded_at {frames : List OutFrame} {before after : List Bytes} {s : Bytes}
    (h : List.Forall₂ Encoded frames (before ++ s :: after)) :
    ∃ f, frames[before.length]? = some f ∧ f.Encoded s := by
  have hdrop := List.forall₂_drop_append frames before (s :: after) h
  obtain ⟨f, rest, hf, -, hcons⟩ := List.forall₂_cons_right_iff.mp hdrop
  refine ⟨f, ?_, hf⟩
  have hhead : (frames.drop before.length)[0]? = some f := by rw [hcons, List.getElem?_cons_zero]
  rwa [List.getElem?_drop, Nat.add_zero] at hhead

/-- `TERM` as it is written. -/
theorem OutFrame.encoded_term : OutFrame.terminate.Encoded (OutFrame.terminate.encoding 0) :=
  ⟨(legal_terminate 0).header (by norm_num) 0, by decide, 0, rfl⟩

/-- What there is to read begins the encodings of the frames, and then perhaps `TERM` and what comes
after it. -/
structure Incoming (limit : ℕ) (frames : List OutFrame) (bytes : Bytes) : Prop where
  begins : ∃ strs tail, List.Forall₂ OutFrame.Encoded frames strs ∧
    (tail = [] ∨ ∃ raw, tail = OutFrame.terminate.encoding 0 ++ raw) ∧
    bytes <+: strs.flatten ++ tail
  plain : ∀ f ∈ frames, f.term = false ∧ f.data.length ≤ limit

namespace RammuxCodec

variable {c c' : RammuxCodec} {frames : List OutFrame} {read : Bytes} {k : ℕ}

/-- What a call that reads does to the codec, and what it comes to. -/
theorem pollNext_called {held : Bytes} {answers : List ReadAnswer} {elapsed : Bool}
    {res : Poll DecoderState.Outcome} (hholds : DecoderState.Holds c.frameLimit c.decoder held)
    (h : c.pollNext answers elapsed = .ok (res, c')) :
    ∃ chunk, c.SameWriter c' ∧ c.io.inbox.bytes = chunk ++ c'.io.inbox.bytes ∧
      (DecoderState.Called c.frameLimit (held ++ chunk) c'.io.inbox res c'.decoder ∨
        res = .ready (some (.error (.io .timedOut)))) := by
  obtain ⟨⟨outcome, d, inbox, left⟩, hcall, h⟩ := Lib.bind_eq_ok.mp h
  obtain ⟨_, _, _, _, chunk, hcall', hpost⟩ :=
    DecoderState.pollNextFrame_call hholds c.io.inbox answers
  cases hcall.symm.trans hcall'
  refine ⟨chunk, ?_⟩
  cases outcome with
  | pending =>
    cases elapsed with
    | true =>
      cases h
      exact ⟨⟨rfl, rfl, rfl, rfl⟩, hpost.bytes, .inr rfl⟩
    | false =>
      cases h
      exact ⟨⟨rfl, rfl, rfl, rfl⟩, hpost.bytes, .inl hpost.called⟩
  | ready result =>
    cases h
    exact ⟨⟨rfl, rfl, rfl, rfl⟩, hpost.bytes, .inl hpost.called⟩

/-- What was read is `k` frames, and the beginning of a frame that the decoder holds. -/
def ReadsFrames (c : RammuxCodec) (read : Bytes) (k : ℕ) : Prop :=
  ∃ (taken : List Bytes) (held : Bytes), read = taken.flatten ++ held ∧ taken.length = k ∧
    (∀ s ∈ taken, ∃ i, i ≠ .terminate ∧ (grammar c.frameLimit).Frame i s) ∧
    DecoderState.Holds c.frameLimit c.decoder held

/-- A codec that has read some frames has read. -/
theorem ReadsFrames.reads (h : c.ReadsFrames read k) : c.Reads read := by
  obtain ⟨taken, held, hread, -, htaken, hholds⟩ := h
  exact ⟨taken, held, hread, htaken, hholds⟩

/-- A codec that has read has read some frames. -/
theorem Reads.readsFrames (h : c.Reads read) : ∃ k, c.ReadsFrames read k := by
  obtain ⟨taken, held, hread, htaken, hholds⟩ := h
  exact ⟨taken.length, taken, held, hread, rfl, htaken, hholds⟩

/-- How many frames were read is a matter of the reading half alone. -/
theorem ReadsFrames.congr (h : c.ReadsFrames read k) (hs : c.SameReader c') :
    c'.ReadsFrames read k := by
  unfold ReadsFrames at h ⊢
  rwa [hs.frameLimit, hs.decoder]

/-- What a call that reads comes to, when the peer was handed `frames` and `k` of them were read. -/
inductive Next (c : RammuxCodec) (frames : List OutFrame) (read : Bytes) (k : ℕ)
    (c' : RammuxCodec) :
    Poll DecoderState.Outcome → Prop
  | pending (hreads : c'.ReadsFrames read k) : Next c frames read k c' .pending
  | frame {f : InboundFrame} {frame : OutFrame} {t : UInt32} (hframe : frames[k]? = some frame)
      (hheader : f.header = frame.header t) (hdata : f.data = frame.data)
      (hreads : c'.ReadsFrames read (k + 1)) :
      Next c frames read k c' (.ready (some (.ok (.frame f))))
  | term (hterm : ReadTerm c.frameLimit read) (hlast : k = frames.length) :
      Next c frames read k c' (.ready (some (.ok .terminate)))
  | closed : Next c frames read k c' (.ready none)
  | failed (e : IoError) : Next c frames read k c' (.ready (some (.error (.io e))))

end RammuxCodec

namespace Incoming

variable {limit : ℕ} {frames : List OutFrame} {bytes : Bytes}

/-- Whoever has taken frames from what there is to read has taken the first of those that were
handed over, and what there is to read goes on with the encoding of the next one, or with `TERM`, as
far as it goes on. -/
theorem taken (h : Incoming limit frames bytes) {taken : List Bytes} {rest : Bytes}
    (htaken : ∀ s ∈ taken, ∃ i, i ≠ .terminate ∧ (grammar limit).Frame i s)
    (hbytes : taken.flatten ++ rest = bytes) :
    ∃ strs tail, List.Forall₂ OutFrame.Encoded frames (taken ++ strs) ∧
      (tail = [] ∨ ∃ raw, tail = OutFrame.terminate.encoding 0 ++ raw) ∧
      rest <+: strs.flatten ++ tail := by
  obtain ⟨strs, tail, hstrs, htail, hbegins⟩ := h.begins
  rw [← hbytes] at hbegins
  have hoffers : ∀ s ∈ strs, ∃ i, (grammar limit).Offers i s := by
    intro s hs
    obtain ⟨n, hn, rfl⟩ := List.getElem_of_mem hs
    have hn' : n < frames.length := hstrs.length_eq ▸ hn
    obtain ⟨t, -, hoffers⟩ := ((List.forall₂_iff_get.mp hstrs).2 n hn' hn).offers_item limit
    exact ⟨_, hoffers⟩
  have hprefix : taken <+: strs := by
    refine Lib.Grammar.taken_prefix (P := (· = .terminate)) htaken hoffers ?_
      ((List.prefix_append _ _).trans hbegins)
    refine htail.imp_right ?_
    rintro ⟨raw, rfl⟩
    obtain ⟨t, -, hterm⟩ := OutFrame.encoded_term.offers_item limit
    exact ⟨_, raw, _, rfl, rfl, hterm⟩
  obtain ⟨strs', rfl⟩ := hprefix
  refine ⟨strs', tail, hstrs, htail, ?_⟩
  rw [List.flatten_append, List.append_assoc] at hbegins
  exact (List.prefix_append_right_inj _).mp hbegins

/-- There is no error in what there is to read. -/
theorem parse_ne_error (h : Incoming limit frames bytes) {taken : List Bytes} {held rest : Bytes}
    (htaken : ∀ s ∈ taken, ∃ i, i ≠ .terminate ∧ (grammar limit).Frame i s)
    (hbytes : taken.flatten ++ (held ++ rest) = bytes) (e : DecodeError) :
    ¬ ∀ more, parse limit (held ++ more) = .error e := by
  intro herror
  obtain ⟨strs, tail, hstrs, htail, hbegins⟩ := h.taken htaken hbytes
  -- In each case what is held begins something that parses.
  obtain ⟨more, i, after, hparse⟩ : ∃ more i after, parse limit (held ++ more) = .item i after := by
    have hterm (raw : Bytes) :
        ∃ i, parse limit (OutFrame.terminate.encoding 0 ++ raw) = .item i raw :=
      OutFrame.encoded_term.parse (Nat.zero_le limit) raw
    obtain ⟨more, hmore⟩ := (List.prefix_append held rest).trans hbegins
    cases strs with
    | cons s strs =>
      obtain ⟨f, hf, hencoded⟩ := OutFrame.encoded_at hstrs
      obtain ⟨i, hi⟩ := hencoded.parse (h.plain f (List.mem_of_getElem? hf)).2
        (strs.flatten ++ tail)
      refine ⟨more, i, strs.flatten ++ tail, ?_⟩
      rw [hmore, List.flatten_cons, List.append_assoc]
      exact hi
    | nil =>
      rw [List.flatten_nil, List.nil_append] at hmore
      rcases htail with rfl | ⟨raw, rfl⟩
      · obtain ⟨i, hi⟩ := hterm []
        refine ⟨OutFrame.terminate.encoding 0, i, [], ?_⟩
        rw [(List.append_eq_nil_iff.mp hmore).1, List.nil_append]
        rwa [List.append_nil] at hi
      · obtain ⟨i, hi⟩ := hterm raw
        exact ⟨more, i, raw, hmore ▸ hi⟩
  rw [herror more] at hparse
  cases hparse

/-- `TERM` comes after all the frames that were handed over. -/
theorem length_of_term (h : Incoming limit frames bytes) {taken : List Bytes} {last rest : Bytes}
    (htaken : ∀ s ∈ taken, ∃ i, i ≠ .terminate ∧ (grammar limit).Frame i s)
    (hlast : (grammar limit).Frame .terminate last)
    (hbytes : taken.flatten ++ (last ++ rest) = bytes) : taken.length = frames.length := by
  obtain ⟨strs, tail, hstrs, -, more, hmore⟩ := h.taken htaken hbytes
  cases strs with
  | nil =>
    rw [List.append_nil] at hstrs
    exact hstrs.length_eq.symm
  | cons s strs =>
    -- Otherwise it would be the next of them, and none of them is `TERM`.
    obtain ⟨f, hf, hencoded⟩ := OutFrame.encoded_at hstrs
    obtain ⟨t, -, hoffers⟩ := hencoded.offers_item limit
    rw [List.flatten_cons, List.append_assoc, List.append_assoc] at hmore
    obtain ⟨hitem, -⟩ := hlast.eq_of_append_eq hoffers hmore
    have hterm := (h.plain f (List.mem_of_getElem? hf)).1
    rw [OutFrame.item, if_neg (by rw [hterm]; exact Bool.false_ne_true)] at hitem
    cases hitem

end Incoming

namespace RammuxCodec

variable {c c' : RammuxCodec} {frames : List OutFrame} {read : Bytes} {k : ℕ}

/-- Each frame that is read is the next one that the peer was handed, and reading fails only with
the transport. -/
theorem ReadsFrames.pollNext {answers : List ReadAnswer} {elapsed : Bool}
    {res : Poll DecoderState.Outcome} (h : c.ReadsFrames read k)
    (hin : Incoming c.frameLimit frames (read ++ c.io.inbox.bytes))
    (hcall : c.pollNext answers elapsed = .ok (res, c')) :
    ∃ chunk, c.SameWriter c' ∧ c.io.inbox.bytes = chunk ++ c'.io.inbox.bytes ∧
      Next c frames (read ++ chunk) k c' res := by
  obtain ⟨taken, held, rfl, hlen, htaken, hholds⟩ := h
  obtain ⟨chunk, hsame, hinbox, hcalled⟩ := pollNext_called hholds hcall
  refine ⟨chunk, hsame, hinbox, ?_⟩
  rcases hcalled with hcalled | rfl
  swap
  · exact .failed _
  -- All that the peer wrote is what was taken, what is held, and what is left to read.
  have hbytes : taken.flatten ++ (held ++ chunk ++ c'.io.inbox.bytes) =
      taken.flatten ++ held ++ c.io.inbox.bytes := by
    rw [hinbox]
    simp only [List.append_assoc]
  rcases res with _ | _ | e | f | _
  · -- Less than a frame is left.
    refine .pending ⟨taken, held ++ chunk, by rw [List.append_assoc], hlen, ?_, ?_⟩
    · rwa [hsame.frameLimit]
    · rw [hsame.frameLimit]
      exact hcalled
  · exact .closed
  · -- An error is one of the transport.
    cases e with
    | io e => exact .failed e
    | decode e => exact absurd hcalled (hin.parse_ne_error htaken hbytes e)
    | stream v => exact hcalled.elim
    | alreadyDowngraded => exact hcalled.elim
    | poisoned => exact hcalled.elim
  · -- A frame, which makes one more that was taken.
    obtain ⟨hd, hparse⟩ := hcalled
    have htaken' : ∀ s ∈ taken ++ [held ++ chunk],
        ∃ i, i ≠ .terminate ∧ (grammar c.frameLimit).Frame i s := by
      intro s hs
      rcases List.mem_append.mp hs with hs | hs
      · exact htaken s hs
      · rw [List.mem_singleton.mp hs]
        exact ⟨_, Item.noConfusion, hparse⟩
    have hbytes' : (taken ++ [held ++ chunk]).flatten ++ c'.io.inbox.bytes =
        taken.flatten ++ held ++ c.io.inbox.bytes := by
      rw [List.flatten_append, List.flatten_singleton, List.append_assoc]
      exact hbytes
    -- The strings that were taken begin the encodings, so this one encodes the next frame.
    obtain ⟨strs, tail, hstrs, -, -⟩ := hin.taken htaken' hbytes'
    rw [List.append_assoc, List.singleton_append] at hstrs
    obtain ⟨frame, hframe, hencoded⟩ := OutFrame.encoded_at hstrs
    obtain ⟨t, -, hoffers⟩ := hencoded.offers_item c.frameLimit
    obtain ⟨hitem, -⟩ := hoffers [] _ _ (hparse [])
    have hterm := (hin.plain frame (List.mem_of_getElem? hframe)).1
    rw [OutFrame.item, if_neg (by rw [hterm]; exact Bool.false_ne_true)] at hitem
    obtain ⟨hheader, hdata⟩ := Item.frame.inj hitem
    refine .frame (hlen ▸ hframe) hheader hdata
      ⟨taken ++ [held ++ chunk], [], ?_, ?_, ?_, ?_⟩
    · simp only [List.flatten_append, List.flatten_singleton, List.append_nil, List.append_assoc]
    · rw [List.length_append, List.length_singleton, hlen]
    · rwa [hsame.frameLimit]
    · rw [hd]
      exact DecoderState.holds_default _
  · -- The peer's `TERM` comes after all of its frames.
    refine .term ⟨taken, held ++ chunk, by rw [List.append_assoc], htaken, hcalled.2⟩ ?_
    rw [← hlen]
    exact hin.length_of_term htaken hcalled.2 hbytes

end RammuxCodec

end Rammux
