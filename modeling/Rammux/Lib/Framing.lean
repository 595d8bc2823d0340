import Mathlib

/-!
# Strings of frames

A grammar says of a string whether it begins with a frame, with something that is no frame, or with
less than a frame (`Grammar.parse`). `Grammar.parseAll` reads one frame after the other, as far as
there are frames, and says how the string ends. Frames that the grammar reads back, one written
after the other, are read back as a whole (`parseAll_frames`).

A reader and a writer of one string each cut it into frames: the reader into what it took for
frames, the writer into what it wrote as such. Up to the first frame that ends the string, the two
cuts are the same (`Grammar.cut_unique`), and before that the reader has the first of the writer's
frames (`Grammar.taken_prefix`).
-/

namespace Rammux.Lib

variable {β ι ε : Type*}

/-- What a string begins with. -/
inductive Parsed (β ι ε : Type*) where
  /-- A frame, and what comes after it. -/
  | item (i : ι) (rest : List β)
  /-- Something that is no frame. -/
  | error (e : ε)
  /-- Less than a frame. -/
  | short
  deriving DecidableEq

/-- How a string of frames ends. -/
inductive Ending (ε : Type*) where
  /-- After a frame. -/
  | clean
  /-- Within a frame. -/
  | cut
  /-- With something that is no frame. -/
  | error (e : ε)
  deriving DecidableEq

/-- A grammar of frames. -/
structure Grammar (β ι ε : Type*) where
  parse : List β → Parsed β ι ε
  /-- A frame is a beginning of the string, and is not empty. -/
  consumes : ∀ {s i rest}, parse s = .item i rest → ∃ frame, frame ≠ [] ∧ s = frame ++ rest

namespace Grammar

variable (g : Grammar β ι ε)

/-- An item takes at least one symbol. -/
theorem length_lt {s rest : List β} {i : ι} (h : g.parse s = .item i rest) :
    rest.length < s.length := by
  obtain ⟨frame, hne, rfl⟩ := g.consumes h
  rw [List.length_append]
  have := List.length_pos_iff.mpr hne
  omega

/-- The frames of a string, each with what comes after it, and how the string ends. -/
def parseAll (s : List β) : List (ι × List β) × Ending ε :=
  match h : g.parse s with
  | .item i rest =>
    have := g.length_lt h
    let r := parseAll rest
    ((i, rest) :: r.1, r.2)
  | .error e => ([], .error e)
  | .short => ([], if s.isEmpty then .clean else .cut)
termination_by s.length

variable {g}

/-- A string that begins with an item is that item, and what the rest is. -/
theorem parseAll_item {s rest : List β} {i : ι} (h : g.parse s = .item i rest) :
    g.parseAll s = ((i, rest) :: (g.parseAll rest).1, (g.parseAll rest).2) := by
  rw [parseAll]
  split
  · next h' =>
    rw [h] at h'
    cases h'
    rfl
  · next h' => rw [h] at h'; cases h'
  · next h' => rw [h] at h'; cases h'

/-- A string that begins with an error is that error. -/
theorem parseAll_error {s : List β} {e : ε} (h : g.parse s = .error e) :
    g.parseAll s = ([], .error e) := by
  rw [parseAll]
  split
  · next h' => rw [h] at h'; cases h'
  · next h' =>
    rw [h] at h'
    cases h'
    rfl
  · next h' => rw [h] at h'; cases h'

/-- A string that is too short for an item is empty, or cut. -/
theorem parseAll_short {s : List β} (h : g.parse s = .short) :
    g.parseAll s = ([], if s.isEmpty then .clean else .cut) := by
  rw [parseAll]
  split
  · next h' => rw [h] at h'; cases h'
  · next h' => rw [h] at h'; cases h'
  · rfl

/-- The frames that are written for some values, each with what is written after it. -/
def frames {α : Type*} (write : α → List β) (read : α → ι) : List α → List β → List (ι × List β)
  | [], _ => []
  | a :: as, s => (read a, (as.map write).flatten ++ s) :: frames write read as s

/-- The items of frames that were written are those that were meant. -/
theorem map_fst_frames {α : Type*} (write : α → List β) (read : α → ι) (as : List α) (s : List β) :
    (frames write read as s).map Prod.fst = as.map read := by
  induction as with
  | nil => rfl
  | cons a as ih => rw [frames, List.map_cons, List.map_cons, ih]

/-- Frames that the grammar reads back one by one, it reads back as a whole. -/
theorem parseAll_frames {α : Type*} {write : α → List β} {read : α → ι} {as : List α}
    (h : ∀ a ∈ as, ∀ s, g.parse (write a ++ s) = .item (read a) s) (s : List β) :
    g.parseAll ((as.map write).flatten ++ s) =
      (frames write read as s ++ (g.parseAll s).1, (g.parseAll s).2) := by
  induction as with
  | nil => rfl
  | cons a as ih =>
    have hhead := h a List.mem_cons_self ((as.map write).flatten ++ s)
    rw [List.map_cons, List.flatten_cons, List.append_assoc, parseAll_item hhead,
      ih fun a' ha' => h a' (List.mem_cons_of_mem a ha')]
    rfl

/-- A string is a frame, whatever comes after it. -/
def Frame (g : Grammar β ι ε) (i : ι) (s : List β) : Prop :=
  ∀ more, g.parse (s ++ more) = .item i more

/-- A string is the given frame for whoever takes a frame from it. -/
def Offers (g : Grammar β ι ε) (i : ι) (s : List β) : Prop :=
  ∀ more j rest, g.parse (s ++ more) = .item j rest → j = i ∧ rest = more

/-- Whoever takes a frame from what begins with a written one has taken that one. -/
theorem Frame.eq_of_append_eq {i j : ι} {s t more rest : List β} (hs : g.Frame i s)
    (ht : g.Offers j t) (h : s ++ rest = t ++ more) : i = j ∧ s = t ∧ rest = more := by
  have hparse := hs rest
  rw [h] at hparse
  obtain ⟨hi, rfl⟩ := ht _ _ _ hparse
  exact ⟨hi, List.append_cancel_right h, rfl⟩

/-- A frame is not empty. -/
theorem Frame.ne_nil {i : ι} {s : List β} (h : g.Frame i s) : s ≠ [] := by
  rintro rfl
  exact Nat.lt_irrefl _ (g.length_lt (h []))

/-- The reader has taken frames, the last of which is the first to satisfy `P`. The writer has
written frames, none of which satisfies `P`, and then perhaps one that does, and something. If what
was read is a beginning of what was written, then the frames are the same. -/
theorem cut_unique {P : ι → Prop} {taken written : List (List β)} {last : List β} {k : ι}
    (htaken : ∀ s ∈ taken, ∃ i, ¬ P i ∧ g.Frame i s) (hlast : g.Frame k last) (hk : P k)
    (hwritten : ∀ s ∈ written, ∃ i, ¬ P i ∧ g.Offers i s) {tail : List β}
    (htail : tail = [] ∨ ∃ s more j, tail = s ++ more ∧ P j ∧ g.Offers j s)
    (h : taken.flatten ++ last <+: written.flatten ++ tail) :
    taken = written ∧ last <+: tail := by
  obtain ⟨rest, h⟩ := h
  -- By induction on the frames that were written: each one is the next that was taken.
  induction written generalizing taken with
  | nil =>
    rw [List.flatten_nil, List.nil_append] at h
    cases taken with
    | nil => exact ⟨rfl, rest, h⟩
    | cons c cs =>
      obtain ⟨i, hi, hc⟩ := htaken c List.mem_cons_self
      rw [List.flatten_cons, List.append_assoc, List.append_assoc] at h
      -- A frame that was taken would begin the tail, which is empty or satisfies `P`.
      rcases htail with rfl | ⟨s, more, j, rfl, hj, hs⟩
      · exact absurd (List.append_eq_nil_iff.mp h).1 hc.ne_nil
      · exact absurd ((hc.eq_of_append_eq hs h).1 ▸ hj) hi
  | cons w ws ih =>
    obtain ⟨j, hj, hw⟩ := hwritten w List.mem_cons_self
    rw [List.flatten_cons, List.append_assoc, List.append_assoc] at h
    cases taken with
    -- The last frame would be `w`, which does not satisfy `P`.
    | nil => exact absurd ((hlast.eq_of_append_eq hw h).1 ▸ hk) hj
    | cons c cs =>
      obtain ⟨i, -, hc⟩ := htaken c List.mem_cons_self
      rw [List.flatten_cons, List.append_assoc] at h
      obtain ⟨-, rfl, hrest⟩ := hc.eq_of_append_eq hw h
      obtain ⟨rfl, hbegins⟩ := ih (fun s hs => htaken s (List.mem_cons_of_mem c hs))
        (fun s hs => hwritten s (List.mem_cons_of_mem c hs)) (by rw [List.append_assoc, hrest])
      exact ⟨rfl, hbegins⟩

/-- The reader has taken frames, none of which satisfies `P`. The writer has written frames, and
then perhaps one that satisfies `P`, and something. If what was read is a beginning of what was
written, then the reader has taken the first of the writer's frames. -/
theorem taken_prefix {P : ι → Prop} {taken written : List (List β)}
    (htaken : ∀ s ∈ taken, ∃ i, ¬ P i ∧ g.Frame i s) (hwritten : ∀ s ∈ written, ∃ i, g.Offers i s)
    {tail : List β} (htail : tail = [] ∨ ∃ s more j, tail = s ++ more ∧ P j ∧ g.Offers j s)
    (h : taken.flatten <+: written.flatten ++ tail) : taken <+: written := by
  obtain ⟨rest, h⟩ := h
  induction taken generalizing written with
  | nil => exact List.nil_prefix
  | cons c cs ih =>
    obtain ⟨i, hi, hc⟩ := htaken c List.mem_cons_self
    rw [List.flatten_cons, List.append_assoc] at h
    cases written with
    | nil =>
      -- A frame that does not satisfy `P` is not the one that does.
      rw [List.flatten_nil, List.nil_append] at h
      rcases htail with rfl | ⟨s, more, j, rfl, hj, hs⟩
      · exact absurd (List.append_eq_nil_iff.mp h).1 hc.ne_nil
      · exact absurd ((hc.eq_of_append_eq hs h).1 ▸ hj) hi
    | cons w ws =>
      obtain ⟨j, hw⟩ := hwritten w List.mem_cons_self
      rw [List.flatten_cons, List.append_assoc] at h
      obtain ⟨-, rfl, hrest⟩ := hc.eq_of_append_eq hw h
      have hprefix := ih (fun s hs => htaken s (List.mem_cons_of_mem c hs))
        (fun s hs => hwritten s (List.mem_cons_of_mem c hs)) hrest
      exact List.cons_prefix_cons.mpr ⟨rfl, hprefix⟩

end Grammar

end Rammux.Lib
