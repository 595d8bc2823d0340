import Mathlib

/-!
# A queue in which nobody is overtaken

Whoever is served is at the front of the queue, or the queue is empty; whoever joins, joins at the
back, and so does whoever is served and wants more. `Move` is what can happen to such a queue.
While somebody waits in it, those who are served were ahead, and each is served once
(`Waits.served`).
-/

namespace Rammux.Lib

variable {α : Type*} [DecidableEq α]

/-- Those who are ahead in a queue. -/
def ahead (q : List α) (x : α) : List α := q.takeWhile (· ≠ x)

/-- What somebody does in a queue, and whether they are served. -/
inductive Move (y : α) (q : List α) : List α → Bool → Prop
  | stay : Move y q q false
  | leave : Move y q (q.erase y) false
  | join (h : y ∉ q) : Move y q (q ++ [y]) false
  /-- The one who is served leaves. -/
  | serve (h : q = [] ∨ q.head? = some y) : Move y q (q.erase y) true
  /-- The one who is served joins again. -/
  | again (h : q = [] ∨ q.head? = some y) : Move y q (q.erase y ++ [y]) true

variable {q q' : List α} {x y : α} {b : Bool}

/-- Whoever is in front is ahead of all others. -/
theorem ahead_cons_of_ne (h : y ≠ x) (q : List α) : ahead (y :: q) x = y :: ahead q x := by
  simp [ahead, h]

/-- Whoever joins at the end is ahead of nobody. -/
theorem ahead_append_of_mem (h : x ∈ q) (l : List α) : ahead (q ++ l) x = ahead q x := by
  induction q with
  | nil => cases h
  | cons z q ih =>
    by_cases hz : z = x
    · simp [ahead, hz]
    · rw [List.cons_append, ahead_cons_of_ne hz, ahead_cons_of_ne hz,
        ih ((List.mem_cons.mp h).resolve_left (Ne.symm hz))]

/-- When one leaves, the others that were ahead stay ahead. -/
theorem ahead_erase_of_ne (h : y ≠ x) (q : List α) : ahead (q.erase y) x = (ahead q x).erase y := by
  induction q with
  | nil => rfl
  | cons z q ih =>
    by_cases hz : z = x
    · subst hz
      rw [List.erase_cons_tail (by simpa using h.symm)]
      simp [ahead]
    · by_cases hzy : z = y
      · subst hzy
        rw [List.erase_cons_head, ahead_cons_of_ne hz, List.erase_cons_head]
      · rw [List.erase_cons_tail (by simpa using hzy), ahead_cons_of_ne hz, ahead_cons_of_ne hz, ih,
          List.erase_cons_tail (by simpa using hzy)]

/-- Nobody is ahead twice. -/
theorem nodup_ahead (h : q.Nodup) (x : α) : (ahead q x).Nodup :=
  h.sublist (List.takeWhile_sublist _)

/-- Nobody is in the queue twice after a move. -/
theorem Move.nodup (h : Move y q q' b) (hq : q.Nodup) : q'.Nodup := by
  have hback : ∀ {l : List α}, l.Nodup → y ∉ l → (l ++ [y]).Nodup := by
    intro l hl hy
    refine List.nodup_append.mpr ⟨hl, List.nodup_singleton y, ?_⟩
    rintro a ha z hz rfl
    exact hy (List.mem_singleton.mp hz ▸ ha)
  cases h with
  | stay => exact hq
  | leave | serve => exact hq.erase y
  | join hy => exact hback hq hy
  | again => exact hback (hq.erase y) hq.not_mem_erase

/-- Whoever does something can also leave at once. -/
theorem Move.erase (h : Move y q q' b) (hq : q.Nodup) : Move y q (q'.erase y) b := by
  have hback : ∀ {l : List α}, y ∉ l → (l ++ [y]).erase y = l := by
    intro l hy
    rw [List.erase_append_right _ hy]
    simp
  cases h with
  | stay => exact .leave
  | leave =>
    rw [List.erase_of_not_mem hq.not_mem_erase]
    exact .leave
  | join hy =>
    rw [hback hy]
    exact .stay
  | serve hturn =>
    rw [List.erase_of_not_mem hq.not_mem_erase]
    exact .serve hturn
  | again hturn =>
    rw [hback hq.not_mem_erase]
    exact .serve hturn

/-- Somebody who waits, and what another one does: nobody comes ahead, and who is served was ahead
and is no more. -/
theorem Move.ahead (h : Move y q q' b) (hq : q.Nodup) (hx : x ∈ q) (hne : y ≠ x) :
    (∀ z ∈ Lib.ahead q' x, z ∈ Lib.ahead q x) ∧
      (b = true → y ∈ Lib.ahead q x ∧ y ∉ Lib.ahead q' x) := by
  have hserved : q = [] ∨ q.head? = some y → y ∈ Lib.ahead q x := by
    rintro (rfl | hhead)
    · cases hx
    · obtain ⟨l, rfl⟩ := List.head?_eq_some_iff.mp hhead
      rw [ahead_cons_of_ne hne]
      exact List.mem_cons_self
  have hout : y ∉ (Lib.ahead q x).erase y := (nodup_ahead hq x).not_mem_erase
  have hxy : x ∈ q.erase y := (List.mem_erase_of_ne hne.symm).mpr hx
  cases h with
  | stay => exact ⟨fun _ hz => hz, nofun⟩
  | leave =>
    rw [ahead_erase_of_ne hne]
    exact ⟨fun _ hz => List.mem_of_mem_erase hz, nofun⟩
  | join hy =>
    rw [ahead_append_of_mem hx]
    exact ⟨fun _ hz => hz, nofun⟩
  | serve hturn =>
    rw [ahead_erase_of_ne hne]
    exact ⟨fun _ hz => List.mem_of_mem_erase hz, fun _ => ⟨hserved hturn, hout⟩⟩
  | again hturn =>
    rw [ahead_append_of_mem hxy, ahead_erase_of_ne hne]
    exact ⟨fun _ hz => List.mem_of_mem_erase hz, fun _ => ⟨hserved hturn, hout⟩⟩

/-- Moves of a queue while somebody waits in it and is not served, and those who are served. -/
inductive Waits (x : α) : List α → List α → List α → Prop
  | nil {q : List α} (hx : x ∈ q) : Waits x q [] q
  | idle {q q₁ q' : List α} {y : α} {ys : List α} (hx : x ∈ q) (h : Move y q q₁ false)
      (rest : Waits x q₁ ys q') : Waits x q ys q'
  | serve {q q₁ q' : List α} {y : α} {ys : List α} (hx : x ∈ q) (h : Move y q q₁ true)
      (hne : y ≠ x) (rest : Waits x q₁ ys q') : Waits x q (y :: ys) q'

/-- Whoever waits is in the queue. -/
theorem Waits.mem {ys : List α} (h : Waits x q ys q') : x ∈ q := by
  cases h <;> assumption

/-- What somebody who waits does without being served leaves those ahead where they are. -/
theorem Move.ahead_self (h : Move x q q' false) (hq : q.Nodup) (hx : x ∈ q) (hx' : x ∈ q') :
    Lib.ahead q' x = Lib.ahead q x := by
  cases h with
  | stay => rfl
  | leave => exact absurd hx' hq.not_mem_erase
  | join hnot => exact absurd hx hnot

/-- Nobody is overtaken: those who are served were ahead, and each of them is served once. -/
theorem Waits.served {ys : List α} (h : Waits x q ys q') (hq : q.Nodup) :
    ys.Nodup ∧ ∀ y ∈ ys, y ∈ ahead q x := by
  induction h with
  | nil hx => exact ⟨.nil, nofun⟩
  | @idle q q₁ q' y ys hx hmove rest ih =>
    obtain ⟨hnodup, hahead⟩ := ih (hmove.nodup hq)
    refine ⟨hnodup, fun z hz => ?_⟩
    by_cases hy : y = x
    · subst hy
      rw [← hmove.ahead_self hq hx rest.mem]
      exact hahead z hz
    · exact (hmove.ahead hq hx hy).1 z (hahead z hz)
  | @serve q q₁ q' y ys hx hmove hne rest ih =>
    obtain ⟨hnodup, hahead⟩ := ih (hmove.nodup hq)
    obtain ⟨hsub, hserved⟩ := hmove.ahead hq hx hne
    obtain ⟨hmem, hout⟩ := hserved rfl
    refine ⟨List.nodup_cons.mpr ⟨fun hy => hout (hahead y hy), hnodup⟩, fun z hz => ?_⟩
    rcases List.mem_cons.mp hz with rfl | hz
    · exact hmem
    · exact hsub z (hahead z hz)

/-- So no more are served than were ahead. -/
theorem Waits.length_served_le {ys : List α} (h : Waits x q ys q') (hq : q.Nodup) :
    ys.length ≤ (ahead q x).length := by
  obtain ⟨hnodup, hahead⟩ := h.served hq
  exact (hnodup.subperm hahead).length_le

end Rammux.Lib
