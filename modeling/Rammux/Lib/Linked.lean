import Mathlib
import Rammux.Lib.Lists

/-!
# Linked sequences

A sequence is linked when its elements point to their neighbours: `Linked`. Following the pointers
from either end visits the elements in order, or in reverse order, and ends (`Follows`). Appending
an element and taking one out of the middle change two pointers each; `Linked.push` and
`Linked.unlink` say which.

A sequence is chained when its elements point forward only, and where the last one points to does
not matter: `Chained`. Such a sequence grows at its end and is consumed from its front.
-/

namespace Rammux.Lib

variable {α : Type*}

/-- Following the pointers visits exactly these elements, and then ends. -/
def Follows (next : α → Option α) : Option α → List α → Prop
  | p, [] => p = none
  | p, x :: xs => p = some x ∧ Follows next (next x) xs

/-- The pointers visit one sequence only. -/
theorem Follows.unique {next : α → Option α} {p : Option α} {xs ys : List α}
    (h : Follows next p xs) (h' : Follows next p ys) : xs = ys := by
  induction xs generalizing p ys with
  | nil =>
    cases ys with
    | nil => rfl
    | cons y ys => cases h.symm.trans h'.1
  | cons x xs ih =>
    cases ys with
    | nil => cases h'.symm.trans h.1
    | cons y ys =>
      obtain rfl : x = y := Option.some.inj (h.1.symm.trans h'.1)
      rw [ih h.2 h'.2]

/-- The sequence has no duplicates, and every element points to its neighbours. -/
structure Linked (head tail : Option α) (next prev : α → Option α) (xs : List α) : Prop where
  nodup : xs.Nodup
  head : head = xs.head?
  tail : tail = xs.getLast?
  next : ∀ a x b, xs = a ++ x :: b → next x = b.head?
  prev : ∀ a x b, xs = a ++ x :: b → prev x = a.getLast?

variable {head head' tail tail' : Option α} {next next' prev prev' : α → Option α} {xs : List α}

/-- No element is linked to nothing. -/
theorem linked_nil (next prev : α → Option α) : Linked none none next prev [] where
  nodup := List.nodup_nil
  head := rfl
  tail := rfl
  next a x b h := absurd h.symm (by simp)
  prev a x b h := absurd h.symm (by simp)

/-- The elements can be visited from the front. -/
theorem Linked.follows_next (h : Linked head tail next prev xs) : Follows next head xs := by
  -- Every rest of the sequence can be visited from its first element.
  have hrest : ∀ b a, xs = a ++ b → Follows next b.head? b := by
    intro b
    induction b with
    | nil => exact fun _ _ => rfl
    | cons x b ih =>
      intro a hxs
      refine ⟨rfl, ?_⟩
      rw [h.next a x b hxs]
      exact ih (a ++ [x]) (by rw [hxs, List.append_assoc]; rfl)
  rw [h.head]
  exact hrest xs [] rfl

/-- And from the back. -/
theorem Linked.follows_prev (h : Linked head tail next prev xs) : Follows prev tail xs.reverse := by
  have hrest : ∀ a b, xs = a ++ b → Follows prev a.getLast? a.reverse := by
    intro a
    induction a using List.reverseRecOn with
    | nil => exact fun _ _ => rfl
    | append_singleton a x ih =>
      intro b hxs
      rw [List.append_assoc] at hxs
      rw [List.reverse_append, List.getLast?_append]
      refine ⟨rfl, ?_⟩
      rw [h.prev a x b hxs]
      exact ih ([x] ++ b) hxs
  rw [h.tail]
  exact hrest xs [] (List.append_nil xs).symm

/-- Only the pointers of the elements matter. -/
theorem Linked.congr (h : Linked head tail next prev xs) (hnext : ∀ x ∈ xs, next' x = next x)
    (hprev : ∀ x ∈ xs, prev' x = prev x) : Linked head tail next' prev' xs where
  nodup := h.nodup
  head := h.head
  tail := h.tail
  next a x b hxs := (hnext x (by rw [hxs]; simp)).trans (h.next a x b hxs)
  prev a x b hxs := (hprev x (by rw [hxs]; simp)).trans (h.prev a x b hxs)

/-- An element is appended: it points back to the last one, and the last one points to it. -/
theorem Linked.push {x : α} (h : Linked head tail next prev xs) (hx : x ∉ xs)
    (hhead : head' = if xs = [] then some x else head) (hnextx : next' x = none)
    (hlast : ∀ t, tail = some t → next' t = some x)
    (hnext : ∀ y ∈ xs, tail ≠ some y → next' y = next y) (hprevx : prev' x = tail)
    (hprev : ∀ y ∈ xs, prev' y = prev y) : Linked head' (some x) next' prev' (xs ++ [x]) := by
  -- An element of the new sequence is the new one, or has the new one at the end of its rest.
  have hsplit : ∀ a y b, xs ++ [x] = a ++ y :: b →
      (y = x ∧ a = xs ∧ b = []) ∨ ∃ b', b = b' ++ [x] ∧ xs = a ++ y :: b' := by
    intro a y b hab
    rcases List.eq_nil_or_concat b with rfl | ⟨b', z, rfl⟩
    · obtain ⟨rfl, hy⟩ := List.append_inj' hab rfl
      exact .inl ⟨(List.cons.inj hy).1.symm, rfl, rfl⟩
    · rw [List.concat_eq_append, ← List.cons_append, ← List.append_assoc] at hab
      obtain ⟨rfl, hz⟩ := List.append_inj' hab rfl
      obtain rfl := (List.cons.inj hz).1
      exact .inr ⟨b', List.concat_eq_append, rfl⟩
  refine ⟨?_, ?_, by simp, fun a y b hab => ?_, fun a y b hab => ?_⟩
  · rw [List.nodup_append]
    exact ⟨h.nodup, List.nodup_singleton x, fun y hy z hz hyz => hx (by simp_all)⟩
  · rw [hhead]
    split_ifs with hnil
    · rw [hnil]
      rfl
    · rw [h.head, List.head?_append_of_ne_nil _ hnil]
  · rcases hsplit a y b hab with ⟨rfl, -, rfl⟩ | ⟨b', rfl, hxs⟩
    · exact hnextx
    · by_cases hb : b' = []
      · -- The last element so far.
        subst hb
        exact hlast y (by rw [h.tail, hxs]; simp)
      · have hnot : tail ≠ some y := by
          intro htail
          rw [h.tail, hxs] at htail
          exact hb (eq_nil_of_getLast? (hxs ▸ h.nodup) htail)
        rw [hnext y (by rw [hxs]; simp) hnot, h.next a y b' hxs, List.head?_append_of_ne_nil _ hb]
  · rcases hsplit a y b hab with ⟨rfl, rfl, -⟩ | ⟨b', -, hxs⟩
    · exact hprevx.trans h.tail
    · rw [hprev y (by rw [hxs]; simp)]
      exact h.prev a y b' hxs

/-- An element is taken out: its neighbours point to each other. -/
theorem Linked.unlink {a b : List α} {x : α} (h : Linked head tail next prev (a ++ x :: b))
    (hhead : head' = if a = [] then b.head? else head)
    (htail : tail' = if b = [] then a.getLast? else tail)
    (hbefore : ∀ p, a.getLast? = some p → next' p = b.head?)
    (hnext : ∀ y ∈ a ++ b, a.getLast? ≠ some y → next' y = next y)
    (hafter : ∀ n, b.head? = some n → prev' n = a.getLast?)
    (hprev : ∀ y ∈ a ++ b, b.head? ≠ some y → prev' y = prev y) :
    Linked head' tail' next' prev' (a ++ b) := by
  have hnodup : (a ++ b).Nodup := h.nodup.sublist (by simp)
  refine ⟨hnodup, ?_, ?_, fun c y d hcd => ?_, fun c y d hcd => ?_⟩
  · rw [hhead]
    split_ifs with ha
    · rw [ha]
      rfl
    · rw [h.head, List.head?_append_of_ne_nil _ ha, List.head?_append_of_ne_nil _ ha]
  · rw [htail]
    split_ifs with hb
    · rw [hb, List.append_nil]
    · rw [h.tail, List.getLast?_append_of_ne_nil _ (List.cons_ne_nil x b),
        List.getLast?_cons_of_ne_nil hb, List.getLast?_append_of_ne_nil _ hb]
  · -- Where an element points to next: only the one before `x` has changed.
    have hmem : y ∈ a ++ b := by rw [hcd]; simp
    rcases append_split hcd with ⟨e, rfl, rfl⟩ | ⟨e, rfl, rfl⟩
    · by_cases he : e = []
      · subst he
        exact hbefore y (by simp)
      · have hnot : (c ++ y :: e).getLast? ≠ some y := fun hlast =>
          he (eq_nil_of_getLast? (List.nodup_append.mp hnodup).1 hlast)
        rw [hnext y hmem hnot, h.next c y (e ++ x :: b) (by simp),
          List.head?_append_of_ne_nil _ he, List.head?_append_of_ne_nil _ he]
    · have hnot : a.getLast? ≠ some y := fun hlast =>
        (List.nodup_append.mp hnodup).2.2 y (List.mem_of_getLast? hlast) y (by simp) rfl
      rw [hnext y hmem hnot, h.next (a ++ x :: e) y d (by simp)]
  · -- Where an element points back to: only the one behind `x` has changed.
    have hmem : y ∈ a ++ b := by rw [hcd]; simp
    rcases append_split hcd with ⟨e, rfl, rfl⟩ | ⟨e, rfl, rfl⟩
    · have hnot : b.head? ≠ some y := fun hfirst =>
        (List.nodup_append.mp hnodup).2.2 y (by simp) y (List.mem_of_head? hfirst) rfl
      rw [hprev y hmem hnot, h.prev c y (e ++ x :: b) (by simp)]
    · by_cases he : e = []
      · subst he
        rw [List.append_nil]
        exact hafter y rfl
      · have hnot : (e ++ y :: d).head? ≠ some y := fun hfirst =>
          he (eq_nil_of_head? (List.nodup_append.mp hnodup).2.1 hfirst)
        rw [hprev y hmem hnot, h.prev (a ++ x :: e) y d (by simp),
          List.getLast?_append_of_ne_nil _ (List.cons_ne_nil x e),
          List.getLast?_cons_of_ne_nil he, List.getLast?_append_of_ne_nil _ he]

/-! ## Forward links -/

/-- The sequence has no duplicates, and every element but the last one points to the next. -/
structure Chained (head tail : Option α) (next : α → Option α) (xs : List α) : Prop where
  nodup : xs.Nodup
  head : head = xs.head?
  tail : tail = xs.getLast?
  next : ∀ x y, [x, y] <:+: xs → next x = some y

/-- No element is chained to nothing. -/
theorem chained_nil (next : α → Option α) : Chained none none next [] where
  nodup := List.nodup_nil
  head := rfl
  tail := rfl
  next _ _ h := absurd (List.infix_nil.mp h) (List.cons_ne_nil _ _)

/-- Only the pointers of the elements matter. -/
theorem Chained.congr (h : Chained head tail next xs) (hnext : ∀ x ∈ xs, next' x = next x) :
    Chained head tail next' xs where
  nodup := h.nodup
  head := h.head
  tail := h.tail
  next x y hxy := (hnext x (hxy.subset (by simp))).trans (h.next x y hxy)

/-- An element is appended: the last one points to it. -/
theorem Chained.push {x : α} (h : Chained head tail next xs) (hx : x ∉ xs)
    (hhead : head' = if xs = [] then some x else head)
    (hlast : ∀ t, tail = some t → next' t = some x)
    (hnext : ∀ y ∈ xs, tail ≠ some y → next' y = next y) :
    Chained head' (some x) next' (xs ++ [x]) := by
  refine ⟨?_, ?_, by simp, fun y z hyz => ?_⟩
  · rw [List.nodup_append]
    refine ⟨h.nodup, List.nodup_singleton x, fun y hy z hz hyz => hx ?_⟩
    rwa [← List.mem_singleton.mp hz, ← hyz]
  · rw [hhead]
    split_ifs with hnil
    · rw [hnil]
      rfl
    · rw [h.head, List.head?_append_of_ne_nil _ hnil]
  · rcases pair_infix_append hyz with hxs | ⟨hy, rfl⟩
    · -- An element before another one is not the last, since there are no duplicates.
      have hnot : tail ≠ some y := by
        obtain ⟨a, b, rfl⟩ := hxs
        rw [h.tail, List.append_assoc]
        intro hlast'
        refine List.cons_ne_nil z b (eq_nil_of_getLast? ?_ hlast')
        have hnodup := h.nodup
        rwa [List.append_assoc] at hnodup
      rw [hnext y (hxs.subset (by simp)) hnot]
      exact h.next y z hxs
    · exact hlast y (h.tail.trans hy)

/-- A sequence has one element if its first one is its last. -/
theorem Chained.head_eq_tail {x : α} (h : Chained head tail next (x :: xs)) :
    head = tail ↔ xs = [] := by
  rw [h.head, h.tail, List.head?_cons]
  refine ⟨fun hlast => eq_nil_of_getLast? (a := []) h.nodup hlast.symm, ?_⟩
  rintro rfl
  rfl

/-- The first element is taken: the rest is found through its pointer. -/
theorem Chained.pop {x y : α} (h : Chained head tail next (x :: y :: xs)) :
    next x = some y ∧ Chained (some y) tail next (y :: xs) := by
  refine ⟨h.next x y ⟨[], xs, rfl⟩, (List.nodup_cons.mp h.nodup).2, rfl, h.tail, fun u v huv => ?_⟩
  exact h.next u v (huv.trans (List.suffix_cons x _).isInfix)

end Rammux.Lib
