import Mathlib

/-!
# Lists that are split and extended

How the elements of a list are found in its parts, and how a list that is read off a history goes on
when the history gets one more entry.
-/

namespace Rammux.Lib

variable {α β : Type*}

/-- An element of a concatenation is in one of the parts. -/
theorem append_split {a b c d : List α} {y : α} (h : a ++ b = c ++ y :: d) :
    (∃ e, a = c ++ y :: e ∧ d = e ++ b) ∨ ∃ e, b = e ++ y :: d ∧ c = a ++ e := by
  rcases List.append_eq_append_iff.mp h with ⟨e, hc, hb⟩ | ⟨e, ha, hd⟩
  · exact .inr ⟨e, hb, hc⟩
  · cases e with
    | nil => exact .inr ⟨[], hd.symm, by simpa using ha.symm⟩
    | cons z e =>
      obtain ⟨rfl, rfl⟩ := List.cons.inj hd
      exact .inl ⟨e, ha, rfl⟩

/-- In a sequence without duplicates, the last element has nothing after it. -/
theorem eq_nil_of_getLast? {a b : List α} {x : α} (hnodup : (a ++ x :: b).Nodup)
    (h : (a ++ x :: b).getLast? = some x) : b = [] := by
  by_contra hb
  have hx : x ∉ b := (List.nodup_cons.mp (List.nodup_append.mp hnodup).2.1).1
  rw [List.getLast?_append_of_ne_nil _ (List.cons_ne_nil x b),
    List.getLast?_cons_of_ne_nil hb] at h
  exact hx (List.mem_of_getLast? h)

/-- And the first one has nothing before it. -/
theorem eq_nil_of_head? {a b : List α} {x : α} (hnodup : (a ++ x :: b).Nodup)
    (h : (a ++ x :: b).head? = some x) : a = [] := by
  by_contra ha
  rw [List.head?_append_of_ne_nil _ ha] at h
  exact (List.nodup_append.mp hnodup).2.2 x (List.mem_of_head? h) x (by simp) rfl

/-- Neighbours in a sequence with a new last element are neighbours before, or the last two. -/
theorem pair_infix_append {xs : List α} {x y z : α} (h : [y, z] <:+: xs ++ [x]) :
    [y, z] <:+: xs ∨ xs.getLast? = some y ∧ z = x := by
  rcases List.infix_concat_iff.mp h with ⟨a, ha⟩ | hxs
  · have hsplit : (a ++ [y]) ++ [z] = xs ++ [x] := by
      rw [← ha, List.append_assoc]
      rfl
    obtain ⟨rfl, hz⟩ := List.append_inj' hsplit rfl
    exact .inr ⟨List.getLast?_concat, (List.cons.inj hz).1⟩
  · exact .inl hxs

/-- What one reading `f` of a history gives is what another reading `g` gives, and some rest. One
more entry adds to the rest what `f` reads, and takes from it what `g` reads. -/
theorem flatMap_concat_eq {f g : α → List β} {xs : List α} {x : α} {before after : List β}
    (h : xs.flatMap f = xs.flatMap g ++ before) (hx : before ++ f x = g x ++ after) :
    (xs ++ [x]).flatMap f = (xs ++ [x]).flatMap g ++ after := by
  calc (xs ++ [x]).flatMap f
      = xs.flatMap g ++ (before ++ f x) := by
        rw [List.flatMap_append, List.flatMap_singleton, h, List.append_assoc]
    _ = (xs ++ [x]).flatMap g ++ after := by
        rw [hx, List.flatMap_append, List.flatMap_singleton, List.append_assoc]

end Rammux.Lib
