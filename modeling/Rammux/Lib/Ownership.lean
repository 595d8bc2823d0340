import Mathlib

/-!
# Ownership

Things that are alive have one owner each: one of a family of lists has them, or they have been
handed out. `Owned` says so with a function from things to owners, so that nothing can have two
owners, and whoever owns a thing has it once. `Owned.move` is what happens when one thing changes
hands.
-/

namespace Rammux.Lib

/-- Who owns a thing. -/
inductive Owner (ι : Type*) where
  | handedOut
  | list (i : ι)
  deriving DecidableEq, Repr

variable {α ι : Type*}

/-- Everything alive has one owner, who has it once. -/
structure Owned (owner : α → Option (Owner ι)) (live : α → Prop) (held : List α)
    (lists : ι → List α) : Prop where
  alive : ∀ x, live x ↔ owner x ≠ none
  handedOut : ∀ x, x ∈ held ↔ owner x = some .handedOut
  listed : ∀ i x, x ∈ lists i ↔ owner x = some (.list i)
  held_nodup : held.Nodup
  lists_nodup : ∀ i, (lists i).Nodup

variable {owner : α → Option (Owner ι)} {live live' : α → Prop} {held held' : List α}
  {lists lists' : ι → List α}

/-- What is handed out is alive. -/
theorem Owned.live_of_held (h : Owned owner live held lists) {x : α} (hx : x ∈ held) : live x := by
  rw [h.alive, (h.handedOut x).mp hx]
  exact Option.some_ne_none _

/-- What is in a list is alive. -/
theorem Owned.live_of_listed (h : Owned owner live held lists) {i : ι} {x : α} (hx : x ∈ lists i) :
    live x := by
  rw [h.alive, (h.listed i x).mp hx]
  exact Option.some_ne_none _

/-- What is handed out is in no list. -/
theorem Owned.not_listed (h : Owned owner live held lists) {x : α} (hx : x ∈ held) (i : ι) :
    x ∉ lists i := by
  intro hi
  have howner := ((h.handedOut x).mp hx).symm.trans ((h.listed i x).mp hi)
  cases howner

/-- One thing changes hands, comes into being or ceases to be, and the others stay. -/
theorem Owned.move [DecidableEq α] (h : Owned owner live held lists) {x : α}
    (place : Option (Owner ι)) (hother : ∀ y, y ≠ x → (live' y ↔ live y) ∧
      (y ∈ held' ↔ y ∈ held) ∧ ∀ i, y ∈ lists' i ↔ y ∈ lists i)
    (hlive : live' x ↔ place ≠ none) (hheld : x ∈ held' ↔ place = some .handedOut)
    (hlisted : ∀ i, x ∈ lists' i ↔ place = some (.list i)) (hnodup : held'.Nodup)
    (hnodups : ∀ i, (lists' i).Nodup) :
    Owned (Function.update owner x place) live' held' lists' where
  alive y := by
    by_cases hy : y = x
    · rw [hy, Function.update_self]
      exact hlive
    · rw [Function.update_of_ne hy, (hother y hy).1]
      exact h.alive y
  handedOut y := by
    by_cases hy : y = x
    · rw [hy, Function.update_self]
      exact hheld
    · rw [Function.update_of_ne hy, (hother y hy).2.1]
      exact h.handedOut y
  listed i y := by
    by_cases hy : y = x
    · rw [hy, Function.update_self]
      exact hlisted i
    · rw [Function.update_of_ne hy, (hother y hy).2.2 i]
      exact h.listed i y
  held_nodup := hnodup
  lists_nodup := hnodups

section Moves

variable [DecidableEq α] {x : α}

/-- Something comes into being, and is handed out. -/
theorem Owned.create (h : Owned owner live held lists) (hx : ¬live x)
    (hlive : ∀ y, live' y ↔ live y ∨ y = x) :
    Owned (Function.update owner x (some .handedOut)) live' (x :: held) lists := by
  refine h.move _ (fun y hy => ⟨by simp [hlive, hy], by simp [hy], fun _ => Iff.rfl⟩)
    (by simp [hlive]) (by simp) (fun i => ?_) ?_ h.lists_nodup
  · exact iff_of_false (fun hi => hx (h.live_of_listed hi)) (by simp)
  · exact List.nodup_cons.mpr ⟨fun hmem => hx (h.live_of_held hmem), h.held_nodup⟩

/-- Something that is handed out ceases to be. -/
theorem Owned.destroy (h : Owned owner live held lists) (hx : x ∈ held)
    (hlive : ∀ y, live' y ↔ live y ∧ y ≠ x) :
    Owned (Function.update owner x none) live' (held.erase x) lists := by
  have hnot : x ∉ held.erase x := h.held_nodup.not_mem_erase
  refine h.move _ (fun y hy => ⟨by simp [hlive, hy], List.mem_erase_of_ne hy, fun _ => Iff.rfl⟩)
    (by simp [hlive]) (by simp [hnot]) (fun i => ?_) (h.held_nodup.erase x) h.lists_nodup
  exact iff_of_false (h.not_listed hx i) (by simp)

/-- Something that is handed out is appended to a list. -/
theorem Owned.give [DecidableEq ι] (h : Owned owner live held lists) (hx : x ∈ held) (i : ι)
    (hlive : ∀ y, live' y ↔ live y) :
    Owned (Function.update owner x (some (.list i))) live' (held.erase x)
      (Function.update lists i (lists i ++ [x])) := by
  have hnot : x ∉ held.erase x := h.held_nodup.not_mem_erase
  have hlist := h.not_listed hx
  refine h.move _ (fun y hy => ⟨hlive y, List.mem_erase_of_ne hy, fun j => ?_⟩)
    (by simp [hlive, h.live_of_held hx]) (by simp [hnot]) (fun j => ?_) (h.held_nodup.erase x)
    fun j => ?_
  · by_cases hj : j = i
    · subst hj
      simp [hy]
    · rw [Function.update_of_ne hj]
  · by_cases hj : j = i
    · subst hj
      simp
    · rw [Function.update_of_ne hj]
      exact iff_of_false (hlist j) (by simpa using Ne.symm hj)
  · by_cases hj : j = i
    · subst hj
      rw [Function.update_self, List.nodup_append]
      refine ⟨h.lists_nodup j, List.nodup_singleton x, fun y hy z hz hyz => hlist j ?_⟩
      rwa [← List.mem_singleton.mp hz, ← hyz]
    · rw [Function.update_of_ne hj]
      exact h.lists_nodup j

/-- The first thing of a list is handed out. -/
theorem Owned.take [DecidableEq ι] (h : Owned owner live held lists) {i : ι} {xs : List α}
    (hi : lists i = x :: xs) (hlive : ∀ y, live' y ↔ live y) :
    Owned (Function.update owner x (some .handedOut)) live' (x :: held)
      (Function.update lists i xs) := by
  have hmem : x ∈ lists i := by rw [hi]; exact List.mem_cons_self
  have hnodup : x ∉ xs ∧ xs.Nodup := List.nodup_cons.mp (hi ▸ h.lists_nodup i)
  refine h.move _ (fun y hy => ⟨hlive y, by simp [hy], fun j => ?_⟩)
    (by simp [hlive, h.live_of_listed hmem]) (by simp) (fun j => ?_) ?_ fun j => ?_
  · by_cases hj : j = i
    · subst hj
      rw [Function.update_self, hi, List.mem_cons, or_iff_right hy]
    · rw [Function.update_of_ne hj]
  · refine iff_of_false (fun hj => ?_) (by simp)
    by_cases hji : j = i
    · subst hji
      rw [Function.update_self] at hj
      exact hnodup.1 hj
    · -- It is in one list only.
      rw [Function.update_of_ne hji] at hj
      have howner := ((h.listed j x).mp hj).symm.trans ((h.listed i x).mp hmem)
      exact hji (Owner.list.inj (Option.some.inj howner))
  · exact List.nodup_cons.mpr ⟨fun hheld => h.not_listed hheld i hmem, h.held_nodup⟩
  · by_cases hj : j = i
    · subst hj
      rw [Function.update_self]
      exact hnodup.2
    · rw [Function.update_of_ne hj]
      exact h.lists_nodup j

end Moves

end Rammux.Lib
