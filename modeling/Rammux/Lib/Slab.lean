import Mathlib

/-!
# Slabs

A slab keeps its values in numbered slots, and reuses the slots that were freed. Which freed slot
the next value goes to is left open: `Vacant s k` says that slot `k` is one the slab may offer, a
freed slot if there is one, and otherwise the one after the last. So the slots ever used are never
more than the most values that were present at the same time (`slots_insert_le`).
-/

namespace Rammux.Lib

/-- A slab: its slots in order, those that were freed empty. -/
structure Slab (α : Type*) where
  /-- The slots ever used. -/
  entries : List (Option α)

namespace Slab

variable {ε α : Type*}

/-- A slab that was never used. -/
def empty : Slab α := ⟨[]⟩

/-- How many slots were ever used. -/
def slots (s : Slab α) : ℕ := s.entries.length

/-- How many values there are. -/
def len (s : Slab α) : ℕ := s.entries.countP Option.isSome

/-- The value in a slot. -/
def get (s : Slab α) (k : ℕ) : Option α := s.entries[k]?.join

/-- The slots that the next value may go to. -/
def Vacant (s : Slab α) (k : ℕ) : Prop :=
  s.entries[k]? = some none ∨ (k = s.slots ∧ s.len = s.slots)

instance (s : Slab α) (k : ℕ) : Decidable (s.Vacant k) :=
  match h : s.entries[k]? with
  | some none => isTrue (.inl h)
  | some (some a) => isFalse (by
      rintro (h' | ⟨h', -⟩)
      · rw [h] at h'; cases h'
      · rw [h', slots, List.getElem?_length] at h; cases h)
  | none =>
    if hk : k = s.slots ∧ s.len = s.slots then isTrue (.inr hk)
    else isFalse (by
      rintro (h' | h')
      · rw [h] at h'; cases h'
      · exact hk h')

/-- Puts a value into a vacant slot. -/
def insert (s : Slab α) (k : ℕ) (a : α) : Slab α :=
  if k < s.slots then ⟨s.entries.set k (some a)⟩ else ⟨s.entries ++ [some a]⟩

/-- Frees a slot. Freeing a slot that holds nothing is the panic `e`. -/
def remove (e : ε) (s : Slab α) (k : ℕ) : Except ε (Slab α) :=
  match s.get k with
  | none => .error e
  | some _ => .ok ⟨s.entries.set k none⟩

/-- The empty slab holds nothing. -/
@[simp] theorem get_empty (k : ℕ) : (empty : Slab α).get k = none := rfl

/-- The empty slab has no slots. -/
@[simp] theorem slots_empty : (empty : Slab α).slots = 0 := rfl

/-- Only slots that were used hold a value. -/
theorem lt_slots_of_get {s : Slab α} {k : ℕ} {a : α} (h : s.get k = some a) : k < s.slots := by
  by_contra hk
  have : s.entries[k]? = none := List.getElem?_eq_none (by simpa [slots] using hk)
  simp [get, this] at h

/-- A vacant slot is a used one or the next one. -/
theorem Vacant.le_slots {s : Slab α} {k : ℕ} (h : s.Vacant k) : k ≤ s.slots := by
  rcases h with h | ⟨rfl, -⟩
  · exact (List.getElem?_eq_some_iff.mp h).1.le
  · exact le_rfl

/-- A vacant slot holds nothing. -/
theorem Vacant.get_eq_none {s : Slab α} {k : ℕ} (h : s.Vacant k) : s.get k = none := by
  rcases h with h | ⟨rfl, -⟩
  · simp [get, h]
  · simp [get, slots]

/-- The inserted value is in its slot. -/
theorem get_insert_self {s : Slab α} {k : ℕ} (h : s.Vacant k) (a : α) :
    (s.insert k a).get k = some a := by
  have hk := h.le_slots
  unfold insert get
  split_ifs with hlt
  · rw [List.getElem?_set_self (by simpa [slots] using hlt)]
    rfl
  · have : k = s.entries.length := by simp only [slots] at hk hlt; omega
    subst this
    simp

/-- The other slots hold what they held. -/
theorem get_insert_of_ne {s : Slab α} {k j : ℕ} (h : s.Vacant k) (a : α) (hj : j ≠ k) :
    (s.insert k a).get j = s.get j := by
  have hk := h.le_slots
  unfold insert get
  split_ifs with hlt
  · rw [List.getElem?_set_ne (Ne.symm hj)]
  · have hk' : k = s.entries.length := by simp only [slots] at hk hlt; omega
    rcases Nat.lt_or_ge j s.entries.length with hjl | hjl
    · rw [List.getElem?_append_left hjl]
    · rw [List.getElem?_eq_none (by simp; omega), List.getElem?_eq_none hjl]

/-- Inserting below the limit leaves the used slots within it: the slab only grows when every
slot is taken. -/
theorem slots_insert_le {s : Slab α} {k n : ℕ} (h : s.Vacant k) (a : α) (hs : s.slots ≤ n)
    (hlen : s.len < n) : (s.insert k a).slots ≤ n := by
  unfold insert
  split_ifs with hlt
  · simpa [slots] using hs
  · rcases h with h | ⟨rfl, hfull⟩
    · exact absurd (List.getElem?_eq_some_iff.mp h).1 hlt
    · simp only [slots, List.length_append, List.length_singleton] at hfull ⊢
      omega

/-- Inserting uses the slot it was given, and keeps those already used. -/
theorem slots_insert {s : Slab α} {k : ℕ} (h : s.Vacant k) (a : α) :
    (s.insert k a).slots = max s.slots (k + 1) := by
  have hk := h.le_slots
  unfold insert
  split_ifs with hlt
  · simp only [slots, List.length_set] at hlt ⊢
    omega
  · simp only [slots, List.length_append, List.length_singleton] at hk hlt ⊢
    omega

/-- There is always a slot for the next value. -/
theorem exists_vacant (s : Slab α) : ∃ k, s.Vacant k := by
  by_cases h : none ∈ s.entries
  · obtain ⟨k, hk⟩ := List.mem_iff_getElem?.mp h
    exact ⟨k, .inl hk⟩
  · refine ⟨s.slots, .inr ⟨rfl, ?_⟩⟩
    rw [len, slots, List.countP_eq_length]
    intro a ha
    exact Option.isSome_iff_ne_none.mpr fun hnone => h (hnone ▸ ha)

/-- The number of values is the number of slots that hold one. -/
theorem len_eq_card (s : Slab α) : s.len = {k ∈ Finset.range s.slots | (s.get k).isSome}.card := by
  obtain ⟨entries⟩ := s
  unfold len slots get
  induction entries using List.reverseRecOn with
  | nil => rfl
  | append_singleton entries a ih =>
    have hrest : {k ∈ Finset.range entries.length | ((entries ++ [a])[k]?.join).isSome} =
        {k ∈ Finset.range entries.length | (entries[k]?.join).isSome} := by
      refine Finset.filter_congr fun k hk => ?_
      rw [List.getElem?_append_left (Finset.mem_range.mp hk)]
    dsimp only at ih ⊢
    rw [List.countP_append, List.length_append, List.length_singleton, Finset.range_add_one,
      Finset.filter_insert, List.getElem?_append_right le_rfl, Nat.sub_self, hrest, ih]
    cases a with
    | none => simp
    | some a =>
      rw [if_pos (by simp), Finset.card_insert_of_notMem (by simp)]
      simp

/-- Below the limit, the next value goes to a slot below the limit. -/
theorem Vacant.lt {s : Slab α} {k n : ℕ} (h : s.Vacant k) (hs : s.slots ≤ n) (hlen : s.len < n) :
    k < n := by
  rcases h with h | ⟨rfl, hfull⟩
  · exact (List.getElem?_eq_some_iff.mp h).1.trans_le hs
  · omega

/-- What a successful removal does. -/
theorem remove_eq_ok {e : ε} {s s' : Slab α} {k : ℕ} (h : s.remove e k = .ok s') :
    (∃ a, s.get k = some a) ∧ s'.get k = none ∧ (∀ j, j ≠ k → s'.get j = s.get j) ∧
      s'.slots = s.slots := by
  unfold remove at h
  split at h
  · cases h
  · next a ha =>
    cases h
    refine ⟨⟨a, ha⟩, ?_, ?_, by simp [slots]⟩
    · have hk := lt_slots_of_get ha
      simp [get, List.getElem?_set_self (by simpa [slots] using hk : k < s.entries.length)]
    · intro j hj
      simp [get, List.getElem?_set_ne (Ne.symm hj)]

/-- A slot that holds a value can be freed. -/
theorem remove_of_get {e : ε} {s : Slab α} {k : ℕ} {a : α} (h : s.get k = some a) :
    ∃ s', s.remove e k = .ok s' := by
  simp [remove, h]

end Slab

end Rammux.Lib
