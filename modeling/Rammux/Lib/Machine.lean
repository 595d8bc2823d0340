import Mathlib

/-!
# Fallible computations, machines, and their runs

The steps of a program that can panic are computations in `Except ε`: an error is a panic, and there
is no state after it. A step that can refuse its input keeps the state it has reached, so its
result is a verdict beside a state; `andThen` sequences such steps and stops at the first refusal.

A `Machine` takes steps of this kind from an initial state, and `Machine.Run` records what it was
asked and what it answered. `Run.invariant` and `Reaches.invariant` are the only inductions over
runs that the invariants need.
-/

namespace Rammux.Lib

section Fallible

variable {ε ρ α β σ : Type}

/-- A bind succeeds exactly when both of its parts do. -/
theorem bind_eq_ok {x : Except ε α} {f : α → Except ε β} {b : β} :
    (x >>= f) = .ok b ↔ ∃ a, x = .ok a ∧ f a = .ok b := by
  cases x with
  | error e => simp [bind, Except.bind]
  | ok a => simp [bind, Except.bind]

/-- Runs `f` on the state that `x` leaves, unless `x` refuses: then its refusal and its state
stand. -/
def andThen (x : Except ε (Except ρ α × σ)) (f : σ → Except ε (Except ρ β × σ)) :
    Except ε (Except ρ β × σ) := do
  let (verdict, s) ← x
  match verdict with
  | .error e => return (.error e, s)
  | .ok _ => f s

/-- A sequence accepts exactly when both of its parts do. -/
theorem andThen_eq_ok {x : Except ε (Except ρ α × σ)} {f : σ → Except ε (Except ρ β × σ)} {b : β}
    {s : σ} :
    andThen x f = .ok (.ok b, s) ↔ ∃ a t, x = .ok (.ok a, t) ∧ f t = .ok (.ok b, s) := by
  unfold andThen
  rw [bind_eq_ok]
  constructor
  · rintro ⟨⟨verdict, t⟩, hx, hf⟩
    cases verdict with
    | error e => simp [pure, Except.pure] at hf
    | ok a => exact ⟨a, t, hx, hf⟩
  · rintro ⟨a, t, hx, hf⟩
    exact ⟨(.ok a, t), hx, hf⟩

/-- How a sequence comes to its verdict: its first part refuses, or accepts and leaves the verdict
to the second. -/
theorem andThen_cases {x : Except ε (Except ρ α × σ)} {f : σ → Except ε (Except ρ β × σ)}
    {v : Except ρ β} {s : σ} (h : andThen x f = .ok (v, s)) :
    (∃ e, x = .ok (.error e, s) ∧ v = .error e) ∨
      ∃ a t, x = .ok (.ok a, t) ∧ f t = .ok (v, s) := by
  unfold andThen at h
  rw [bind_eq_ok] at h
  obtain ⟨⟨verdict, t⟩, hx, h⟩ := h
  cases verdict with
  | error e =>
    simp only [pure, Except.pure, Except.ok.injEq, Prod.mk.injEq] at h
    obtain ⟨rfl, rfl⟩ := h
    exact .inl ⟨e, hx, rfl⟩
  | ok a => exact .inr ⟨a, t, hx, h⟩

/-- A sequence returns if its first part does, and its second part does after the first accepts. -/
theorem andThen_returns {x : Except ε (Except ρ α × σ)} {f : σ → Except ε (Except ρ β × σ)}
    (hx : ∃ r, x = .ok r) (hf : ∀ a s, x = .ok (.ok a, s) → ∃ r, f s = .ok r) :
    ∃ r, andThen x f = .ok r := by
  obtain ⟨⟨verdict, s⟩, rfl⟩ := hx
  cases verdict with
  | error e => exact ⟨_, rfl⟩
  | ok a => exact hf a s rfl

/-- What both parts of a sequence do to the state, whatever their verdicts, the sequence does. -/
theorem andThen_rel {R : σ → σ → Prop} (htrans : ∀ {s t u}, R s t → R t u → R s u)
    {x : Except ε (Except ρ α × σ)} {f : σ → Except ε (Except ρ β × σ)} {v : Except ρ β} {s s' : σ}
    (h : andThen x f = .ok (v, s')) (hx : ∀ v t, x = .ok (v, t) → R s t)
    (hf : ∀ v t t', f t = .ok (v, t') → R t t') : R s s' := by
  rcases andThen_cases h with ⟨e, hxs, -⟩ | ⟨a, t, hxt, hft⟩
  · exact hx _ _ hxs
  · exact htrans (hx _ _ hxt) (hf _ _ _ hft)

end Fallible

/-! ## Machines -/

/-- A machine: an initial state, and steps that answer an action or panic. -/
structure Machine (ε σ α ω : Type*) where
  /-- The state before the first step. -/
  init : σ
  /-- One step: the answer and the next state, unless it panics. -/
  step : σ → α → Except ε (ω × σ)

namespace Machine

variable {ε σ α ω : Type*} (M : Machine ε σ α ω)

/-- The runs of a machine: the actions with their answers, oldest first, and the state reached. -/
inductive Run : List (α × ω) → σ → Prop
  | init : Run [] M.init
  | step {tr : List (α × ω)} {s s' : σ} {a : α} {o : ω} :
      Run tr s → M.step s a = .ok (o, s') → Run (tr ++ [(a, o)]) s'

/-- The states reached by runs all of whose events satisfy `P`. -/
def Reaches (P : α × ω → Prop) (s : σ) : Prop := ∃ tr, M.Run tr s ∧ ∀ e ∈ tr, P e

variable {M}

/-- The initial state is reached by the empty run. -/
theorem Reaches.init {P : α × ω → Prop} : M.Reaches P M.init := ⟨[], .init, by simp⟩

/-- A step whose event satisfies `P` extends a run of such events. -/
theorem Reaches.step {P : α × ω → Prop} {s s' : σ} {a : α} {o : ω} (h : M.Reaches P s)
    (hs : M.step s a = .ok (o, s')) (hP : P (a, o)) : M.Reaches P s' := by
  obtain ⟨tr, hr, htr⟩ := h
  refine ⟨tr ++ [(a, o)], hr.step hs, fun e he => ?_⟩
  rcases List.mem_append.mp he with he | he
  · exact htr e he
  · rw [List.mem_singleton.mp he]; exact hP

/-- A property of the trace and the state that holds at the start and that every step keeps holds
of every run. -/
theorem Run.invariant {I : List (α × ω) → σ → Prop} (h0 : I [] M.init)
    (hs : ∀ tr s a o s', M.Run tr s → I tr s → M.step s a = .ok (o, s') → I (tr ++ [(a, o)]) s')
    {tr : List (α × ω)} {s : σ} (h : M.Run tr s) : I tr s := by
  induction h with
  | init => exact h0
  | step hr hstep ih => exact hs _ _ _ _ _ hr ih hstep

/-- A property that holds at the start and that every step with an event in `P` keeps holds of
every state that `P`-runs reach. -/
theorem Reaches.invariant {P : α × ω → Prop} {I : σ → Prop} (h0 : I M.init)
    (hs : ∀ s a o s', M.Reaches P s → I s → M.step s a = .ok (o, s') → P (a, o) → I s')
    {s : σ} (h : M.Reaches P s) : I s := by
  obtain ⟨tr, hr, htr⟩ := h
  revert htr
  refine Run.invariant (I := fun tr s => (∀ e ∈ tr, P e) → I s) (fun _ => h0) ?_ hr
  intro tr s a o s' hr ih hstep htr
  have hpre : ∀ e ∈ tr, P e := fun e he => htr e (List.mem_append_left _ he)
  exact hs s a o s' ⟨tr, hr, hpre⟩ (ih hpre) hstep (htr _ (by simp))

/-- What the events of a run cost (`f`), and the potential (`p`) of its last state, come out of the
potential of the initial state and what the events pay in (`g`), if that holds of every step. -/
theorem Run.amortised {f g : α × ω → ℕ} {p : σ → ℕ}
    (hs : ∀ tr s a o s', M.Run tr s → M.step s a = .ok (o, s') →
      f (a, o) + p s' ≤ p s + g (a, o))
    {tr : List (α × ω)} {s : σ} (h : M.Run tr s) :
    (tr.map f).sum + p s ≤ p M.init + (tr.map g).sum := by
  refine Run.invariant (I := fun tr s => (tr.map f).sum + p s ≤
    p M.init + (tr.map g).sum) (by simp) ?_ h
  intro tr s a o s' hrun ih hstep
  have hpaid := hs tr s a o s' hrun hstep
  simp only [List.map_append, List.sum_append, List.map_cons, List.map_nil, List.sum_cons,
    List.sum_nil]
  omega

/-! ### Paths between two states -/

/-- A step that was taken. -/
structure Taken (σ α ω : Type*) where
  source : σ
  action : α
  answer : ω
  target : σ

/-- The action with its answer. -/
def Taken.event (t : Taken σ α ω) : α × ω := (t.action, t.answer)

variable (M) in
/-- The steps from one state to another, oldest first. -/
inductive Path : σ → List (Taken σ α ω) → σ → Prop
  | nil (s : σ) : Path s [] s
  | cons {s t u : σ} {a : α} {o : ω} {steps : List (Taken σ α ω)} :
      M.step s a = .ok (o, t) → Path t steps u → Path s (⟨s, a, o, t⟩ :: steps) u

/-- A property of the steps taken and the state that holds at the start of a path, and that every
step keeps, holds at its end. -/
theorem Path.invariant {I : List (Taken σ α ω) → σ → Prop}
    (hs : ∀ steps s a o s', I steps s → M.step s a = .ok (o, s') → I (steps ++ [⟨s, a, o, s'⟩]) s')
    {s s' : σ} {steps : List (Taken σ α ω)} (h : M.Path s steps s') (before : List (Taken σ α ω))
    (h0 : I before s) : I (before ++ steps) s' := by
  induction h generalizing before with
  | nil s => rwa [List.append_nil]
  | cons hstep _ ih =>
    have hI := ih _ (hs _ _ _ _ _ h0 hstep)
    rwa [List.append_assoc] at hI

/-- One path after another. -/
theorem Path.trans {s t u : σ} {steps more : List (Taken σ α ω)} (h : M.Path s steps t)
    (h' : M.Path t more u) : M.Path s (steps ++ more) u := by
  induction h with
  | nil s => exact h'
  | cons hstep _ ih => exact .cons hstep (ih h')

/-- A path consists of the path before a step, the step, and the path after it. -/
theorem Path.split {s u : σ} {before after : List (Taken σ α ω)} {t : Taken σ α ω}
    (h : M.Path s (before ++ t :: after) u) :
    M.Path s before t.source ∧ M.step t.source t.action = .ok (t.answer, t.target) ∧
      M.Path t.target after u := by
  induction before generalizing s with
  | nil =>
    cases h with
    | cons hstep hafter => exact ⟨.nil _, hstep, hafter⟩
  | cons _ before ih =>
    cases h with
    | cons hstep hrest =>
      obtain ⟨hbefore, hrest⟩ := ih hrest
      exact ⟨.cons hstep hbefore, hrest⟩

/-- The steps of a path cost (`f`) no more than the potential (`p`) of its first state, if each of
them is paid for by the potential that it takes. -/
theorem Path.amortised {I : σ → Prop} {f : Taken σ α ω → ℕ} {p : σ → ℕ} {P : α → Prop}
    (hs : ∀ s a o s', I s → P a → M.step s a = .ok (o, s') →
      I s' ∧ f ⟨s, a, o, s'⟩ + p s' ≤ p s)
    {s s' : σ} {steps : List (Taken σ α ω)} (h : M.Path s steps s') (hI : I s)
    (hP : ∀ t ∈ steps, P t.action) : (steps.map f).sum + p s' ≤ p s := by
  induction h with
  | nil s => simp
  | cons hstep _ ih =>
    have hfirst := hP _ List.mem_cons_self
    dsimp only at hfirst
    obtain ⟨hI', hpaid⟩ := hs _ _ _ _ hI hfirst hstep
    have hrest := ih hI' fun t ht => hP t (List.mem_cons_of_mem _ ht)
    rw [List.map_cons, List.sum_cons]
    omega

/-- The steps are those that a scheduler picks, which sees all steps before. -/
def Obeys (pick : List (Taken σ α ω) → σ → α) (before steps : List (Taken σ α ω)) : Prop :=
  ∀ early t late, steps = early ++ t :: late → t.action = pick (before ++ early) t.source

/-- Whatever a scheduler picks, the machine comes to rest, if each of its steps before takes from a
measure `f` in a well-founded order. -/
theorem Path.exists_rest {β : Type*} [Preorder β] [WellFoundedLT β] {I R : σ → Prop} (f : σ → β)
    (pick : List (Taken σ α ω) → σ → α)
    (hs : ∀ steps s, I s → ¬ R s →
      ∃ o s', M.step s (pick steps s) = .ok (o, s') ∧ I s' ∧ f s' < f s)
    (before : List (Taken σ α ω)) {s : σ} (hI : I s) :
    ∃ steps s', M.Path s steps s' ∧ Obeys pick before steps ∧ I s' ∧ R s' := by
  induction hf : f s using WellFoundedLT.induction generalizing s before with
  | _ b ih =>
    by_cases hR : R s
    · refine ⟨[], s, .nil s, fun early t late h => ?_, hI, hR⟩
      exact absurd h.symm (List.append_ne_nil_of_right_ne_nil _ (List.cons_ne_nil _ _))
    · obtain ⟨o, s₁, hstep, hI₁, hlt⟩ := hs before s hI hR
      obtain ⟨steps, s', hpath, hobeys, hrest⟩ :=
        ih (f s₁) (hf ▸ hlt) (before ++ [⟨s, _, o, s₁⟩]) hI₁ rfl
      refine ⟨_, s', .cons hstep hpath, fun early t late h => ?_, hrest⟩
      -- The first step is the one picked here; the others are picked later.
      cases early with
      | nil =>
        cases h
        rw [List.append_nil]
      | cons first early =>
        cases h
        rw [hobeys early t late rfl, List.append_assoc]
        rfl

/-- A path from the initial state is a run. -/
theorem Path.run {s : σ} {steps : List (Taken σ α ω)} (h : M.Path M.init steps s) :
    M.Run (steps.map Taken.event) s := by
  refine Path.invariant (I := fun steps s => M.Run (steps.map Taken.event) s) ?_ h [] .init
  intro steps s a o s' hr hstep
  rw [List.map_append]
  exact hr.step hstep

end Machine

/-! ## Sums over indexed objects -/

/-- Replacing one of the objects changes the sum by the difference of the two values. -/
theorem sum_range_update {β : Type*} (g : β → ℕ) (h : ℕ → β) {r n : ℕ} (x : β) (hr : r < n) :
    ∑ i ∈ Finset.range n, g (Function.update h r x i) + g (h r) =
      ∑ i ∈ Finset.range n, g (h i) + g x := by
  have hmem : r ∈ Finset.range n := Finset.mem_range.mpr hr
  rw [← Finset.add_sum_erase _ _ hmem, ← Finset.add_sum_erase _ (fun i => g (h i)) hmem,
    Function.update_self]
  have hrest : ∑ i ∈ (Finset.range n).erase r, g (Function.update h r x i) =
      ∑ i ∈ (Finset.range n).erase r, g (h i) := by
    refine Finset.sum_congr rfl fun i hi => ?_
    rw [Function.update_of_ne (Finset.ne_of_mem_erase hi)]
  omega

/-- Objects that are matched with different ones, where they are matched at all, weigh no more than
all of these. -/
theorem sum_range_matched_le {m n : ℕ} (f : ℕ → Option ℕ) (w : ℕ → ℕ)
    (hlt : ∀ a b, f a = some b → b < n) (hinj : ∀ a a' b, f a = some b → f a' = some b → a = a') :
    ∑ a ∈ Finset.range m, (f a).elim 0 w ≤ ∑ b ∈ Finset.range n, w b := by
  have hsome : ∀ a, f a ≠ none → f a = some ((f a).getD 0) := fun a ha => by
    obtain ⟨b, hb⟩ := Option.ne_none_iff_exists'.mp ha
    rw [hb, Option.getD_some]
  have hmatched : ∀ a ∈ Finset.range m, (f a).elim 0 w ≠ 0 → f a ≠ none := by
    intro a _ ha hnone
    rw [hnone] at ha
    exact ha rfl
  calc ∑ a ∈ Finset.range m, (f a).elim 0 w
      = ∑ a ∈ (Finset.range m).filter (f · ≠ none), (f a).elim 0 w :=
        (Finset.sum_filter_of_ne hmatched).symm
    _ = ∑ a ∈ (Finset.range m).filter (f · ≠ none), w ((f a).getD 0) := by
        refine Finset.sum_congr rfl fun a ha => ?_
        rw [hsome a (Finset.mem_filter.mp ha).2]
        rfl
    _ = ∑ b ∈ ((Finset.range m).filter (f · ≠ none)).image fun a => (f a).getD 0, w b := by
        refine (Finset.sum_image fun a ha a' ha' h => ?_).symm
        refine hinj a a' _ (hsome a (Finset.mem_filter.mp ha).2) ?_
        rw [hsome a' (Finset.mem_filter.mp ha').2, ← h]
    _ ≤ ∑ b ∈ Finset.range n, w b := by
        refine Finset.sum_le_sum_of_subset fun b hb => ?_
        obtain ⟨a, ha, rfl⟩ := Finset.mem_image.mp hb
        exact Finset.mem_range.mpr (hlt a _ (hsome a (Finset.mem_filter.mp ha).2))

end Rammux.Lib
