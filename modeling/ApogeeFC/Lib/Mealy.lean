import Mathlib.Data.List.Basic
import Mathlib.Data.List.Induction
import Mathlib.Tactic.Common

/-!
# Partial Mealy machines

A step function `σ → ι → Option (σ × List ο)` reads one input and either moves to a new state
emitting a list of outputs, or fails (`none`: a fault, or a computation that does not come back).
`run` iterates it over a list of inputs and fails as soon as one step does.

A machine fed chunk by chunk is `run (run step)`; `run_run` says that only the concatenation of the
chunks matters. The rules used by the developments on top are `run_append` and `run_append_eq`
(composition), `run_map` (another view of the outputs), `run_total` (an invariant that guarantees
progress), `run_safe` (such an invariant with a property of every output), `run_inv` (an invariant of
successful runs), `run_since` (a flag of the state as a property of the history), `run_simulates`
(lifting a one-step simulation to runs) and `run_beside` (the same moves with other outputs).
-/

namespace Mealy

section
variable {σ ι ο : Type*} {step : σ → ι → Option (σ × List ο)}

/-- Iterate a step function, collecting the outputs. -/
def run (step : σ → ι → Option (σ × List ο)) : σ → List ι → Option (σ × List ο)
  | s, [] => some (s, [])
  | s, i :: is => do
    let (s1, o1) ← step s i
    let (s2, o2) ← run step s1 is
    some (s2, o1 ++ o2)

@[simp] lemma run_nil (s : σ) : run step s [] = some (s, []) := rfl

/-- Running from a state whose first step is known. -/
lemma run_cons {s s1 s2 i is o1 o2} (h1 : step s i = some (s1, o1))
    (h2 : run step s1 is = some (s2, o2)) : run step s (i :: is) = some (s2, o1 ++ o2) := by
  simp [run, h1, h2]

/-- Inversion for a run on a nonempty input. -/
lemma run_cons_inv {s s2 i is o} (h : run step s (i :: is) = some (s2, o)) :
    ∃ s1 o1 o2, step s i = some (s1, o1) ∧ run step s1 is = some (s2, o2) ∧ o = o1 ++ o2 := by
  cases h1 : step s i with
  | none => simp [run, h1] at h
  | some p =>
    obtain ⟨s1, o1⟩ := p
    cases h2 : run step s1 is with
    | none => simp [run, h1, h2] at h
    | some q =>
      obtain ⟨s2', o2⟩ := q
      simp only [run, h1, h2, Option.bind_eq_bind, Option.bind_some, Option.some.injEq,
        Prod.mk.injEq] at h
      obtain ⟨e1, e2⟩ := h
      subst e1; subst e2
      exact ⟨s1, o1, o2, rfl, h2, rfl⟩

/-- A run on one input is a step. -/
@[simp] lemma run_singleton (s : σ) (i : ι) : run step s [i] = step s i := by
  cases h : step s i with
  | none => simp [run, h]
  | some p => simp [run, h]

/-- Runs compose. -/
lemma run_append {s s1 s2 is js o1 o2} (h1 : run step s is = some (s1, o1))
    (h2 : run step s1 js = some (s2, o2)) : run step s (is ++ js) = some (s2, o1 ++ o2) := by
  induction is generalizing s o1 with
  | nil =>
    simp only [run_nil, Option.some.injEq, Prod.mk.injEq] at h1
    obtain ⟨e1, e2⟩ := h1
    subst e1; subst e2
    exact h2
  | cons i is ih =>
    obtain ⟨s', p1, p2, hs, hr, e⟩ := run_cons_inv h1
    subst e
    rw [List.append_assoc]
    exact run_cons hs (ih hr)

/-- A run on a concatenation is a run on the one and then on the other, failures included. -/
lemma run_append_eq (s : σ) (is js : List ι) :
    run step s (is ++ js) = (run step s is).bind fun p =>
      (run step p.1 js).map fun q => (q.1, p.2 ++ q.2) := by
  induction is generalizing s with
  | nil => simp
  | cons i is ih =>
    cases h : step s i with
    | none => simp [run, h]
    | some p =>
      rw [List.cons_append, run, run, h]
      simp only [Option.bind_eq_bind, Option.bind_some, ih]
      cases run step p.1 is with
      | none => rfl
      | some q =>
        cases hq : run step q.1 js with
        | none => simp [hq]
        | some r => simp [hq, List.append_assoc]

/-- Inversion for a run on a concatenation. -/
lemma run_append_inv {s s2 is js o} (h : run step s (is ++ js) = some (s2, o)) :
    ∃ s1 o1 o2, run step s is = some (s1, o1) ∧ run step s1 js = some (s2, o2) ∧ o = o1 ++ o2 := by
  induction is generalizing s o with
  | nil => exact ⟨s, [], o, rfl, h, rfl⟩
  | cons i is ih =>
    obtain ⟨s', p1, p2, hs, hr, e⟩ := run_cons_inv h
    obtain ⟨s1, o1, o2, h1, h2, e'⟩ := ih hr
    subst e; subst e'
    exact ⟨s1, p1 ++ o1, o2, run_cons hs h1, h2, by rw [List.append_assoc]⟩

/-- Only the concatenation of the chunks matters. -/
lemma run_run {s s' os} {chunks : List (List ι)} :
    run (run step) s chunks = some (s', os) ↔ run step s chunks.flatten = some (s', os) := by
  induction chunks generalizing s os with
  | nil => simp
  | cons chunk chunks ih =>
    rw [List.flatten_cons]
    constructor
    · intro h
      obtain ⟨s1, o1, o2, h1, h2, e⟩ := run_cons_inv h
      subst e
      exact run_append h1 (ih.mp h2)
    · intro h
      obtain ⟨s1, o1, o2, h1, h2, e⟩ := run_append_inv h
      subst e
      exact run_cons h1 (ih.mpr h2)

/-- Reading the outputs of every step through a map is reading those of the run through it. -/
lemma run_map {π : Type*} {step' : σ → ι → Option (σ × List π)} {f : List ο → List π}
    (hnil : f [] = []) (happ : ∀ o1 o2, f (o1 ++ o2) = f o1 ++ f o2)
    (hstep : ∀ s i, step' s i = (step s i).map (Prod.map id f)) (s : σ) (is : List ι) :
    run step' s is = (run step s is).map (Prod.map id f) := by
  induction is generalizing s with
  | nil => simp [hnil]
  | cons i is ih =>
    cases h : step s i with
    | none => simp [run, hstep, h]
    | some p =>
      obtain ⟨s1, o1⟩ := p
      cases hr : run step s1 is with
      | none => simp [run, hstep, h, ih, hr]
      | some q => simp [run, hstep, h, ih, hr, happ]

/-- An invariant of the steps is an invariant of the runs. -/
lemma run_inv {P : σ → Prop} (hstep : ∀ {s i s' o}, P s → step s i = some (s', o) → P s')
    {s is s' o} (hs : P s) (h : run step s is = some (s', o)) : P s' := by
  induction is generalizing s o with
  | nil =>
    simp only [run_nil, Option.some.injEq, Prod.mk.injEq] at h
    exact h.1 ▸ hs
  | cons i is ih =>
    obtain ⟨s1, o1, o2, h1, h2, _⟩ := run_cons_inv h
    exact ih (hstep hs h1) h2

/-- A machine that can always step from its invariant can always run. -/
lemma run_total {P : σ → Prop} (hstep : ∀ s i, P s → ∃ s' o, step s i = some (s', o) ∧ P s')
    {s} (hs : P s) (is : List ι) : ∃ s' o, run step s is = some (s', o) ∧ P s' := by
  induction is generalizing s with
  | nil => exact ⟨s, [], rfl, hs⟩
  | cons i is ih =>
    obtain ⟨s1, o1, h1, hs1⟩ := hstep s i hs
    obtain ⟨s2, o2, h2, hs2⟩ := ih hs1
    exact ⟨s2, o1 ++ o2, run_cons h1 h2, hs2⟩

/-- If such a machine only emits good outputs from its invariant, so do its runs. -/
lemma run_safe {P : σ → Prop} {Q : ο → Prop}
    (hstep : ∀ s i, P s → ∃ s' o, step s i = some (s', o) ∧ P s' ∧ ∀ x ∈ o, Q x) {s} (hs : P s)
    (is : List ι) : ∃ s' o, run step s is = some (s', o) ∧ P s' ∧ ∀ x ∈ o, Q x := by
  induction is generalizing s with
  | nil => exact ⟨s, [], rfl, hs, by simp⟩
  | cons i is ih =>
    obtain ⟨s1, o1, h1, hs1, ho1⟩ := hstep s i hs
    obtain ⟨s2, o2, h2, hs2, ho2⟩ := ih hs1
    exact ⟨s2, o1 ++ o2, run_cons h1 h2, hs2, List.forall_mem_append.mpr ⟨ho1, ho2⟩⟩

/-- A flag that each step sets, clears or keeps holds exactly if some earlier input set it and none
after that one cleared it. -/
lemma run_since {I P : σ → Prop} {sets : σ → ι → Prop} {clears : ι → Prop}
    (hinv : ∀ {s i s' o}, I s → step s i = some (s', o) → I s')
    (hstep : ∀ {s i s' o}, I s → step s i = some (s', o) → (P s' ↔ sets s i ∨ P s ∧ ¬ clears i))
    {s₀ s is o} (h₀ : I s₀) (hP : ¬ P s₀) (h : run step s₀ is = some (s, o)) :
    P s ↔ ∃ before i after s₁ o₁, is = before ++ i :: after ∧
      run step s₀ before = some (s₁, o₁) ∧ sets s₁ i ∧ ∀ j ∈ after, ¬ clears j := by
  induction is using List.reverseRecOn generalizing s o with
  | nil =>
    simp only [run_nil, Option.some.injEq, Prod.mk.injEq] at h
    constructor
    · exact fun hs => absurd (h.1 ▸ hs) hP
    · rintro ⟨before, i, after, _, _, e, _⟩
      simp at e
  | append_singleton is i ih =>
    obtain ⟨s₁, o₁, o₂, h₁, h₂, -⟩ := run_append_inv h
    rw [run_singleton] at h₂
    have ih := ih h₁
    rw [hstep (run_inv hinv h₀ h₁) h₂]
    constructor
    · rintro (hs | ⟨hs, hc⟩)
      · exact ⟨is, i, [], s₁, o₁, rfl, h₁, hs, by simp⟩
      · obtain ⟨before, j, after, s₂, o₂, e, hr, hset, hclear⟩ := ih.mp hs
        refine ⟨before, j, after ++ [i], s₂, o₂, by rw [e, List.append_assoc]; rfl, hr, hset, ?_⟩
        intro x hx
        rw [List.mem_append, List.mem_singleton] at hx
        exact hx.elim (hclear x) fun e => e ▸ hc
    · rintro ⟨before, j, after, s₂, o₂, e, hr, hset, hclear⟩
      obtain ea | ⟨after', k, ea⟩ := List.eq_nil_or_concat' after
      · subst ea
        obtain ⟨e1, e2⟩ := List.append_inj' e rfl
        subst e1
        cases e2
        rw [h₁] at hr
        cases hr
        exact .inl hset
      · subst ea
        rw [← List.cons_append, ← List.append_assoc] at e
        obtain ⟨e1, e2⟩ := List.append_inj' e rfl
        cases e2
        refine .inr ⟨ih.mpr ⟨before, j, after', s₂, o₂, e1, hr, hset, ?_⟩, hclear i (by simp)⟩
        exact fun x hx => hclear x (by simp [hx])

end

section
variable {σ τ ι ο π : Type*} {step : σ → ι → Option (σ × List ο)}
  {spec : τ → ι → Option (τ × List π)}

/-- A simulation of steps is a simulation of runs. `O` relates the outputs; it must hold of the empty
outputs and be closed under concatenation. -/
lemma run_simulates {R : σ → τ → Prop} {O : List ο → List π → Prop} (hnil : O [] [])
    (happ : ∀ {o1 o2 p1 p2}, O o1 p1 → O o2 p2 → O (o1 ++ o2) (p1 ++ p2))
    (hstep : ∀ {s t i t' p}, R s t → spec t i = some (t', p) →
      ∃ s' o, step s i = some (s', o) ∧ R s' t' ∧ O o p)
    {s t is t' p} (hr : R s t) (h : run spec t is = some (t', p)) :
    ∃ s' o, run step s is = some (s', o) ∧ R s' t' ∧ O o p := by
  induction is generalizing s t p with
  | nil =>
    simp only [run_nil, Option.some.injEq, Prod.mk.injEq] at h
    obtain ⟨e1, e2⟩ := h
    subst e1; subst e2
    exact ⟨s, [], rfl, hr, hnil⟩
  | cons i is ih =>
    obtain ⟨t1, p1, p2, h1, h2, e⟩ := run_cons_inv h
    subst e
    obtain ⟨s1, o1, hs1, hr1, ho1⟩ := hstep hr h1
    obtain ⟨s2, o2, hs2, hr2, ho2⟩ := ih hr1 h2
    exact ⟨s2, o1 ++ o2, run_cons hs1 hs2, hr2, happ ho1 ho2⟩

end

section
variable {σ ι ο π : Type*} {step : σ → ι → Option (σ × List ο)}
  {step' : σ → ι → Option (σ × List π)}

/-- A machine that makes the same moves and emits something else, all of it good. -/
lemma run_beside {Q : π → Prop} (hstep : ∀ {s i s' o}, step s i = some (s', o) →
      ∃ p, step' s i = some (s', p) ∧ ∀ x ∈ p, Q x)
    {s is s' o} (h : run step s is = some (s', o)) :
    ∃ p, run step' s is = some (s', p) ∧ ∀ x ∈ p, Q x := by
  obtain ⟨t, p, hrun, e, hp⟩ := run_simulates (R := Eq) (O := fun p (_ : List ο) => ∀ x ∈ p, Q x)
    (by simp) (fun h1 h2 => List.forall_mem_append.mpr ⟨h1, h2⟩)
    (fun e hs => by
      subst e
      obtain ⟨p, hp, hq⟩ := hstep hs
      exact ⟨_, p, hp, rfl, hq⟩) rfl h
  subst e
  exact ⟨p, hrun, hp⟩

end

end Mealy
