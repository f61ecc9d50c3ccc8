import Mathlib.Data.List.Basic
import Mathlib.Data.List.Induction
import Mathlib.Tactic.Common

/-!
# Streaks in a history

A history is a list with the newest entry last, some of its entries marked. `Trails marked xs n` says
that the last marked entry is followed by `n` others. A machine that counts as its inputs arrive is
compared with its history by one lemma for each kind of new entry (`trails_snoc_marked`,
`trails_snoc_succ`); `Trails.unique` says that the count is a function of the history.
-/

namespace Streak

variable {α : Type*} {marked : α → Prop}

/-- The last marked entry is followed by `n` others. -/
def Trails (marked : α → Prop) (xs : List α) (n : ℕ) : Prop :=
  ∃ before x after, xs = before ++ x :: after ∧ marked x ∧ (∀ y ∈ after, ¬ marked y) ∧
    after.length = n

lemma not_trails_nil {n : ℕ} : ¬ Trails marked [] n := by
  rintro ⟨before, x, after, e, -⟩
  simp at e

/-- A marked entry starts a new streak. -/
lemma trails_snoc_marked {xs : List α} {x : α} {n : ℕ} (hx : marked x) :
    Trails marked (xs ++ [x]) n ↔ n = 0 := by
  constructor
  · rintro ⟨before, y, after, e, -, hclear, hlen⟩
    obtain ea | ⟨after', z, ea⟩ := List.eq_nil_or_concat' after
    · rw [← hlen, ea, List.length_nil]
    · subst ea
      rw [← List.cons_append, ← List.append_assoc] at e
      obtain ⟨-, e2⟩ := List.append_inj' e rfl
      cases e2
      exact absurd hx (hclear x (by simp))
  · intro e
    subst e
    exact ⟨xs, x, [], rfl, hx, by simp, rfl⟩

/-- The newest entry of a streak of length zero is the marked one. -/
lemma not_trails_snoc_zero {xs : List α} {x : α} (hx : ¬ marked x) :
    ¬ Trails marked (xs ++ [x]) 0 := by
  rintro ⟨before, y, after, e, hy, -, hlen⟩
  rw [List.length_eq_zero_iff] at hlen
  subst hlen
  obtain ⟨-, e2⟩ := List.append_inj' e rfl
  cases e2
  exact hx hy

/-- Any other entry makes the streak longer. -/
lemma trails_snoc_succ {xs : List α} {x : α} {n : ℕ} (hx : ¬ marked x) :
    Trails marked (xs ++ [x]) (n + 1) ↔ Trails marked xs n := by
  constructor
  · rintro ⟨before, y, after, e, hy, hclear, hlen⟩
    obtain ea | ⟨after', z, ea⟩ := List.eq_nil_or_concat' after
    · rw [ea] at hlen
      simp at hlen
    · subst ea
      rw [← List.cons_append, ← List.append_assoc] at e
      obtain ⟨e1, -⟩ := List.append_inj' e rfl
      refine ⟨before, y, after', e1, hy, fun w hw => hclear w (by simp [hw]), ?_⟩
      simpa using hlen
  · rintro ⟨before, y, after, e, hy, hclear, hlen⟩
    refine ⟨before, y, after ++ [x], by rw [e, List.append_assoc]; rfl, hy, ?_, by simp [hlen]⟩
    intro w hw
    rw [List.mem_append, List.mem_singleton] at hw
    exact hw.elim (hclear w) fun e => e ▸ hx

/-- A history has one streak at most. -/
lemma Trails.unique {xs : List α} {m n : ℕ} (hm : Trails marked xs m) (hn : Trails marked xs n) :
    m = n := by
  induction xs using List.reverseRecOn generalizing m n with
  | nil => exact absurd hm not_trails_nil
  | append_singleton xs x ih =>
    by_cases hx : marked x
    · rw [(trails_snoc_marked hx).mp hm, (trails_snoc_marked hx).mp hn]
    · obtain _ | m := m
      · exact absurd hm (not_trails_snoc_zero hx)
      obtain _ | n := n
      · exact absurd hn (not_trails_snoc_zero hx)
      rw [ih ((trails_snoc_succ hx).mp hm) ((trails_snoc_succ hx).mp hn)]

end Streak
