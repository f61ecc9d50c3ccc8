import Mathlib.Data.List.Basic
import Mathlib.Tactic.Common

/-!
# Texts that can be read in one way only

A rendering of values as lists is legible if a list that begins with the rendering of a value can be
split behind it in one way only. Then lists of values, rendered one after the other, are legible too
(`Legible.flatMap_injective`). `Spelled` is how the parts of a line get there: a value that is spelled in
letters of one kind ends where another letter follows (`Spelled.split`). Numerals are such spellings.
-/

namespace Text

variable {α β γ : Type*} {p q : β → Prop} {f : α → List β}

/-- A rendering that is seen where it ends. -/
def Legible (f : α → List β) : Prop :=
  ∀ {a b : α} {rest rest' : List β}, f a ++ rest = f b ++ rest' → a = b ∧ rest = rest'

/-- One rendering after the other. -/
theorem Legible.flatMap_injective (h : Legible f) (hne : ∀ a, f a ≠ []) :
    Function.Injective fun as : List α => as.flatMap f := by
  intro as bs e
  dsimp only at e
  induction as generalizing bs with
  | nil =>
    cases bs with
    | nil => rfl
    | cons b bs => exact absurd (List.append_eq_nil_iff.mp e.symm).1 (hne b)
  | cons a as ih =>
    cases bs with
    | nil => exact absurd (List.append_eq_nil_iff.mp e).1 (hne a)
    | cons b bs =>
      obtain ⟨eab, erest⟩ := h e
      rw [eab, ih erest]

/-- The list is empty or begins with another kind of letter. -/
def Stops (p : β → Prop) (rest : List β) : Prop := ∀ b ∈ rest.head?, ¬ p b

/-- Letters of one kind end where another letter follows. -/
lemma split_stops {xs ys rest rest' : List β} (hx : ∀ b ∈ xs, p b) (hy : ∀ b ∈ ys, p b)
    (hr : Stops p rest) (hr' : Stops p rest') (e : xs ++ rest = ys ++ rest') :
    xs = ys ∧ rest = rest' := by
  induction xs generalizing ys with
  | nil =>
    cases ys with
    | nil => exact ⟨rfl, e⟩
    | cons y ys =>
      rw [List.nil_append] at e
      subst e
      exact absurd (hy y List.mem_cons_self) (hr y rfl)
  | cons x xs ih =>
    cases ys with
    | nil =>
      rw [List.nil_append] at e
      subst e
      exact absurd (hx x List.mem_cons_self) (hr' x rfl)
    | cons y ys =>
      rw [List.cons_append, List.cons_append, List.cons.injEq] at e
      obtain ⟨exy, e⟩ := e
      rw [List.forall_mem_cons] at hx hy
      obtain ⟨exs, erest⟩ := ih hx.2 hy.2 e
      rw [exy, exs]
      exact ⟨rfl, erest⟩

/-- Different values are spelled differently, in letters of one kind. -/
structure Spelled (p : β → Prop) (f : α → List β) : Prop where
  letters : ∀ a, ∀ b ∈ f a, p b
  injective : Function.Injective f

namespace Spelled

/-- A spelling is legible where another kind of letter follows. -/
theorem split (h : Spelled p f) {a b : α} {rest rest' : List β} (hr : Stops p rest)
    (hr' : Stops p rest') (e : f a ++ rest = f b ++ rest') : a = b ∧ rest = rest' := by
  obtain ⟨eab, erest⟩ := split_stops (h.letters a) (h.letters b) hr hr' e
  exact ⟨h.injective eab, erest⟩

lemma mono (h : Spelled p f) (hpq : ∀ b, p b → q b) : Spelled q f :=
  ⟨fun a b hb => hpq b (h.letters a b hb), h.injective⟩

lemma comp (h : Spelled p f) {g : γ → α} (hg : Function.Injective g) : Spelled p (f ∘ g) :=
  ⟨fun a => h.letters (g a), h.injective.comp hg⟩

end Spelled

/-! ## Numerals -/

lemma spelled_nat : Spelled (fun c : Char => c.isDigit) fun n : Nat => (toString n).toList := by
  constructor
  · intro n c hc
    rw [Nat.toString_eq_repr, Nat.toList_repr] at hc
    exact Nat.isDigit_of_mem_toDigits (by decide) (by decide) hc
  · intro m n e
    dsimp only at e
    rw [Nat.toString_eq_repr, Nat.toString_eq_repr, Nat.toList_repr, Nat.toList_repr] at e
    rw [← @Nat.ofDigitChars_ten_toDigits m, e, Nat.ofDigitChars_ten_toDigits]

/-- The numeral of a negative number begins with a minus sign. -/
lemma toList_negSucc (n : Nat) : (toString (Int.negSucc n)).toList = '-' :: (toString (n + 1)).toList := by
  show ("-" ++ (n + 1).repr).toList = _
  rw [String.toList_append]
  rfl

lemma spelled_int :
    Spelled (fun c : Char => c.isDigit ∨ c = '-') fun i : Int => (toString i).toList := by
  have hnat : ∀ n : Nat, (toString (Int.ofNat n)).toList = (toString n).toList := fun _ => rfl
  have hminus : ∀ n m : Nat, (toString n).toList ≠ '-' :: (toString m).toList := by
    intro n m e
    have hdigit := spelled_nat.letters n '-' (e ▸ List.mem_cons_self)
    cases hdigit
  constructor
  · intro i c hc
    cases i with
    | ofNat n => exact .inl (spelled_nat.letters n c hc)
    | negSucc n =>
      rw [toList_negSucc, List.mem_cons] at hc
      exact hc.elim .inr fun h => .inl (spelled_nat.letters _ c h)
  · intro i j e
    change (toString i).toList = (toString j).toList at e
    cases i with
    | ofNat m =>
      cases j with
      | ofNat n => exact congrArg Int.ofNat (spelled_nat.injective e)
      | negSucc n =>
        rw [toList_negSucc, hnat] at e
        exact absurd e (hminus m _)
    | negSucc m =>
      cases j with
      | ofNat n =>
        rw [toList_negSucc, hnat] at e
        exact absurd e.symm (hminus n _)
      | negSucc n =>
        rw [toList_negSucc, toList_negSucc, List.cons.injEq] at e
        exact congrArg Int.negSucc (Nat.succ.inj (spelled_nat.injective e.2))

end Text
