import Mathlib.Data.List.DropRight
import Mathlib.Tactic.Common

/-!
# Stripping both ends of a list

`strip p l` is `l` without the elements at either end that satisfy `p`. It is a piece of `l` with only
such elements around it (`strip_split`), and these do not change it (`strip_append`). So if `w` has none
at its ends, the lists that are stripped to `w` are those that have only such elements around it
(`strip_eq_iff`).
-/

namespace Strip

variable {α : Type*} {p : α → Bool}

def strip (p : α → Bool) (l : List α) : List α := (l.dropWhile p).rdropWhile p

/-- Only elements to be stripped. -/
def Blank (p : α → Bool) (l : List α) : Prop := ∀ a ∈ l, p a

lemma Blank.append {l m : List α} (hl : Blank p l) (hm : Blank p m) : Blank p (l ++ m) :=
  List.forall_mem_append.mpr ⟨hl, hm⟩

lemma dropWhile_blank {l : List α} (h : Blank p l) : l.dropWhile p = [] := List.dropWhile_eq_nil_iff.mpr h

lemma rdropWhile_append_blank (l : List α) {after : List α} (h : Blank p after) :
    (l ++ after).rdropWhile p = l.rdropWhile p := by
  rw [List.rdropWhile, List.rdropWhile, List.reverse_append, List.dropWhile_append_of_pos]
  exact fun a ha => h a (List.mem_reverse.mp ha)

/-- What is stripped is around what is left. -/
lemma strip_split (p : α → Bool) (l : List α) :
    ∃ before after, Blank p before ∧ Blank p after ∧ l = before ++ strip p l ++ after := by
  refine ⟨l.takeWhile p, (l.dropWhile p).rtakeWhile p, fun a => List.mem_takeWhile_imp,
    fun a => List.mem_rtakeWhile_imp, ?_⟩
  rw [strip, List.append_assoc, List.rdropWhile_append_rtakeWhile, List.takeWhile_append_dropWhile]

/-- What is to be stripped does not matter. -/
lemma strip_append {before after : List α} (hb : Blank p before) (ha : Blank p after) (core : List α) :
    strip p (before ++ core ++ after) = strip p core := by
  rw [strip, strip, List.append_assoc, List.dropWhile_append_of_pos hb, List.dropWhile_append]
  split
  case isTrue h =>
    rw [List.isEmpty_iff] at h
    rw [h, dropWhile_blank ha]
  case isFalse h => exact rdropWhile_append_blank _ ha

/-- The lists that are stripped to `w`. -/
theorem strip_eq_iff {w : List α} (hw : strip p w = w) (l : List α) :
    strip p l = w ↔ ∃ before after, Blank p before ∧ Blank p after ∧ l = before ++ w ++ after := by
  constructor
  · intro h
    obtain ⟨before, after, hb, ha, e⟩ := strip_split p l
    rw [h] at e
    exact ⟨before, after, hb, ha, e⟩
  · rintro ⟨before, after, hb, ha, e⟩
    rw [e, strip_append hb ha, hw]

/-- Nothing is stripped where both ends stay. -/
lemma strip_self {w : List α} (hf : ∀ a ∈ w.head?, ¬ p a) (hl : ∀ a ∈ w.getLast?, ¬ p a) :
    strip p w = w := by
  have hd : w.dropWhile p = w := by
    cases w with
    | nil => rfl
    | cons a w => exact List.dropWhile_cons_of_neg (hf a rfl)
  rw [strip, hd, List.rdropWhile_eq_self_iff]
  exact fun hw => hl _ (List.getLast?_eq_some_getLast hw)

end Strip
