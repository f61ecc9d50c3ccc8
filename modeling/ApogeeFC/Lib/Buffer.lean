import Mathlib.Tactic.Common

/-!
# Fixed-capacity buffers

A `Vector α n` used as a buffer whose first `k` elements are the live ones. `contents v k` is that
prefix; every operation has one lemma that says what it does to it, so that a program over buffers
can be reasoned about as a program over lists.

`read`, `write`, `slice` and `copyN` check their bounds and fail with `none` outside them; `fill` is
the unchecked store of a run of elements and carries the proof that it stays inside.
-/

namespace Buffer

variable {α : Type*} {m n : Nat}

/-- The first `k` elements. -/
def contents (v : Vector α n) (k : Nat) : List α := v.toList.take k

/-- Checked `v[i]`. -/
def read (v : Vector α n) (i : Nat) : Option α := v[i]?

/-- Checked `v[i] = x`. -/
def write (v : Vector α n) (i : Nat) (x : α) : Option (Vector α n) :=
  if h : i < n then some (v.set i x h) else none

/-- Checked view of the first `k` elements. -/
def slice (v : Vector α n) (k : Nat) : Option (List α) :=
  if k ≤ n then some (contents v k) else none

/-- `count` elements from `start` on. -/
def span (v : Vector α n) (start count : Nat) : List α := (v.toList.drop start).take count

/-- Checked copy of `count` elements of `src` from `start` on to the beginning of `dst`. Copying
downwards inside one buffer is `copyN v start count v`: each element is read before it is
overwritten. -/
def copyN (src : Vector α m) (start count : Nat) (dst : Vector α n) : Option (Vector α n) :=
  if h : start + count ≤ m ∧ count ≤ n then
    some (Vector.ofFn fun i => if hi : i.val < count then src[start + i.val] else dst[i.val])
  else none

/-- Store `xs` from `offset` on, one element after the other. -/
def fill (v : Vector α n) (offset : Nat) : (xs : List α) → offset + xs.length ≤ n → Vector α n
  | [], _ => v
  | x :: xs, h =>
    fill (v.set offset x (by rw [List.length_cons] at h; omega)) (offset + 1) xs
      (by rw [List.length_cons] at h; omega)

@[simp] lemma contents_zero (v : Vector α n) : contents v 0 = [] := by simp [contents]

@[simp] lemma length_contents (v : Vector α n) (k : Nat) : (contents v k).length = min k n := by
  simp [contents]

@[simp] lemma length_span (v : Vector α n) (start count : Nat) :
    (span v start count).length = min count (n - start) := by
  simp [span]

/-- A prefix of the contents is the contents up to there. -/
lemma take_contents {v : Vector α n} {j k} (h : j ≤ k) : (contents v k).take j = contents v j := by
  rw [contents, List.take_take, Nat.min_eq_left h, contents]

/-- A span is the end of the contents up to where it ends. -/
lemma span_eq (v : Vector α n) (start count : Nat) :
    span v start count = (contents v (start + count)).drop start := by
  rw [span, contents, List.take_drop]

/-- Elements of the contents are elements of the buffer. -/
lemma read_of_lt {v : Vector α n} {i k} (h : i < k) (hk : k ≤ n) :
    read v i = (contents v k)[i]? := by
  rw [read, contents, List.getElem?_take_of_lt h, Vector.getElem?_eq_getElem (by omega),
    List.getElem?_eq_getElem (by simp; omega), Vector.getElem_toList]

/-- Storing at the end of the contents appends. -/
lemma contents_set {v : Vector α n} {i} (x : α) (h : i < n) :
    contents (v.set i x h) (i + 1) = contents v i ++ [x] := by
  rw [contents, contents, Vector.toList_set, List.take_add_one, List.take_set_of_le (Nat.le_refl i),
    List.getElem?_set_self (by simpa using h), Option.toList_some]

/-- A checked store at the end of the contents succeeds and appends. -/
lemma write_contents {v : Vector α n} {i} (x : α) (h : i < n) :
    ∃ v', write v i x = some v' ∧ contents v' (i + 1) = contents v i ++ [x] :=
  ⟨v.set i x h, by simp [write, h], contents_set x h⟩

/-- A checked write that succeeds is inside the buffer. -/
lemma lt_of_write {v v' : Vector α n} {i x} (h : write v i x = some v') : i < n := by
  by_contra hi
  rw [write, dif_neg hi] at h
  cases h

/-- A checked view inside the buffer succeeds. -/
lemma slice_of_le (v : Vector α n) {k} (h : k ≤ n) : slice v k = some (contents v k) := by
  simp [slice, h]

/-- A checked view that succeeds is inside the buffer. -/
lemma le_of_slice {v : Vector α n} {k xs} (h : slice v k = some xs) : k ≤ n := by
  by_contra hk
  rw [slice, if_neg hk] at h
  cases h

/-- A checked copy that succeeds fits where it goes. -/
lemma le_of_copyN {src : Vector α m} {start count} {dst v : Vector α n}
    (h : copyN src start count dst = some v) : count ≤ n := by
  by_contra hk
  rw [copyN, dif_neg fun hc => hk hc.2] at h
  cases h

/-- A checked copy inside both buffers succeeds and moves the elements. -/
lemma copyN_contents (src : Vector α m) (start count) (dst : Vector α n) (hs : start + count ≤ m)
    (hd : count ≤ n) : ∃ v', copyN src start count dst = some v' ∧
      contents v' count = (contents src (start + count)).drop start := by
  refine ⟨_, by rw [copyN, dif_pos ⟨hs, hd⟩], ?_⟩
  apply List.ext_getElem
  · simp only [length_contents, List.length_drop]
    omega
  · intro i h1 h2
    have hi : i < count := by simp at h1; omega
    simp [contents, hi]

/-- `fill` stores its list and leaves the rest alone. -/
lemma toList_fill (v : Vector α n) (offset : Nat) (xs : List α) (h : offset + xs.length ≤ n) :
    (fill v offset xs h).toList =
      v.toList.take offset ++ xs ++ v.toList.drop (offset + xs.length) := by
  induction xs generalizing v offset with
  | nil => simp [fill]
  | cons x xs ih =>
    rw [List.length_cons] at h
    rw [fill, ih]
    have ht := contents_set (v := v) (i := offset) x (by omega)
    rw [contents, contents] at ht
    rw [ht, Vector.toList_set, List.drop_set_of_lt (by omega), List.length_cons]
    simp [Nat.add_assoc, Nat.add_comm 1]

/-- Filling from the end of the contents appends. -/
lemma contents_fill (v : Vector α n) (offset : Nat) (xs : List α) (h : offset + xs.length ≤ n) :
    contents (fill v offset xs h) (offset + xs.length) = contents v offset ++ xs := by
  have hl : (v.toList.take offset ++ xs).length = offset + xs.length := by simp; omega
  rw [contents, toList_fill, ← hl, List.take_left, contents]

end Buffer
