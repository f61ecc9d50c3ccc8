import Mathlib.Tactic.Common
import Mathlib.Data.List.Basic

/-!
# Greedy scanners

A scanner looks at the unread part of a stream and gives a verdict: wait for more input, skip one
symbol, or take the first `n` symbols as a frame. Scanning follows the verdicts greedily and yields
the tokens it went through and the unread suffix at which it waits.

The laws of a `Scanner` make scanning resumable: a verdict other than `wait` does not change when more
input arrives, so scanning a prefix first and then its unread suffix followed by the rest is scanning
the whole (`Scans.append`). This is what an incremental decoder that keeps only the unread suffix
relies on.

* `Scans S r ts rest` : the big-step relation; `Scanner.scan` is the function that computes it.
* `Scanner.Accepts` : a frame that is taken whatever follows it.
* `Visits S s q` : the positions at which the scan of `s` asks for a verdict.
* `Scans.split` : a scan that neither waits nor takes a frame across a border goes through it.
* `Embedded S fs s` : `fs` are accepted frames that occur disjointly and in order in `s`.
-/

namespace Scan

/-- What to do at the current position. -/
inductive Verdict where
  | wait
  | skip
  | take (n : Nat)
  deriving DecidableEq, Repr

/-- A verdict function with the laws that make scanning terminate and be resumable. -/
structure Scanner (α : Type*) where
  verdict : List α → Verdict
  verdict_nil : verdict [] = .wait
  take_pos {r n} : verdict r = .take n → 0 < n
  take_le {r n} : verdict r = .take n → n ≤ r.length
  take_self {r n} : verdict r = .take n → verdict (r.take n) = .take n
  stable {r} (t : List α) : verdict r ≠ .wait → verdict (r ++ t) = verdict r

/-- One piece of a scanned stream. -/
inductive Token (α : Type*) where
  | skip (a : α)
  | frame (f : List α)
  deriving DecidableEq, Repr

variable {α : Type*}

/-- The symbols a token stands for. -/
def Token.symbols : Token α → List α
  | .skip a => [a]
  | .frame f => f

/-- The frame of a token, if it is one. -/
def Token.frame? : Token α → Option (List α)
  | .skip _ => none
  | .frame f => some f

/-- The symbols a list of tokens stands for. -/
def spell (ts : List (Token α)) : List α := ts.flatMap Token.symbols

/-- The frames among the tokens, in order. -/
def frames (ts : List (Token α)) : List (List α) := ts.filterMap Token.frame?

@[simp] lemma spell_nil : spell ([] : List (Token α)) = [] := rfl

@[simp] lemma spell_skip (a : α) (ts) : spell (.skip a :: ts) = a :: spell ts := rfl

@[simp] lemma spell_frame (f : List α) (ts) : spell (.frame f :: ts) = f ++ spell ts := rfl

@[simp] lemma spell_append (ts us : List (Token α)) : spell (ts ++ us) = spell ts ++ spell us := by
  simp [spell]

@[simp] lemma frames_nil : frames ([] : List (Token α)) = [] := rfl

@[simp] lemma frames_skip (a : α) (ts) : frames (.skip a :: ts) = frames ts := rfl

@[simp] lemma frames_frame (f : List α) (ts) : frames (.frame f :: ts) = f :: frames ts := rfl

@[simp] lemma frames_append (ts us : List (Token α)) :
    frames (ts ++ us) = frames ts ++ frames us := by
  simp [frames]

@[simp] lemma spell_map_frame (fs : List (List α)) : spell (fs.map .frame) = fs.flatten := by
  induction fs with
  | nil => rfl
  | cons f fs ih => simp [ih]

@[simp] lemma frames_map_frame (fs : List (List α)) : frames (fs.map .frame) = fs := by
  induction fs with
  | nil => rfl
  | cons f fs ih => simp [ih]

/-- The frames among the tokens, each with where it starts, for tokens that start at `k`. -/
def locate : Nat → List (Token α) → List (Nat × List α)
  | _, [] => []
  | k, .skip _ :: ts => locate (k + 1) ts
  | k, .frame f :: ts => (k, f) :: locate (k + f.length) ts

lemma locate_append (k : Nat) (ts us : List (Token α)) :
    locate k (ts ++ us) = locate k ts ++ locate (k + (spell ts).length) us := by
  induction ts generalizing k with
  | nil => rfl
  | cons t ts ih =>
    cases t with
    | skip a => simp [locate, ih, Nat.add_assoc, Nat.add_comm 1]
    | frame f => simp [locate, ih, Nat.add_assoc]

/-- Forgetting where the frames are. -/
lemma map_snd_locate (k : Nat) (ts : List (Token α)) : (locate k ts).map Prod.snd = frames ts := by
  induction ts generalizing k with
  | nil => rfl
  | cons t ts ih =>
    cases t with
    | skip a => simp [locate, ih]
    | frame f => simp [locate, ih]

/-- A located frame is one of the tokens, after tokens that spell what is before it. -/
lemma locate_split {j k : Nat} {f : List α} {ts} (h : (k, f) ∈ locate j ts) :
    ∃ us vs, ts = us ++ .frame f :: vs ∧ k = j + (spell us).length := by
  induction ts generalizing j with
  | nil => cases h
  | cons t ts ih =>
    cases t with
    | skip a =>
      obtain ⟨us, vs, e, hk⟩ := ih h
      subst e
      refine ⟨.skip a :: us, vs, rfl, ?_⟩
      rw [spell_skip, List.length_cons]
      omega
    | frame g =>
      cases h with
      | head => exact ⟨[], ts, rfl, rfl⟩
      | tail _ h =>
        obtain ⟨us, vs, e, hk⟩ := ih h
        subst e
        refine ⟨.frame g :: us, vs, rfl, ?_⟩
        rw [spell_frame, List.length_append]
        omega

/-- Frames lie between where the tokens start and where they end. -/
lemma locate_bounds {j : Nat} {ts : List (Token α)} {x} (h : x ∈ locate j ts) :
    j ≤ x.1 ∧ x.1 + x.2.length ≤ j + (spell ts).length := by
  obtain ⟨us, vs, e, hk⟩ := locate_split h
  rw [e, spell_append, spell_frame, List.length_append, List.length_append]
  omega

/-- No symbol was skipped. -/
def Clean (ts : List (Token α)) : Prop := ∀ t ∈ ts, t.frame?.isSome

@[simp] lemma clean_nil : Clean ([] : List (Token α)) := by simp [Clean]

@[simp] lemma clean_skip (a : α) (ts) : ¬ Clean (.skip a :: ts) := by simp [Clean, Token.frame?]

@[simp] lemma clean_frame (f : List α) (ts) : Clean (.frame f :: ts) ↔ Clean ts := by
  simp [Clean, Token.frame?]

@[simp] lemma clean_append (ts us : List (Token α)) :
    Clean (ts ++ us) ↔ Clean ts ∧ Clean us := by
  simp only [Clean, List.mem_append]
  exact ⟨fun h => ⟨fun t m => h t (.inl m), fun t m => h t (.inr m)⟩,
    fun h t m => m.elim (h.1 t) (h.2 t)⟩

/-- A clean token list is the list of its frames. -/
lemma Clean.eq_frames {ts : List (Token α)} (h : Clean ts) : ts = (frames ts).map .frame := by
  induction ts with
  | nil => rfl
  | cons t ts ih =>
    cases t with
    | skip a => exact absurd h (clean_skip a ts)
    | frame f => rw [frames_frame, List.map_cons, ← ih ((clean_frame f ts).mp h)]

lemma clean_map_frame (fs : List (List α)) : Clean (fs.map .frame) := by
  simp [Clean, Token.frame?]

namespace Scanner

/-- The scan of a list: its tokens and the unread suffix. -/
def scan (S : Scanner α) : List α → List (Token α) × List α
  | [] => ([], [])
  | a :: r =>
    match _h : S.verdict (a :: r) with
    | .wait => ([], a :: r)
    | .skip => (.skip a :: (S.scan r).1, (S.scan r).2)
    | .take n =>
      (.frame ((a :: r).take n) :: (S.scan ((a :: r).drop n)).1, (S.scan ((a :: r).drop n)).2)
termination_by r => r.length
decreasing_by
  · simp
  · have := S.take_pos _h
    simp only [List.length_drop, List.length_cons]
    omega

/-- A frame that is taken as such. -/
def Accepts (S : Scanner α) (f : List α) : Prop := S.verdict f = .take f.length

end Scanner

/-- Scanning as a relation: `r` is read as the tokens `ts` and waits at `rest`. -/
inductive Scans (S : Scanner α) : List α → List (Token α) → List α → Prop
  | wait {r} : S.verdict r = .wait → Scans S r [] r
  | skip {a r ts rest} : S.verdict (a :: r) = .skip → Scans S r ts rest →
    Scans S (a :: r) (.skip a :: ts) rest
  | take {r n ts rest} : S.verdict r = .take n → Scans S (r.drop n) ts rest →
    Scans S r (.frame (r.take n) :: ts) rest

/-- The positions at which the scan of `s` asks for a verdict. -/
inductive Visits (S : Scanner α) (s : List α) : Nat → Prop
  | start : Visits S s 0
  | skip {q} : Visits S s q → S.verdict (s.drop q) = .skip → Visits S s (q + 1)
  | take {q n} : Visits S s q → S.verdict (s.drop q) = .take n → Visits S s (q + n)

/-- Accepted frames that occur in `s` disjointly and in this order. -/
inductive Embedded (S : Scanner α) : List (List α) → List α → Prop
  | nil {s} : Embedded S [] s
  | cons {gap f fs s} : S.Accepts f → Embedded S fs s → Embedded S (f :: fs) (gap ++ f ++ s)

variable {S : Scanner α}

/-- The scan function computes the scan relation. -/
lemma scan_scans (S : Scanner α) (r : List α) : Scans S r (S.scan r).1 (S.scan r).2 := by
  induction r using Scanner.scan.induct S with
  | case1 =>
    rw [Scanner.scan]
    exact .wait S.verdict_nil
  | case2 a r h =>
    rw [Scanner.scan, h]
    exact .wait h
  | case3 a r h ih =>
    rw [Scanner.scan, h]
    exact .skip h ih
  | case4 a r n h ih =>
    rw [Scanner.scan, h]
    exact .take h ih

/-- The scan relation is deterministic. -/
lemma Scans.det {r ts us rest rest'} (h1 : Scans S r ts rest) (h2 : Scans S r us rest') :
    ts = us ∧ rest = rest' := by
  induction h1 generalizing us rest' with
  | wait h =>
    cases h2 with
    | wait _ => exact ⟨rfl, rfl⟩
    | skip h' _ => rw [h] at h'; cases h'
    | take h' _ => rw [h] at h'; cases h'
  | skip h _ ih =>
    cases h2 with
    | wait h' => rw [h] at h'; cases h'
    | skip _ hs =>
      obtain ⟨e1, e2⟩ := ih hs
      exact ⟨by rw [e1], e2⟩
    | take h' _ => rw [h] at h'; cases h'
  | take h _ ih =>
    cases h2 with
    | wait h' => rw [h] at h'; cases h'
    | skip h' _ => rw [h] at h'; cases h'
    | take h' hs =>
      rw [h] at h'
      cases h'
      obtain ⟨e1, e2⟩ := ih hs
      exact ⟨by rw [e1], e2⟩

/-- The scan relation is the graph of the scan function. -/
lemma Scans.scan_eq {r ts rest} (h : Scans S r ts rest) : S.scan r = (ts, rest) := by
  obtain ⟨e1, e2⟩ := h.det (scan_scans S r)
  exact Prod.ext e1.symm e2.symm

/-- Nothing is lost: the tokens and the unread suffix spell the input. -/
lemma Scans.spell {r ts rest} (h : Scans S r ts rest) : spell ts ++ rest = r := by
  induction h with
  | wait _ => rfl
  | skip _ _ ih => rw [spell_skip, List.cons_append, ih]
  | take _ _ ih => rw [spell_frame, List.append_assoc, ih, List.take_append_drop]

/-- A scan ends where it has to wait. -/
lemma Scans.rest_wait {r ts rest} (h : Scans S r ts rest) : S.verdict rest = .wait := by
  induction h with
  | wait h => exact h
  | skip _ _ ih => exact ih
  | take _ _ ih => exact ih

/-- Scanning is resumable from the unread suffix. -/
lemma Scans.append {r ts rest t us rest'} (h : Scans S r ts rest)
    (h' : Scans S (rest ++ t) us rest') : Scans S (r ++ t) (ts ++ us) rest' := by
  induction h with
  | wait _ => exact h'
  | @skip a r ts rest h _ ih =>
    have hv : S.verdict (a :: (r ++ t)) = .skip := by
      rw [← List.cons_append, S.stable t (by rw [h]; simp), h]
    exact .skip hv (ih h')
  | @take r n ts rest h _ ih =>
    have hle := S.take_le h
    have hv : S.verdict (r ++ t) = .take n := by
      rw [S.stable t (by rw [h]; simp), h]
    have hd : (r ++ t).drop n = r.drop n ++ t := List.drop_append_of_le_length hle
    have ht : (r ++ t).take n = r.take n := List.take_append_of_le_length hle
    rw [List.cons_append, ← ht]
    exact .take hv (hd ▸ ih h')

/-- An accepted frame is taken whatever follows it. -/
lemma Scanner.Accepts.verdict_append {f : List α} (h : S.Accepts f) (t : List α) :
    S.verdict (f ++ t) = .take f.length := by
  rw [S.stable t (by rw [h]; simp), h]

/-- Before the last symbol of an accepted frame there is nothing to take or skip. -/
lemma Scanner.Accepts.prefix_waits {p t : List α} (h : S.Accepts (p ++ t)) (ht : t ≠ []) :
    S.verdict p = .wait := by
  by_contra hp
  have hv : S.verdict p = .take (p ++ t).length := (S.stable t hp).symm.trans h
  have hle := S.take_le hv
  have hpos := List.length_pos_iff.mpr ht
  rw [List.length_append] at hle
  omega

/-- What a verdict takes is accepted. -/
lemma Scanner.accepts_take {r : List α} {n} (h : S.verdict r = .take n) :
    S.Accepts (r.take n) := by
  rw [Scanner.Accepts, S.take_self h, List.length_take, Nat.min_eq_left (S.take_le h)]

/-- Every frame of a scan is accepted. -/
lemma Scans.accepts {r ts rest} (h : Scans S r ts rest) : ∀ f ∈ frames ts, S.Accepts f := by
  induction h with
  | wait _ => simp
  | skip _ _ ih => exact ih
  | take h _ ih =>
    intro f hf
    rw [frames_frame, List.mem_cons] at hf
    cases hf with
    | inl e => exact e ▸ Scanner.accepts_take h
    | inr hf => exact ih f hf

/-- A scan that starts with an accepted frame takes it. -/
lemma Scans.frame {f r : List α} {ts rest} (hf : S.Accepts f) (h : Scans S r ts rest) :
    Scans S (f ++ r) (.frame f :: ts) rest := by
  have hd : (f ++ r).drop f.length = r := List.drop_left
  have hs := Scans.take (hf.verdict_append r) (hd ▸ h)
  rwa [List.take_left] at hs

/-- A scan that starts with accepted frames takes them all. -/
lemma Scans.frames_append {fs : List (List α)} {r ts rest} (hf : ∀ f ∈ fs, S.Accepts f)
    (h : Scans S r ts rest) : Scans S (fs.flatten ++ r) (fs.map .frame ++ ts) rest := by
  induction fs with
  | nil => exact h
  | cons f fs ih =>
    rw [List.flatten_cons, List.append_assoc]
    exact .frame (hf f (by simp)) (ih fun g hg => hf g (by simp [hg]))

/-- A stream of accepted frames of which the part `p` has been scanned: the tokens are the first of the
frames, and the rest is spelled by the others. -/
lemma Scans.of_flatMap {β : Type*} {f : β → List α} {xs : List β} {p q : List α} {ts rest}
    (hf : ∀ x ∈ xs, S.Accepts (f x)) (e : p ++ q = xs.flatMap f) (h : Scans S p ts rest) :
    ∃ ys zs, xs = ys ++ zs ∧ ts = (ys.map f).map .frame ∧ rest ++ q = zs.flatMap f := by
  have hf : ∀ g ∈ xs.map f, S.Accepts g := by
    intro g hg
    obtain ⟨x, hx, e⟩ := List.mem_map.mp hg
    exact e ▸ hf x hx
  have hall := Scans.frames_append hf (.wait S.verdict_nil)
  have hgo := h.append (scan_scans S (rest ++ q))
  rw [e, List.flatMap] at hgo
  rw [List.append_nil, List.append_nil] at hall
  obtain ⟨e1, e2⟩ := hgo.det hall
  obtain ⟨before, after, e3, e4, e5⟩ := List.map_eq_append_iff.mp e1.symm
  obtain ⟨ys, zs, e6, e7, e8⟩ := List.map_eq_append_iff.mp e3
  subst e6; subst e7; subst e8
  refine ⟨ys, zs, rfl, e4.symm, ?_⟩
  rw [← (scan_scans S (rest ++ q)).spell, e2, ← e5, spell_map_frame, List.append_nil, List.flatMap]

/-- The positions after a skipped symbol are positions of the whole. -/
lemma Visits.after_skip {a : α} {r q} (h : S.verdict (a :: r) = .skip) (hq : Visits S r q) :
    Visits S (a :: r) (q + 1) := by
  induction hq with
  | start => exact .skip .start h
  | skip _ hv ih => exact .skip ih hv
  | @take q n _ hv ih =>
    have e : q + n + 1 = q + 1 + n := by omega
    rw [e]
    exact .take ih hv

/-- The positions after a frame are positions of the whole. -/
lemma Visits.after_take {r : List α} {n q} (h : S.verdict r = .take n) (hq : Visits S (r.drop n) q) :
    Visits S r (q + n) := by
  induction hq with
  | start => exact .take .start h
  | @skip q _ hv ih =>
    have e : q + 1 + n = q + n + 1 := by omega
    rw [e]
    exact .skip ih (by rwa [List.drop_drop, Nat.add_comm] at hv)
  | @take q m _ hv ih =>
    have e : q + m + n = q + n + m := by omega
    rw [e]
    exact .take ih (by rwa [List.drop_drop, Nat.add_comm] at hv)

/-- A scan reads up to each of its positions, and goes on from there. -/
lemma Visits.tokens {s : List α} {q} (hq : Visits S s q) {ts rest} (h : Scans S s ts rest) :
    ∃ us vs, ts = us ++ vs ∧ (Scan.spell us).length = q ∧ Scans S (s.drop q) vs rest := by
  induction hq with
  | start => exact ⟨[], ts, rfl, rfl, h⟩
  | @skip q _ hv ih =>
    obtain ⟨us, vs, e, hl, hs⟩ := ih
    generalize hd : s.drop q = r at hv hs
    cases hs with
    | wait hv' => exact absurd (hv.symm.trans hv') (by simp)
    | take hv' _ => exact absurd (hv.symm.trans hv') (by simp)
    | @skip a r vs _ _ hs =>
      refine ⟨us ++ [.skip a], vs, by simp [e], by simp [hl], ?_⟩
      rw [← List.drop_drop, hd, List.drop_one]
      exact hs
  | @take q n _ hv ih =>
    obtain ⟨us, vs, e, hl, hs⟩ := ih
    generalize hd : s.drop q = r at hv hs
    cases hs with
    | wait hv' => exact absurd (hv.symm.trans hv') (by simp)
    | skip hv' _ => exact absurd (hv.symm.trans hv') (by simp)
    | @take _ m vs _ hv' hs =>
      have hm : m = n := by
        rw [hv] at hv'
        cases hv'
        rfl
      subst hm
      have hle := S.take_le hv
      refine ⟨us ++ [.frame (r.take m)], vs, by simp [e], by simp [hl, hle], ?_⟩
      rw [← List.drop_drop, hd]
      exact hs

/-- A scan that has to wait at one of its positions ends there. -/
lemma Visits.ends {s : List α} {q} (hq : Visits S s q) (hw : S.verdict (s.drop q) = .wait) {ts rest}
    (h : Scans S s ts rest) : (Scan.spell ts).length = q := by
  obtain ⟨us, vs, e, hl, hs⟩ := hq.tokens h
  obtain ⟨e', -⟩ := hs.det (.wait hw)
  rw [e, e', List.append_nil, hl]

/-- A scan goes through the border between `p` and `t` if it does not wait before it and takes no frame
across it. -/
lemma Scans.split {p t : List α} {ts rest} (h : Scans S (p ++ t) ts rest)
    (hw : ∀ q < p.length, Visits S (p ++ t) q → S.verdict ((p ++ t).drop q) ≠ .wait)
    (hc : ∀ q < p.length, ∀ n, S.verdict ((p ++ t).drop q) = .take n → q + n ≤ p.length) :
    ∃ us vs, ts = us ++ vs ∧ Scan.spell us = p ∧ Scans S t vs rest := by
  generalize e : p ++ t = s at h hw hc
  induction h generalizing p with
  | @wait r hv =>
    cases p with
    | nil =>
      subst e
      exact ⟨[], [], rfl, rfl, .wait hv⟩
    | cons b p => exact absurd hv (hw 0 (by simp) .start)
  | @skip a r ts rest hv h ih =>
    cases p with
    | nil =>
      rw [List.nil_append] at e
      subst e
      exact ⟨[], _, rfl, rfl, .skip hv h⟩
    | cons b p =>
      rw [List.cons_append] at e
      injection e with e1 e2
      subst e1
      obtain ⟨us, vs, e', hsp, hs⟩ := ih e2
        (fun q hq hvis => hw (q + 1) (by simpa using hq) (.after_skip hv hvis))
        (fun q hq n hn => by
          have hle := hc (q + 1) (by simpa using hq) n hn
          rw [List.length_cons] at hle
          omega)
      exact ⟨.skip b :: us, vs, by rw [e', List.cons_append], by rw [spell_skip, hsp], hs⟩
  | @take r n ts rest hv h ih =>
    cases p with
    | nil =>
      rw [List.nil_append] at e
      subst e
      exact ⟨[], _, rfl, rfl, .take hv h⟩
    | cons b p =>
      have hn : n ≤ (b :: p).length := by simpa using hc 0 (by simp) n hv
      generalize b :: p = p at e hn hw hc
      subst e
      rw [List.drop_append_of_le_length hn] at ih
      obtain ⟨us, vs, e', hsp, hs⟩ := ih rfl
        (fun q hq hvis => by
          rw [List.length_drop] at hq
          rw [← List.drop_append_of_le_length hn] at hvis ⊢
          rw [List.drop_drop, Nat.add_comm]
          exact hw (q + n) (by omega) (.after_take hv hvis))
        (fun q hq m hm => by
          rw [List.length_drop] at hq ⊢
          rw [← List.drop_append_of_le_length hn, List.drop_drop, Nat.add_comm] at hm
          have hle := hc (q + n) (by omega) m hm
          omega)
      refine ⟨.frame (p.take n) :: us, vs, ?_, ?_, hs⟩
      · rw [e', List.cons_append, List.take_append_of_le_length hn]
      · rw [spell_frame, hsp, List.take_append_drop]

/-- The frames of a scan occur in what it has read. -/
lemma Embedded.of_tokens {ts : List (Token α)} (h : ∀ f ∈ frames ts, S.Accepts f) (t : List α) :
    Embedded S (frames ts) (Scan.spell ts ++ t) := by
  -- skipped symbols pile up in front of the first frame
  suffices ∀ gap, Embedded S (frames ts) (gap ++ (Scan.spell ts ++ t)) from this []
  induction ts with
  | nil => exact fun _ => .nil
  | cons u ts ih =>
    intro gap
    cases u with
    | skip a => simpa using ih h (gap ++ [a])
    | frame f =>
      have hs := ih (fun g hg => h g (by simp [hg])) []
      rw [frames_frame, spell_frame, List.append_assoc, ← List.append_assoc gap]
      exact .cons (h f (by simp)) hs

/-- What comes before does not matter. -/
lemma Embedded.append_left {fs : List (List α)} {s : List α} (h : Embedded S fs s) (t : List α) :
    Embedded S fs (t ++ s) := by
  cases h with
  | nil => exact .nil
  | @cons gap f fs s hf hs =>
    rw [← List.append_assoc, ← List.append_assoc]
    exact .cons hf hs

/-- Some of the frames, in the same order. -/
lemma Embedded.sublist {fs gs : List (List α)} {s : List α} (h : Embedded S fs s)
    (hs : gs.Sublist fs) : Embedded S gs s := by
  induction h generalizing gs with
  | nil =>
    cases hs
    exact .nil
  | cons hf _ ih =>
    cases hs with
    | cons _ hs => exact (ih hs).append_left _
    | cons_cons _ hs => exact .cons hf (ih hs)

end Scan
