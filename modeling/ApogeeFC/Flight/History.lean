import ApogeeFC.Lib.Streak
import ApogeeFC.Flight.Vehicle
import Mathlib.Data.List.Chain

/-!
# The fault manager as a function of its history

`FaultManager` keeps a flag, a streak and a mask. `fault_manager_meets_history` says what they are in
terms of the reports alone, for a manager that starts with either flag and any masks. The streak is
left as it is when health is confirmed, so it means something only while the manager is faulted;
`Tracks` is the invariant that says so.
-/

namespace ApogeeFC.Flight

open Streak

namespace FaultManager

/-- The manager after a sequence of reports. -/
def after (initiallyFaulted : Bool) (reports : List HealthReport) : FaultManager :=
  reports.foldl (fun manager report => (manager.update report).1) { faulted := initiallyFaulted }

/-- What the call of `update` returns that follows a sequence of reports. -/
def returned (initiallyFaulted : Bool) (before : List HealthReport) (report : HealthReport) :
    Option FlightEvent :=
  ((after initiallyFaulted before).update report).2

/-- The events returned over a sequence of reports, in order. -/
def events (manager : FaultManager) : List HealthReport → List FlightEvent
  | [] => []
  | report :: reports =>
    (manager.update report).2.toList ++ events (manager.update report).1 reports

lemma after_snoc (initiallyFaulted : Bool) (reports : List HealthReport) (report : HealthReport) :
    after initiallyFaulted (reports ++ [report]) =
      ((after initiallyFaulted reports).update report).1 := by
  simp [after]

end FaultManager

/-- A report as the history sees it. -/
structure Sample where
  healthy : Bool
  faultMask : UInt8
  deriving DecidableEq, Repr

/-- The reports, after one unhealthy sample without a fault bit for `FaultManager{true}`. -/
def history (initiallyFaulted : Bool) (reports : List HealthReport) : List Sample :=
  (if initiallyFaulted then [⟨false, 0⟩] else []) ++
    reports.map fun report => ⟨report.healthy, report.faultMask⟩

/-- The last unhealthy sample is followed by `n` healthy ones. -/
abbrev Recovering (initiallyFaulted : Bool) (reports : List HealthReport) (n : ℕ) : Prop :=
  Trails (fun sample => ¬ sample.healthy) (history initiallyFaulted reports) n

lemma history_snoc (initiallyFaulted : Bool) (reports : List HealthReport) (report : HealthReport) :
    history initiallyFaulted (reports ++ [report]) =
      history initiallyFaulted reports ++ [⟨report.healthy, report.faultMask⟩] := by
  simp [history]

lemma recovering_unhealthy {initiallyFaulted reports report n} (hr : ¬ report.healthy) :
    Recovering initiallyFaulted (reports ++ [report]) n ↔ n = 0 := by
  rw [Recovering, history_snoc]
  exact trails_snoc_marked hr

lemma recovering_healthy {initiallyFaulted reports report n} (hr : report.healthy) :
    Recovering initiallyFaulted (reports ++ [report]) (n + 1) ↔
      Recovering initiallyFaulted reports n := by
  rw [Recovering, history_snoc]
  exact trails_snoc_succ (not_not.mpr hr)

lemma not_recovering_zero {initiallyFaulted reports report} (hr : report.healthy) :
    ¬ Recovering initiallyFaulted (reports ++ [report]) 0 := by
  rw [Recovering, history_snoc]
  exact not_trails_snoc_zero (not_not.mpr hr)

/-- The flag and the streak against the history. -/
structure Tracks (initiallyFaulted : Bool) (reports : List HealthReport)
    (manager : FaultManager) : Prop where
  short : manager.faulted → manager.healthyStreak.toNat < 3
  counts : manager.faulted →
    Recovering initiallyFaulted reports manager.healthyStreak.toNat
  settled : ¬ manager.faulted → ∀ n, Recovering initiallyFaulted reports n → 3 ≤ n

namespace Tracks

variable {initiallyFaulted : Bool} {reports : List HealthReport} {manager : FaultManager}

lemma streak (h : Tracks initiallyFaulted reports manager) (hf : manager.faulted) :
    manager.healthyStreak < FaultManager.requiredHealthySamples :=
  UInt8.lt_iff_toNat_lt.mpr (h.short hf)

lemma initial : Tracks initiallyFaulted [] { faulted := initiallyFaulted } := by
  have hzero : (0 : UInt8).toNat < 3 := by decide
  refine ⟨fun _ => hzero, fun hf => ?_, fun hf n hn => ?_⟩
  · change initiallyFaulted = true at hf
    exact ⟨[], ⟨false, 0⟩, [], by simp [history, hf], by simp, by simp, rfl⟩
  · change ¬ initiallyFaulted = true at hf
    have hnil : history initiallyFaulted [] = [] := by simp [history, hf]
    rw [Recovering, hnil] at hn
    exact absurd hn not_trails_nil

/-- Every update keeps the flag and the streak in step with the history. -/
lemma updates {report manager' event} (h : Tracks initiallyFaulted reports manager)
    (hu : Updates manager report manager' event) :
    Tracks initiallyFaulted (reports ++ [report]) manager' := by
  have hzero : (0 : UInt8).toNat < 3 := by decide
  cases hu with
  | detect hr _ =>
    exact ⟨fun _ => hzero, fun _ => (recovering_unhealthy hr).mpr rfl, by simp⟩
  | persist hr _ =>
    exact ⟨fun _ => hzero, fun _ => (recovering_unhealthy hr).mpr rfl, by simp⟩
  | quiet hr hf =>
    refine ⟨fun hf' => absurd hf' hf, fun hf' => absurd hf' hf, fun _ n hn => ?_⟩
    obtain _ | n := n
    · exact absurd hn (not_recovering_zero hr)
    have := h.settled hf n ((recovering_healthy hr).mp hn)
    omega
  | progress hr hf hlt =>
    have hs := toNat_streak_succ hlt
    refine ⟨fun _ => by rw [hs]; exact hlt, fun _ => ?_, fun hf' => absurd hf hf'⟩
    rw [hs]
    exact (recovering_healthy hr).mpr (h.counts hf)
  | confirm hr hf hthree =>
    refine ⟨by simp, by simp, fun _ n hn => ?_⟩
    -- a history has one streak only, and it is now three long
    have h3 := (recovering_healthy hr).mpr (h.counts hf)
    rw [hthree] at h3
    exact (hn.unique h3).ge

/-- The flag is up exactly while the last unhealthy sample is followed by less than three. -/
lemma faulted_iff (h : Tracks initiallyFaulted reports manager) :
    manager.faulted ↔ ∃ n < 3, Recovering initiallyFaulted reports n := by
  constructor
  · exact fun hf => ⟨_, h.short hf, h.counts hf⟩
  · rintro ⟨n, hn, hr⟩
    by_contra hf
    have := h.settled hf n hr
    omega

end Tracks

/-- The invariant over a whole sequence of reports. -/
lemma tracks_after (initiallyFaulted : Bool) (reports : List HealthReport) :
    Tracks initiallyFaulted reports (FaultManager.after initiallyFaulted reports) := by
  induction reports using List.reverseRecOn with
  | nil => exact Tracks.initial
  | append_singleton reports report ih =>
    rw [FaultManager.after_snoc]
    exact ih.updates (update_cases ih.streak report)

/-- An unhealthy report raises the flag exactly where it is down. -/
lemma returned_detected_iff {initiallyFaulted before report} :
    FaultManager.returned initiallyFaulted before report = some .faultDetected ↔
      ¬ report.healthy ∧ ¬ (FaultManager.after initiallyFaulted before).faulted := by
  have hu := update_cases (tracks_after initiallyFaulted before).streak report
  rw [FaultManager.returned]
  generalize (FaultManager.after initiallyFaulted before).update report = result at hu
  obtain ⟨manager', event⟩ := result
  cases hu with
  | detect hr hf => simp [hr, hf]
  | persist hr hf => simp [hf]
  | quiet hr hf => simp [hr]
  | progress hr hf _ => simp [hr]
  | confirm hr hf _ => simp [hr]

/-- Health is confirmed exactly by the third healthy sample in a row. -/
lemma returned_confirmed_iff {initiallyFaulted before report} :
    FaultManager.returned initiallyFaulted before report = some .healthConfirmed ↔
      (FaultManager.after initiallyFaulted before).faulted ∧
        Recovering initiallyFaulted (before ++ [report]) 3 := by
  have ht := tracks_after initiallyFaulted before
  have hu := update_cases ht.streak report
  rw [FaultManager.returned]
  generalize (FaultManager.after initiallyFaulted before).update report = result at hu
  obtain ⟨manager', event⟩ := result
  cases hu with
  | detect hr hf => simp [hf]
  | persist hr hf => simp [recovering_unhealthy hr]
  | quiet hr hf => simp [hf]
  | progress hr hf hlt =>
    simp only [reduceCtorEq, false_iff, not_and]
    intro _ h3
    have := (ht.counts hf).unique ((recovering_healthy hr).mp h3)
    omega
  | confirm hr hf hthree =>
    simp only [true_iff]
    refine ⟨hf, (recovering_healthy hr).mpr ?_⟩
    have hc := ht.counts hf
    rwa [Nat.succ_injective hthree] at hc

/-- The fault manager returns no other event. -/
lemma returned_cases (initiallyFaulted : Bool) (before : List HealthReport)
    (report : HealthReport) :
    FaultManager.returned initiallyFaulted before report = none ∨
      FaultManager.returned initiallyFaulted before report = some .faultDetected ∨
      FaultManager.returned initiallyFaulted before report = some .healthConfirmed := by
  have hu := update_cases (tracks_after initiallyFaulted before).streak report
  rw [FaultManager.returned]
  generalize (FaultManager.after initiallyFaulted before).update report = result at hu
  obtain ⟨manager', event⟩ := result
  cases hu <;> simp

/-- The event that the manager returns next, if any. -/
def FaultManager.next (manager : FaultManager) : FlightEvent :=
  if manager.faulted then .healthConfirmed else .faultDetected

/-- The two events take turns. -/
lemma events_alternate {initiallyFaulted before manager} (h : Tracks initiallyFaulted before manager)
    (reports : List HealthReport) :
    (manager.events reports).IsChain (· ≠ ·) ∧
      ∀ event ∈ (manager.events reports).head?, event = manager.next := by
  induction reports generalizing before manager with
  | nil => simp [FaultManager.events]
  | cons report reports ih =>
    have hu := update_cases h.streak report
    rw [FaultManager.events]
    generalize manager.update report = result at hu
    obtain ⟨manager', event⟩ := result
    obtain ⟨hchain, hhead⟩ := ih (h.updates hu)
    cases hu with
    | detect hr hf =>
      refine ⟨hchain.cons fun next hnext => ?_, by simp [FaultManager.next, hf]⟩
      rw [hhead next hnext]
      simp [FaultManager.next]
    | persist hr hf => exact ⟨hchain, by simpa [FaultManager.next, hf] using hhead⟩
    | quiet hr hf => exact ⟨hchain, hhead⟩
    | progress hr hf _ => exact ⟨hchain, by simpa [FaultManager.next, hf] using hhead⟩
    | confirm hr hf _ =>
      refine ⟨hchain.cons fun next hnext => ?_, by simp [FaultManager.next, hf]⟩
      rw [hhead next hnext]
      simp [FaultManager.next]

/-- The bitwise or of all masks. -/
def allFaults (reports : List HealthReport) : UInt8 :=
  reports.foldl (fun mask report => mask ||| report.faultMask) 0

@[simp] lemma allFaults_nil : allFaults [] = 0 := rfl

@[simp] lemma allFaults_snoc (reports : List HealthReport) (report : HealthReport) :
    allFaults (reports ++ [report]) = allFaults reports ||| report.faultMask := by
  simp [allFaults]

/-- `before` is empty or ends where health was confirmed, and health is not confirmed in `since`. -/
structure SinceConfirmed (initiallyFaulted : Bool) (before since : List HealthReport) : Prop where
  confirmed : before ≠ [] → ∃ past report, before = past ++ [report] ∧
    FaultManager.returned initiallyFaulted past report = some .healthConfirmed
  unconfirmed : ∀ past report rest, since = past ++ report :: rest →
    FaultManager.returned initiallyFaulted (before ++ past) report ≠ some .healthConfirmed

/-- Each report either confirms health or extends the time since. -/
lemma SinceConfirmed.snoc {initiallyFaulted before since report}
    (h : SinceConfirmed initiallyFaulted before since)
    (hr : FaultManager.returned initiallyFaulted (before ++ since) report ≠
      some .healthConfirmed) :
    SinceConfirmed initiallyFaulted before (since ++ [report]) := by
  refine ⟨h.confirmed, fun past report' rest e => ?_⟩
  obtain er | ⟨rest', last, er⟩ := List.eq_nil_or_concat' rest
  · subst er
    obtain ⟨e1, e2⟩ := List.append_inj' e rfl
    cases e2
    rw [← e1]
    exact hr
  · subst er
    rw [← List.cons_append, ← List.append_assoc] at e
    exact h.unconfirmed past report' rest' (List.append_inj' e rfl).1

/-- The mask collects the reports since health was last confirmed. -/
lemma latched_since (initiallyFaulted : Bool) (reports : List HealthReport) :
    ∃ before since, reports = before ++ since ∧ SinceConfirmed initiallyFaulted before since ∧
      (FaultManager.after initiallyFaulted reports).latchedFaultMask = allFaults since := by
  induction reports using List.reverseRecOn with
  | nil => exact ⟨[], [], rfl, ⟨by simp, by simp⟩, rfl⟩
  | append_singleton reports report ih =>
    obtain ⟨before, since, e, hs, hmask⟩ := ih
    have hu := update_cases (tracks_after initiallyFaulted reports).streak report
    have hret : FaultManager.returned initiallyFaulted (before ++ since) report =
        ((FaultManager.after initiallyFaulted reports).update report).2 := by
      rw [← e, FaultManager.returned]
    rw [FaultManager.after_snoc]
    generalize (FaultManager.after initiallyFaulted reports).update report = result at hu hret
    obtain ⟨manager', event⟩ := result
    have hor : report.healthy → allFaults (since ++ [report]) = allFaults since := by
      intro hr
      rw [allFaults_snoc, HealthReport.faultMask, of_decide_eq_true hr, UInt8.or_zero]
    have e' : reports ++ [report] = before ++ (since ++ [report]) := by
      rw [e, List.append_assoc]
    cases hu with
    | detect hr hf =>
      exact ⟨before, _, e', hs.snoc (by rw [hret]; simp), by rw [allFaults_snoc, ← hmask]⟩
    | persist hr hf =>
      exact ⟨before, _, e', hs.snoc (by rw [hret]; simp), by rw [allFaults_snoc, ← hmask]⟩
    | quiet hr hf =>
      exact ⟨before, _, e', hs.snoc (by rw [hret]; simp), hmask.trans (hor hr).symm⟩
    | progress hr hf _ =>
      exact ⟨before, _, e', hs.snoc (by rw [hret]; simp), hmask.trans (hor hr).symm⟩
    | confirm hr hf _ =>
      -- the mask is cleared, and counts from the next report on
      refine ⟨reports ++ [report], [], by simp, ⟨fun _ => ⟨reports, report, rfl, ?_⟩, by simp⟩, rfl⟩
      rw [e]
      exact hret

/-- Nothing is latched while the manager is not faulted. -/
lemma latched_clear (initiallyFaulted : Bool) (reports : List HealthReport) :
    ¬ (FaultManager.after initiallyFaulted reports).faulted →
      (FaultManager.after initiallyFaulted reports).latchedFaultMask = 0 := by
  induction reports using List.reverseRecOn with
  | nil => exact fun _ => rfl
  | append_singleton reports report ih =>
    have hu := update_cases (tracks_after initiallyFaulted reports).streak report
    rw [FaultManager.after_snoc]
    generalize (FaultManager.after initiallyFaulted reports).update report = result at hu
    obtain ⟨manager', event⟩ := result
    cases hu with
    | detect _ _ => simp
    | persist _ _ => simp
    | quiet _ _ => exact ih
    | progress _ hf _ => exact fun h => absurd hf h
    | confirm _ _ _ => exact fun _ => rfl

/-- After any reports, from either initial flag: the flag is up exactly while the last unhealthy report
is followed by less than three; the next report is answered with `FaultDetected` exactly if it is
unhealthy and the flag is down, with `HealthConfirmed` exactly if the flag is up and it is the third
healthy one after the last unhealthy one, and with nothing else; the two events take turns; and the
latched faults are those of all reports since health was last confirmed while the flag is up, and none
while it is down. -/
theorem fault_manager_meets_history (initiallyFaulted : Bool) (reports : List HealthReport) :
    ((FaultManager.after initiallyFaulted reports).faulted ↔
      ∃ n < 3, Recovering initiallyFaulted reports n) ∧
    (∀ report,
      (FaultManager.returned initiallyFaulted reports report = some .faultDetected ↔
        ¬ report.healthy ∧ ¬ (FaultManager.after initiallyFaulted reports).faulted) ∧
      (FaultManager.returned initiallyFaulted reports report = some .healthConfirmed ↔
        (FaultManager.after initiallyFaulted reports).faulted ∧
          Recovering initiallyFaulted (reports ++ [report]) 3) ∧
      (FaultManager.returned initiallyFaulted reports report = none ∨
        FaultManager.returned initiallyFaulted reports report = some .faultDetected ∨
        FaultManager.returned initiallyFaulted reports report = some .healthConfirmed)) ∧
    (FaultManager.events { faulted := initiallyFaulted } reports).IsChain (· ≠ ·) ∧
    ∃ before since, reports = before ++ since ∧ SinceConfirmed initiallyFaulted before since ∧
      (FaultManager.after initiallyFaulted reports).latchedFaults.faultMask =
        if (FaultManager.after initiallyFaulted reports).faulted then allFaults since else 0 := by
  refine ⟨(tracks_after _ _).faulted_iff, fun report => ⟨returned_detected_iff,
    returned_confirmed_iff, returned_cases _ _ _⟩, (events_alternate Tracks.initial reports).1, ?_⟩
  obtain ⟨before, since, e, hs, hmask⟩ := latched_since initiallyFaulted reports
  refine ⟨before, since, e, hs, ?_⟩
  rw [FaultManager.latchedFaults, HealthReport.faultMask]
  split
  case isTrue _ => exact hmask
  case isFalse hf => exact latched_clear initiallyFaulted reports hf

end ApogeeFC.Flight
