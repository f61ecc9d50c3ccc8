import ApogeeFC.Flight.Deadline

/-!
# The catch-up loop

After a telemetry cycle the deadline is moved on by whole periods until it is past `now`. `NextSlot` says
where it should get to: the first of the times that are one or more periods after the old deadline and
later than `now`. The loop gets there whatever the delay, as the period is never zero.

The source adds in `std::int64_t`, where an overflow would be undefined. `catchUpInt64` is the loop with
additions that fail if they leave the range; the times of the clock leave enough room that none does
(`catchUp_keeps_phase`).
-/

namespace ApogeeFC.Flight
open Mealy

/-- The sum of two `std::int64_t`, if it is one. -/
def addInt64 (a b : Int) : Option Int := if -2 ^ 63 ≤ a + b ∧ a + b < 2 ^ 63 then some (a + b) else none

/-- The loop, with checked additions. -/
def FlightComputer.catchUpInt64 (period now : Int) : Nat → Int → Option Int
  | 0, _ => none
  | rounds + 1, deadline => do
    let deadline ← addInt64 deadline period
    if deadline ≤ now then catchUpInt64 period now rounds deadline else some deadline

/-- `time` is the first after `now` of those that are one or more periods after the deadline. -/
structure NextSlot (period now deadline time : Int) : Prop where
  late : now < time
  soon : time ≤ now + period
  phase : ∃ k : Nat, 0 < k ∧ time = deadline + k * period
  first : ∀ k : Nat, 0 < k → now < deadline + k * period → time ≤ deadline + k * period

/-- The last round. -/
lemma NextSlot.last {period now deadline : Int} (hp : 0 < period) (hd : deadline ≤ now)
    (hlt : now < deadline + period) : NextSlot period now deadline (deadline + period) where
  late := hlt
  soon := by omega
  phase := ⟨1, Nat.one_pos, by simp⟩
  first := by
    intro k hk _
    have hone : (1 : Int) ≤ k := by exact_mod_cast hk
    have hle := Int.mul_le_mul_of_nonneg_right hone (Int.le_of_lt hp)
    omega

/-- A round that is not the last. -/
lemma NextSlot.round {period now deadline time : Int} (hle : deadline + period ≤ now)
    (h : NextSlot period now (deadline + period) time) : NextSlot period now deadline time where
  late := h.late
  soon := h.soon
  phase := by
    obtain ⟨k, hk, e⟩ := h.phase
    refine ⟨k + 1, Nat.succ_pos k, ?_⟩
    rw [e]
    push_cast
    ring
  first := by
    intro k hk hlt
    obtain ⟨k, e⟩ := Nat.exists_eq_succ_of_ne_zero (Nat.ne_of_gt hk)
    subst e
    have hshift : deadline + ((k.succ : Nat) : Int) * period = deadline + period + k * period := by
      push_cast
      ring
    rw [hshift] at hlt ⊢
    cases k with
    | zero =>
      simp at hlt
      omega
    | succ k => exact h.first _ (Nat.succ_pos k) hlt

/-- The loop ends after at most as many rounds as the deadline is behind, no addition overflows, and the
deadline is in the next slot. -/
lemma catchUpInt64_nextSlot {period now : Int} (hp : 0 < period) (hmax : now + period < 2 ^ 63)
    {rounds : Nat} {deadline : Int} (hmin : -2 ^ 63 ≤ deadline) (hd : deadline ≤ now)
    (hr : (now - deadline).toNat < rounds) :
    ∃ time, FlightComputer.catchUpInt64 period now rounds deadline = some time ∧
      NextSlot period now deadline time := by
  induction rounds generalizing deadline with
  | zero => exact absurd hr (Nat.not_lt_zero _)
  | succ rounds ih =>
    have hadd : addInt64 deadline period = some (deadline + period) := if_pos (by omega)
    rw [FlightComputer.catchUpInt64, hadd, Option.bind_eq_bind, Option.bind_some]
    split
    case isTrue hle =>
      obtain ⟨time, hloop, hslot⟩ := ih (by omega) hle (by omega)
      exact ⟨time, hloop, hslot.round hle⟩
    case isFalse hlt => exact ⟨_, rfl, .last hp hd (Int.not_le.mp hlt)⟩

/-- Where no addition overflows, checking them changes nothing. -/
lemma catchUp_of_int64 {period now : Int} {rounds : Nat} {deadline time : Int}
    (h : FlightComputer.catchUpInt64 period now rounds deadline = some time) :
    FlightComputer.catchUp period now rounds deadline = some time := by
  induction rounds generalizing deadline with
  | zero => cases h
  | succ rounds ih =>
    obtain ⟨sum, hadd, h⟩ := Option.bind_eq_some_iff.mp h
    rw [addInt64] at hadd
    split at hadd
    case isFalse => cases hadd
    case isTrue =>
      cases hadd
      rw [FlightComputer.catchUp]
      split at h
      case isTrue hle =>
        rw [if_pos hle]
        exact ih h
      case isFalse hlt =>
        rw [if_neg hlt]
        exact h

/-- In every state that the flight loop reaches, whatever commands it has processed, the period is
between 250 and 10000, and so the catch-up loop ends from every deadline that is not past `now`: no
addition overflows, and the new deadline is the first after `now` that keeps the phase. -/
theorem catchUp_keeps_phase (ready : Bool) (uptime : Int) (steps : List FlightStep) :
    ∃ computer frames, run (FlightComputer.step ready) (.boot uptime) steps = some (computer, frames) ∧
      250 ≤ computer.configuration.telemetryPeriodMs.toNat ∧
      computer.configuration.telemetryPeriodMs.toNat ≤ 10000 ∧
      ∀ now deadline : Int, -2 ^ 63 ≤ deadline → deadline ≤ now → now + 10000 < 2 ^ 63 →
        ∃ time, FlightComputer.catchUpInt64 computer.configuration.telemetryPeriodMs.toNat now
            ((now - deadline).toNat + 1) deadline = some time ∧
          FlightComputer.catchUp computer.configuration.telemetryPeriodMs.toNat now
            ((now - deadline).toNat + 1) deadline = some time ∧
          NextSlot computer.configuration.telemetryPeriodMs.toNat now deadline time := by
  obtain ⟨computer, frames, hrun, hinv⟩ := run_boot ready uptime steps
  have hmin := UInt32.le_iff_toNat_le.mp hinv.period.1
  have hmax := UInt32.le_iff_toNat_le.mp hinv.period.2
  change 250 ≤ _ at hmin
  change _ ≤ 10000 at hmax
  refine ⟨computer, frames, hrun, hmin, hmax, ?_⟩
  generalize computer.configuration.telemetryPeriodMs.toNat = period at hmin hmax ⊢
  intro now deadline hlow hd hhigh
  have hp : (0 : Int) < period := by omega
  have hroom : now + period < 2 ^ 63 := by omega
  obtain ⟨time, hloop, hslot⟩ :=
    catchUpInt64_nextSlot hp hroom hlow hd (Nat.lt_succ_self (now - deadline).toNat)
  exact ⟨time, hloop, catchUp_of_int64 hloop, hslot⟩

/-- The first cycle comes four and a half seconds late. -/
theorem catchUp_keeps_phase_late :
    ∃ computer frames time, run (FlightComputer.step true) (.boot 0) [] = some (computer, frames) ∧
      FlightComputer.catchUpInt64 computer.configuration.telemetryPeriodMs.toNat 5500 4501 1000 =
        some time ∧
      NextSlot computer.configuration.telemetryPeriodMs.toNat 5500 1000 time :=
  have ⟨computer, frames, hrun, _, _, h⟩ := catchUp_keeps_phase true 0 []
  have ⟨time, hloop, _, hslot⟩ := h 5500 1000 (by decide) (by decide) (by decide)
  ⟨computer, frames, time, hrun, hloop, hslot⟩

end ApogeeFC.Flight
