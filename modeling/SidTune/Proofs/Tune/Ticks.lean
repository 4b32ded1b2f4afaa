import SidTune.Proofs.Rounding
import SidTune.Tune.Basic

/-!
# Ticks in exact arithmetic

At fifty ticks a second a beat takes 3000 ticks divided by the beats per minute, and a step takes
its part of a beat. Both quotients are rounded to the nearest whole number, a half upwards, and
raised to one where they vanish, so that the ticks of a step are rounded twice. Rounding keeps
order, so a faster tempo or a shorter note value never takes more ticks; and the first rounding is
off by a half at most, which counts for a step by its part of a beat only.

## Main definitions

* `SidTune.exactTicks`: the ticks of a step before any rounding.
* `SidTune.Counted`: what the ticks at a tempo are.

## Main results

* `SidTune.antitone_beatTicks`, `SidTune.antitone_stepTicks`: a faster tempo takes no more ticks.
* `SidTune.stepTicks_le_stepTicks`: a shorter note value takes no more ticks.
* `SidTune.abs_stepTicks_sub_le`: how far the ticks of a step are off.
* `SidTune.ticks_counted`: all of it, for every tempo.
-/

namespace SidTune

/-! ### Order -/

/-- A faster tempo takes no more ticks for a beat. -/
theorem antitone_beatTicks : Antitone beatTicks := by
  intro bpm bpm' hfaster
  have hquotient := roundedQuotient_anti_right (ticksPerSecond * 60) (b := max bpm 1)
    (c := max bpm' 1) (by omega) (by omega)
  exact max_le_max_left 1 hquotient

/-- A faster tempo takes no more ticks for a step. -/
theorem antitone_stepTicks (length : NoteValue) : Antitone fun bpm => stepTicks bpm length := by
  intro bpm bpm' hfaster
  have hquotient := roundedQuotient_mono_left length.perBeat (antitone_beatTicks hfaster)
  exact max_le_max_left 1 hquotient

theorem NoteValue.perBeat_pos (length : NoteValue) : 0 < length.perBeat := by
  cases length <;> decide

/-- A shorter note value takes no more ticks. -/
theorem stepTicks_le_stepTicks (bpm : ℕ) {shorter longer : NoteValue}
    (h : longer.perBeat ≤ shorter.perBeat) : stepTicks bpm shorter ≤ stepTicks bpm longer :=
  max_le_max_left 1 (roundedQuotient_anti_right (beatTicks bpm) longer.perBeat_pos h)

theorem stepTicks_quarter (bpm : ℕ) : stepTicks bpm .quarter = beatTicks bpm := by
  rw [stepTicks, NoteValue.perBeat, roundedQuotient_one, max_eq_right (beatTicks_pos bpm)]

/-! ### Error -/

/-- The ticks of a step before any rounding: 3000 divided by the beats per minute, which are at
least one, and by the steps that fill a beat. -/
def exactTicks (bpm : ℕ) (length : NoteValue) : ℚ :=
  3000 / ((max bpm 1 : ℕ) * length.perBeat)

/-- Where no quotient is raised to one, the ticks of a step are off by a half and by half of its
part of a beat at most. -/
theorem abs_stepTicks_sub_le (bpm : ℕ) (length : NoteValue)
    (hbeat : 1 ≤ roundedQuotient 3000 (max bpm 1))
    (hstep : 1 ≤ roundedQuotient (beatTicks bpm) length.perBeat) :
    |(stepTicks bpm length - exactTicks bpm length : ℚ)| ≤ 1 / 2 + 1 / (2 * length.perBeat) := by
  have hpos := length.perBeat_pos
  have hbeatTicks_eq : beatTicks bpm = roundedQuotient 3000 (max bpm 1) := max_eq_right hbeat
  have hstepTicks_eq : stepTicks bpm length = roundedQuotient (beatTicks bpm) length.perBeat :=
    max_eq_right hstep
  have hsecond := abs_roundedQuotient_sub_le (beatTicks bpm) hpos
  have hfirst := abs_roundedQuotient_sub_le 3000 (show 0 < max bpm 1 by omega)
  rw [← hstepTicks_eq] at hsecond
  rw [← hbeatTicks_eq] at hfirst
  have hpos : (0 : ℚ) < length.perBeat := by exact_mod_cast hpos
  -- The error of the first rounding is divided with the beat.
  have hcarried : |(beatTicks bpm / length.perBeat - exactTicks bpm length : ℚ)| ≤
      1 / (2 * length.perBeat) := by
    calc |(beatTicks bpm / length.perBeat - exactTicks bpm length : ℚ)|
        = |(beatTicks bpm - (3000 : ℕ) / (max bpm 1 : ℕ) : ℚ)| / length.perBeat := by
          rw [exactTicks, ← div_div, ← sub_div, abs_div, abs_of_pos hpos, Nat.cast_ofNat]
      _ ≤ 1 / 2 / length.perBeat := by gcongr
      _ = 1 / (2 * length.perBeat) := div_div ..
  calc |(stepTicks bpm length - exactTicks bpm length : ℚ)|
      ≤ |(stepTicks bpm length - beatTicks bpm / length.perBeat : ℚ)| +
          |(beatTicks bpm / length.perBeat - exactTicks bpm length : ℚ)| := abs_sub_le ..
    _ ≤ 1 / 2 + 1 / (2 * length.perBeat) := add_le_add hsecond hcarried

/-! ### All tempi -/

/-- What the ticks of beats and steps at a tempo are. -/
structure Counted (bpm : ℕ) : Prop where
  beat : beatTicks bpm = max 1 ((6000 + max bpm 1) / (2 * max bpm 1))
  step (length : NoteValue) : stepTicks bpm length =
    max 1 ((2 * beatTicks bpm + length.perBeat) / (2 * length.perBeat))
  /-- Both are exact quotients rounded to the nearest whole number, a half upwards. -/
  beat_round : (beatTicks bpm : ℤ) = max 1 (round (3000 / (max bpm 1 : ℕ) : ℚ))
  step_round (length : NoteValue) :
    (stepTicks bpm length : ℤ) = max 1 (round (beatTicks bpm / length.perBeat : ℚ))
  /-- Computing the quotients in binary64 makes no difference at tempi of 16 bits. -/
  beat_double (fits : bpm < 2 ^ 16) {d : ℚ} (h : IsNearestDouble (3000 / (max bpm 1 : ℕ)) d) :
    (beatTicks bpm : ℤ) = max 1 (round d)
  step_double (length : NoteValue) {d : ℚ}
    (h : IsNearestDouble (beatTicks bpm / length.perBeat) d) :
    (stepTicks bpm length : ℤ) = max 1 (round d)
  sixteenth_pos : 1 ≤ stepTicks bpm .sixteenth
  sixteenth_le : stepTicks bpm .sixteenth ≤ stepTicks bpm .eighth
  eighth_le : stepTicks bpm .eighth ≤ stepTicks bpm .quarter
  quarter : stepTicks bpm .quarter = beatTicks bpm
  /-- Unless a quotient is raised to one, a step is off by a half and half of its part at most. -/
  error (length : NoteValue) (beat : 1 ≤ (6000 + max bpm 1) / (2 * max bpm 1))
    (step : 1 ≤ (2 * beatTicks bpm + length.perBeat) / (2 * length.perBeat)) :
    |(stepTicks bpm length - exactTicks bpm length : ℚ)| ≤ 1 / 2 + 1 / (2 * length.perBeat)

private theorem beatTicks_le (bpm : ℕ) : beatTicks bpm ≤ 3000 :=
  antitone_beatTicks (Nat.zero_le bpm)

/-- Ticks are rounded quotients that are raised to one. -/
theorem counted (bpm : ℕ) : Counted bpm := by
  have htempo_pos : 0 < max bpm 1 := by omega
  have hbeat : (beatTicks bpm : ℤ) = max 1 ((roundedQuotient 3000 (max bpm 1) : ℕ) : ℤ) :=
    Nat.cast_max ..
  have hstep (length : NoteValue) : (stepTicks bpm length : ℤ) =
      max 1 ((roundedQuotient (beatTicks bpm) length.perBeat : ℕ) : ℤ) :=
    Nat.cast_max ..
  have hfew := beatTicks_le bpm
  constructor
  case beat => rfl
  case step => exact fun _ => rfl
  case beat_round => rw [hbeat, ← round_div 3000 htempo_pos, Nat.cast_ofNat]
  case step_round => exact fun length => by rw [hstep, ← round_div _ length.perBeat_pos]
  case beat_double =>
    intro hfits d h
    rw [hbeat, ← round_of_isNearestDouble htempo_pos (by omega) (by decide) h]
  case step_double =>
    intro length d h
    have hsmall : length.perBeat ≤ 2 ^ 16 := by cases length <;> decide
    rw [hstep, ← round_of_isNearestDouble length.perBeat_pos hsmall (by omega) h]
  case sixteenth_pos => exact stepTicks_pos bpm .sixteenth
  case sixteenth_le => exact stepTicks_le_stepTicks bpm (by decide)
  case eighth_le => exact stepTicks_le_stepTicks bpm (by decide)
  case quarter => exact stepTicks_quarter bpm
  case error => exact abs_stepTicks_sub_le bpm

/-- **Ticks in exact arithmetic.** At every tempo the ticks of a beat and of a step are rounded
quotients that are at least one, shorter note values take no more ticks, and the second rounding
keeps the error bounded; and a faster tempo takes no more ticks for any note value. -/
theorem ticks_counted : (∀ bpm, Counted bpm) ∧
    ∀ (length : NoteValue) (bpm bpm' : ℕ), bpm ≤ bpm' →
      stepTicks bpm' length ≤ stepTicks bpm length :=
  ⟨counted, fun length _ _ hfaster => antitone_stepTicks length hfaster⟩

/-- An eighth at 160 beats per minute, where both quotients are rounded. -/
theorem ticks_counted_eighth : 140 ≤ 160 ∧ stepTicks 160 .eighth ≤ stepTicks 140 .eighth ∧
    |(stepTicks 160 .eighth - exactTicks 160 .eighth : ℚ)| ≤ 1 / 2 + 1 / (2 * 2) := by
  obtain ⟨hcounted, hfaster⟩ := ticks_counted
  exact ⟨by decide, hfaster .eighth 140 160 (by decide),
    (hcounted 160).error .eighth (by decide) (by decide)⟩

end SidTune
