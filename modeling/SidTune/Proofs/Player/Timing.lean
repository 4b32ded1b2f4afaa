import Mathlib.Order.Monotone.Basic
import SidTune.Proofs.Player.Voices

/-!
# The timing of the voices

A voice starts with its first audible step, goes through its track in order, and begins again after
the last step. Each step sounds for as many frames as it has ticks, counted from the setting up. So
the step that sounds after a number of frames is found by summing up the ticks of the steps before
it, and memory tells how long it still sounds and which step comes next.

## Main definitions

* `SidTune.Track.nth`: the steps of a voice in the order in which they are started.
* `SidTune.Track.elapsed`: the frames that pass until a step is started.
* `SidTune.Player.OnTime`: a voice is at the right place after a number of frames.
* `SidTune.Player.KeepsTime`: what a voice of the library does at all times.

## Main results

* `SidTune.Track.elapsed_add_length`: a pass through the track takes the same time from everywhere.
* `SidTune.Player.OnTime.next`: a frame keeps a voice at the right place.
* `SidTune.Player.OnTime.repeats`: a pass later a voice is at the same place again.
* `SidTune.Player.library_keeps_time`: the voices of the library of an accepted song keep time.
-/

namespace SidTune

/-! ### Steps in order -/

namespace Track

/-- The steps of a voice in the order in which they are started. -/
def nth (t : Track) : Nat → Nat
  | 0 => t.start
  | j + 1 => (t.nth j + 1) % t.length

/-- The frames that pass until the step that is started as number `j`, counted from zero: the ticks
of all steps before it. -/
def elapsed (t : Track) : Nat → Nat
  | 0 => 0
  | j + 1 => t.elapsed j + t.ticksAt (t.nth j)

/-- The ticks of a number of steps from the first on, in the order of the track. -/
def ticksOfFirst (t : Track) : Nat → Nat
  | 0 => 0
  | k + 1 => t.ticksOfFirst k + t.ticksAt k

/-- The frames of a whole pass through the track. -/
def passTicks (t : Track) : Nat :=
  t.ticksOfFirst t.length

variable {t : Track}

theorem nth_eq (h : t.Playable) (j : Nat) : t.nth j = (t.start + j) % t.length := by
  induction j with
  | zero => exact (Nat.mod_eq_of_lt h.start_lt).symm
  | succ j ih => rw [nth, ih, Nat.mod_add_mod, Nat.add_assoc]

private theorem nth_lt (h : t.Playable) (j : Nat) : t.nth j < t.length := by
  rw [nth_eq h]
  exact Nat.mod_lt _ h.length_pos

theorem elapsed_lt_succ (h : t.Playable) (j : Nat) : t.elapsed j < t.elapsed (j + 1) := by
  have := h.ticksAt_pos (nth_lt h j)
  rw [elapsed]
  omega

theorem elapsed_strictMono (h : t.Playable) : StrictMono t.elapsed :=
  strictMono_nat_of_lt_succ (elapsed_lt_succ h)

/-- At most one step sounds at a frame. -/
theorem sounding_unique (h : t.Playable) {n i j : Nat} (hi : t.elapsed i ≤ n)
    (hi' : n < t.elapsed (i + 1)) (hj : t.elapsed j ≤ n) (hj' : n < t.elapsed (j + 1)) : i = j := by
  have hmono := elapsed_strictMono h
  have := hmono.lt_iff_lt.1 (hi.trans_lt hj')
  have := hmono.lt_iff_lt.1 (hj.trans_lt hi')
  omega

/-! ### Passes -/

theorem nth_add_length (h : t.Playable) (j : Nat) : t.nth (j + t.length) = t.nth j := by
  rw [nth_eq h, nth_eq h, ← Nat.add_assoc, Nat.add_mod_right]

/-- The first pass begins with the first audible step. -/
theorem nth_first_pass (h : t.Playable) {i : Nat} (hi : t.start + i < t.length) :
    t.nth i = t.start + i := by
  rw [nth_eq h, Nat.mod_eq_of_lt hi]

/-- Every later pass begins with the first step. -/
theorem nth_later_pass (h : t.Playable) (pass : Nat) {i : Nat} (hi : i < t.length) :
    t.nth (t.length - t.start + pass * t.length + i) = i := by
  have hstart := h.start_lt
  have htotal : t.start + (t.length - t.start + pass * t.length + i) =
      i + (pass + 1) * t.length := by
    rw [Nat.add_mul]
    omega
  rw [nth_eq h, htotal, Nat.add_mul_mod_self_right, Nat.mod_eq_of_lt hi]

/-- A pass through the track takes as long from one step as from the first that is started. -/
theorem elapsed_add_length_eq (h : t.Playable) (j : Nat) :
    t.elapsed (j + t.length) = t.elapsed j + t.elapsed t.length := by
  induction j with
  | zero => simp [elapsed]
  | succ j ih =>
    rw [Nat.add_right_comm, elapsed, ih, nth_add_length h, elapsed]
    omega

/-- From the first step on, the steps of a later pass are summed up in the order of the track. -/
theorem elapsed_later_pass (h : t.Playable) {k : Nat} (hk : k ≤ t.length) :
    t.elapsed (t.length - t.start + k) =
      t.elapsed (t.length - t.start) + t.ticksOfFirst k := by
  induction k with
  | zero => rfl
  | succ k ih =>
    have hfirst : t.nth (t.length - t.start + k) = k := by
      simpa using nth_later_pass h 0 (Nat.lt_of_succ_le hk)
    rw [← Nat.add_assoc, elapsed, ih (by omega), hfirst, Nat.add_assoc, ticksOfFirst]

/-- A pass through the track takes the same time from everywhere. -/
theorem elapsed_add_length (h : t.Playable) (j : Nat) :
    t.elapsed (j + t.length) = t.elapsed j + t.passTicks := by
  have hconstant := elapsed_add_length_eq h (t.length - t.start)
  rw [elapsed_later_pass h le_rfl] at hconstant
  rw [elapsed_add_length_eq h, ← Nat.add_left_cancel hconstant, passTicks]

end Track

namespace Player

open Processor

/-! ### Voices in time -/

/-- A voice is at the right place after a number of frames: of the steps that were started, the last
is number `j`, it began at most these frames ago and is not over yet, and the head tells how long it
still sounds and which step comes next. -/
structure OnTime (track : Track) (frames : Nat) (h : Head) (steps : List Nat) (j : Nat) :
    Prop where
  begun : track.elapsed j ≤ frames
  unfinished : frames < track.elapsed (j + 1)
  steps_eq : steps = (List.range (j + 1)).map track.nth
  timer_eq : h.timer = track.elapsed (j + 1) - frames
  step_eq : h.step = track.nth (j + 1)

namespace OnTime

variable {track : Track} {frames j : Nat} {h h' : Head} {steps steps' : List Nat}

theorem start (hp : track.Playable) :
    OnTime track 0 (Head.started track track.start) [track.start] 0 where
  begun := Nat.zero_le _
  unfinished := Nat.zero_lt_of_lt (track.elapsed_lt_succ hp 0)
  steps_eq := rfl
  timer_eq := by simp [Head.started, Track.elapsed, Track.nth]
  step_eq := rfl

/-- A frame keeps a voice at the right place. -/
theorem next (hp : track.Playable) (ho : OnTime track frames h steps j) :
    ∃ j', OnTime track (frames + 1) (h.next track) (steps ++ h.starts) j' := by
  obtain ⟨hbegun, hunfinished, rfl, htimer, hstep⟩ := ho
  -- The countdown ends exactly with the frame at which the next step is due.
  have hends : h.timer - 1 = 0 ↔ frames + 1 = track.elapsed (j + 1) := by omega
  unfold Head.next Head.starts
  by_cases hlast : h.timer - 1 = 0
  · rw [if_pos hlast, if_pos hlast]
    have hgrows := track.elapsed_lt_succ hp (j + 1)
    have hnow := hends.1 hlast
    exact ⟨j + 1,
      { begun := hnow.ge
        unfinished := hnow ▸ hgrows
        steps_eq := by simp [List.range_succ, hstep]
        timer_eq := by
          rw [hnow, Track.elapsed.eq_2 track (j + 1), Head.started, hstep]
          dsimp only
          omega
        step_eq := by rw [Head.started, hstep, Track.nth.eq_2 track (j + 1)] }⟩
  · rw [if_neg hlast, if_neg hlast]
    have hbefore : frames + 1 ≠ track.elapsed (j + 1) := fun heq => hlast (hends.2 heq)
    exact ⟨j,
      { begun := by omega
        unfinished := by omega
        steps_eq := List.append_nil _
        timer_eq := by dsimp only; omega
        step_eq := hstep }⟩

theorem eq_of_sounding (hp : track.Playable) (ho : OnTime track frames h steps j) {i : Nat}
    (hbegun : track.elapsed i ≤ frames) (hunfinished : frames < track.elapsed (i + 1)) : i = j :=
  track.sounding_unique hp hbegun hunfinished ho.begun ho.unfinished

private theorem getLast?_steps (ho : OnTime track frames h steps j) :
    steps.getLast? = some (track.nth j) := by
  rw [ho.steps_eq, List.range_succ, List.map_append, List.map_singleton, List.getLast?_concat]

private theorem head_eq (ho : OnTime track frames h steps j) :
    h = ⟨track.elapsed (j + 1) - frames, track.nth (j + 1)⟩ := by
  rw [← ho.timer_eq, ← ho.step_eq]

/-- A pass later a voice is at the same place again. -/
theorem repeats (hp : track.Playable) {j' : Nat} (ho : OnTime track frames h steps j)
    (ho' : OnTime track (frames + track.passTicks) h' steps' j') :
    h' = h ∧ steps'.getLast? = steps.getLast? := by
  have hbegun := Track.elapsed_add_length hp j
  have hended := Track.elapsed_add_length hp (j + 1)
  rw [Nat.add_right_comm] at hended
  obtain rfl : j + track.length = j' :=
    ho'.eq_of_sounding hp (by have := ho.begun; omega) (by have := ho.unfinished; omega)
  constructor
  · rw [ho.head_eq, ho'.head_eq, hended, Nat.add_right_comm, Track.nth_add_length hp,
      Nat.add_sub_add_right]
  · rw [ho.getLast?_steps, ho'.getLast?_steps, Track.nth_add_length hp]

end OnTime

/-- A voice of the sequencer is at the right place after every number of frames. -/
theorem onTime_headAfter {t : Tune} {voice : Nat} {track : Track} (hp : track.Playable)
    (ht : t.tracks.get? voice = some track) (n : Nat) :
    ∃ j, OnTime track n (headAfter track n) (ownSteps voice (scoreReads t n).flatten) j := by
  induction n with
  | zero =>
    have hsetup : ownSteps voice (scoreReads t 0).flatten = [track.start] := by
      simp [scoreReads, ownSteps_setupReads ht]
    exact ⟨0, hsetup ▸ .start hp⟩
  | succ n ih =>
    obtain ⟨j, ho⟩ := ih
    have hframe : ownSteps voice (scoreReads t (n + 1)).flatten =
        ownSteps voice (scoreReads t n).flatten ++ (headAfter track n).starts := by
      rw [scoreReads_succ, List.flatten_append, ownSteps_append, List.flatten_singleton,
        ownSteps_frameReads ht (heads_playingAfter ht n)]
    rw [hframe]
    exact ho.next hp

theorem headAfter_add_passTicks {t : Tune} {voice : Nat} {track : Track} (hp : track.Playable)
    (ht : t.tracks.get? voice = some track) (n : Nat) :
    headAfter track (n + track.passTicks) = headAfter track n := by
  obtain ⟨j, ho⟩ := onTime_headAfter hp ht n
  obtain ⟨j', ho'⟩ := onTime_headAfter hp ht (n + track.passTicks)
  exact (ho.repeats hp ho').1

/-! ### The library in time -/

/-- The steps of a voice that the records of calls show to have been started. -/
def startedSteps (voice : Nat) (records : List (List Moment)) : List Nat :=
  ownSteps voice (records.map readsOf).flatten

/-- What the calls of a session write to the registers of a voice. -/
def ownRecords (voice : Nat) (records : List (List Moment)) : List (List Write) :=
  records.map fun record => ownWrites voice (writesOf record)

/-- What every session does with one voice. -/
theorem Session.voice {t : Tune} {host : Nat → Machine → Machine} {m n : Machine} {i voice : Nat}
    {records : List (List Moment)} {track : Track} (ht : t.Playable)
    (hr : Resident (library t) t m.memory) (hdecimal : m.flags.decimal = false)
    (hcareful : ∀ i n, Leaves (library t) n (host i n))
    (h : Session (library t) host m i records n) (hv : t.tracks.get? voice = some track) :
    headOf (library t) n.memory voice = headAfter track i ∧
      ownRecords voice records = ownScore t voice track i ∧
      startedSteps voice records = ownSteps voice (scoreReads t i).flatten := by
  obtain ⟨hplays, hwrites, hreads⟩ := h.plays ht hr hdecimal hcareful
  refine ⟨headOf_eq_headAfter hv hplays.state, ?_, by rw [startedSteps, hreads]⟩
  rw [← ownWrites_scoreWrites hv, ← hwrites, List.map_map]
  exact List.map_congr_left fun _ _ => (ownWrites_chipWrites (lt_three_of_get? hv) _).symm

/-- A voice of the library keeps time. After setting up and `n` frames one step sounds, and memory
and the records tell that it is the right one; the first pass begins with the first audible step,
and all others with the first step; every frame is like that a pass later; and no other voice
has any influence. -/
structure KeepsTime (t : Tune) (host : Nat → Machine → Machine) (m : Machine) (voice : Nat)
    (track : Track) : Prop where
  lasts (n : Nat) : ∃ records k, Session (library t) host m n records k
  onTime {n : Nat} {records : List (List Moment)} {k : Machine}
    (h : Session (library t) host m n records k) :
    ∃ j, OnTime track n (headOf (library t) k.memory voice) (startedSteps voice records) j ∧
      ∀ i, track.elapsed i ≤ n → n < track.elapsed (i + 1) → i = j
  first_pass {i : Nat} (hi : track.start + i < track.length) : track.nth i = track.start + i
  later_pass (pass : Nat) {i : Nat} (hi : i < track.length) :
    track.nth (track.length - track.start + pass * track.length + i) = i
  repeats {n : Nat} {records records' : List (List Moment)} {k k' : Machine}
    (h : Session (library t) host m n records k)
    (h' : Session (library t) host m (n + track.passTicks) records' k') :
    headOf (library t) k'.memory voice = headOf (library t) k.memory voice ∧
      (startedSteps voice records').getLast? = (startedSteps voice records).getLast?
  sounds_again {n frame : Nat} {records : List (List Moment)} {k : Machine}
    (h : Session (library t) host m n records k) (hf : frame + 1 + track.passTicks ≤ n) :
    (ownRecords voice records)[frame + 1 + track.passTicks]? =
      (ownRecords voice records)[frame + 1]?
  alone {s' : Song} {host' : Nat → Machine → Machine} {m' : Machine}
    (hosted : Hosted s' host' m') (ht : (Tune.ofSong s').tracks.get? voice = some track)
    {n : Nat} {records records' : List (List Moment)} {k k' : Machine}
    (h : Session (library t) host m n records k)
    (h' : Session (library (Tune.ofSong s')) host' m' n records' k') :
    headOf (library (Tune.ofSong s')) k'.memory voice = headOf (library t) k.memory voice ∧
      startedSteps voice records' = startedSteps voice records ∧
      ownRecords voice records' = ownRecords voice records

/-- The voices of the library of an accepted song keep time. -/
theorem library_keeps_time {s : Song} {host : Nat → Machine → Machine} {m : Machine}
    (h : Hosted s host m) {voice : Nat} {track : Track}
    (ht : (Tune.ofSong s).tracks.get? voice = some track) :
    KeepsTime (Tune.ofSong s) host m voice track := by
  have hp : track.Playable := h.playable _ (List.mem_of_getElem? ht)
  -- Every session does what the sequencer does, so the clauses below are about the sequencer.
  have htold {n : Nat} {records : List (List Moment)} {k : Machine}
      (hsession : Session (library (Tune.ofSong s)) host m n records k) :=
    hsession.voice h.playable h.resident h.decimal h.careful ht
  have honTime {n : Nat} {records : List (List Moment)} {k : Machine}
      (hsession : Session (library (Tune.ofSong s)) host m n records k) :
      ∃ j, OnTime track n (headOf (library (Tune.ofSong s)) k.memory voice)
        (startedSteps voice records) j := by
    obtain ⟨hhead, -, hsteps⟩ := htold hsession
    rw [hhead, hsteps]
    exact onTime_headAfter hp ht n
  constructor
  case lasts => exact exists_session h.playable h.resident h.decimal h.careful
  case onTime =>
    intro n records k hsession
    obtain ⟨j, ho⟩ := honTime hsession
    exact ⟨j, ho, fun i => ho.eq_of_sounding hp⟩
  case first_pass => exact Track.nth_first_pass hp
  case later_pass => exact Track.nth_later_pass hp
  case repeats =>
    intro n records records' k k' hsession hsession'
    obtain ⟨j, ho⟩ := honTime hsession
    obtain ⟨j', ho'⟩ := honTime hsession'
    exact ho.repeats hp ho'
  case sounds_again =>
    intro n frame records k hsession hf
    have hagain : headAfter track (frame + track.passTicks) = headAfter track frame :=
      headAfter_add_passTicks hp ht frame
    have hlate : frame + track.passTicks < n := by omega
    have hearly : frame < n := by omega
    rw [(htold hsession).2.1, ownScore, Nat.add_right_comm]
    simp [hlate, hearly, hagain]
  case alone =>
    intro s' host' m' hhosted ht' n records records' k k' hsession hsession'
    obtain ⟨hhead, hwrites, hsteps⟩ := htold hsession
    obtain ⟨hhead', hwrites', hsteps'⟩ := hsession'.voice hhosted.playable hhosted.resident
      hhosted.decimal hhosted.careful ht'
    obtain ⟨j, ho⟩ := onTime_headAfter (n := n) hp ht
    obtain ⟨j', ho'⟩ := onTime_headAfter (n := n) hp ht'
    obtain rfl := ho.eq_of_sounding hp ho'.begun ho'.unfinished
    refine ⟨hhead'.trans hhead.symm, ?_, ?_⟩
    · rw [hsteps, hsteps', ho.steps_eq, ho'.steps_eq]
    · rw [hwrites, hwrites', ownScore_congr ht ht']

theorem library_keeps_time_sampleSong :
    Hosted sampleSong (fun _ k => k) (loadedMachine (library (Tune.ofSong sampleSong))) ∧
      (Tune.ofSong sampleSong).tracks.get? 0 = some (Tune.ofSong sampleSong).tracks.first ∧
      KeepsTime (Tune.ofSong sampleSong) (fun _ k => k)
        (loadedMachine (library (Tune.ofSong sampleSong))) 0
        (Tune.ofSong sampleSong).tracks.first :=
  ⟨hosted_sampleSong, rfl, library_keeps_time hosted_sampleSong rfl⟩

end Player

end SidTune
