import SidTune.Proofs.Player.Library

/-!
# The voices one by one

Three voices share a player, but none of them looks at another: the head of a voice, the steps it
starts and what is written to its registers are told by its own track.

## Main definitions

* `SidTune.Player.Head.next`, `SidTune.Player.headAfter`: the head of one voice.
* `SidTune.Player.ownWrites`: the writes to the registers of one voice.
* `SidTune.Player.ownScore`: what is written to them by setting up and by each frame.
* `SidTune.Player.ownSteps`: the steps of one voice that reads show to have been started.

## Main results

* `SidTune.Player.heads_playingAfter`: every head of the sequencer goes its own way.
* `SidTune.Player.ownWrites_scoreWrites`: of the score, each voice has its own.
* `SidTune.Player.ownScore_congr`: it is told by the track alone.
* `SidTune.Player.ownSteps_frameReads`: a frame starts the step that the head tells.
-/

namespace SidTune.Player

open Assembly Processor

/-! ### Heads -/

namespace Head

/-- The head of a voice after a frame. -/
def next (track : Track) (h : Head) : Head :=
  if h.timer - 1 = 0 then started track h.step else { h with timer := h.timer - 1 }

/-- The step that a voice starts in the next frame, if it starts one. -/
def starts (h : Head) : List Nat :=
  if h.timer - 1 = 0 then [h.step] else []

theorem tick_snd (h : Head) (t : Tune) (voice : Nat) (track : Track) :
    (h.tick t voice track).2 = h.next track := by
  unfold tick next
  split <;> rfl

end Head

/-- The head of a voice after setting up and a number of frames. -/
def headAfter (track : Track) : Nat → Head
  | 0 => Head.started track track.start
  | n + 1 => (headAfter track n).next track

section Voice

variable {t t' : Tune} {voice other : Nat} {track : Track}

/-- Every head of the sequencer goes its own way. -/
theorem heads_playingAfter (ht : t.tracks.get? voice = some track) (n : Nat) :
    (playingAfter t n).heads.get? voice = some (headAfter track n) := by
  induction n with
  | zero =>
    rcases Trio.get?_eq_some.1 ht with ⟨rfl, rfl⟩ | ⟨rfl, rfl⟩ | ⟨rfl, rfl⟩ <;> rfl
  | succ n ih =>
    rcases Trio.get?_eq_some.1 ht with ⟨rfl, rfl⟩ | ⟨rfl, rfl⟩ | ⟨rfl, rfl⟩
    all_goals
      simp only [Trio.get?_first, Trio.get?_second, Trio.get?_third, Option.some.injEq] at ih ⊢
      rw [headAfter, ← ih, ← Head.tick_snd]
      rfl

/-- The head of a voice that memory tells is one of those of the sequencer. -/
theorem headOf_eq_headAfter {p : Program} {n : Nat} {memory : Memory}
    (ht : t.tracks.get? voice = some track) (h : stateOf p memory = playingAfter t n) :
    headOf p memory voice = headAfter track n := by
  have heads := heads_playingAfter ht n
  rw [← h] at heads
  rcases Trio.get?_eq_some.1 ht with ⟨rfl, -⟩ | ⟨rfl, -⟩ | ⟨rfl, -⟩ <;> exact Option.some.inj heads

/-! ### Writes -/

/-- Whether a cell is a register of a voice. -/
def isOf (voice : Nat) (cell : UInt16) : Bool :=
  register voice 0 ≤ cell && cell ≤ register voice 6

/-- The writes to the registers of a voice. -/
def ownWrites (voice : Nat) (writes : List Write) : List Write :=
  writes.filter fun w => isOf voice w.address

@[simp] theorem ownWrites_append (voice : Nat) (first second : List Write) :
    ownWrites voice (first ++ second) = ownWrites voice first ++ ownWrites voice second :=
  List.filter_append ..

theorem isOf_iff (hv : voice < 3) {cell : UInt16} :
    isOf voice cell = true ↔
      0xD400 + 7 * voice ≤ cell.toNat ∧ cell.toNat ≤ 0xD400 + 7 * voice + 6 := by
  simp only [isOf, Bool.and_eq_true, decide_eq_true_eq, UInt16.le_iff_toNat_le]
  rw [toNat_register hv (show (0 : UInt16).toNat ≤ 6 by decide),
    toNat_register hv (show (6 : UInt16).toNat ≤ 6 by decide)]
  exact Iff.rfl

/-- Voices have no register in common. -/
theorem isOf_register (hv : voice < 3) (ho : other < 3) {offset : UInt16}
    (hoff : offset.toNat ≤ 6) :
    isOf voice (register other offset) = decide (other = voice) := by
  rw [Bool.eq_iff_iff, isOf_iff hv, toNat_register ho hoff, decide_eq_true_eq]
  omega

theorem ownWrites_chipWrites (hv : voice < 3) (writes : List Write) :
    ownWrites voice (chipWrites writes) = ownWrites voice writes := by
  rw [ownWrites, chipWrites, List.filter_filter]
  refine List.filter_congr fun w _ => ?_
  rw [Bool.and_eq_left_iff_imp, isOf_iff hv, isChip_iff]
  omega

/-- Writes to registers of one voice are its own and those of no other. -/
theorem ownWrites_eq (hv : voice < 3) (ho : other < 3) {writes : List Write}
    (h : ∀ w ∈ writes, ∃ offset, offset.toNat ≤ 6 ∧ w.address = register other offset) :
    ownWrites voice writes = if other = voice then writes else [] := by
  have hown : ∀ w ∈ writes, isOf voice w.address = decide (other = voice) := by
    intro w hw
    obtain ⟨offset, hoff, haddress⟩ := h w hw
    rw [haddress, isOf_register hv ho hoff]
  split
  · next hsame => exact List.filter_eq_self.2 fun w hw => by simp [hown w hw, hsame]
  · next hdifferent => exact List.filter_eq_nil_iff.2 fun w hw => by simp [hown w hw, hdifferent]

theorem address_startStep {w : Write} {step : Nat} (hw : w ∈ startStep t voice track step) :
    ∃ offset, offset.toNat ≤ 6 ∧ w.address = register voice offset := by
  unfold startStep at hw
  split at hw
  · obtain rfl := List.mem_singleton.1 hw
    exact ⟨_, by decide, rfl⟩
  · simp only [List.mem_cons, List.not_mem_nil, or_false] at hw
    rcases hw with rfl | rfl | rfl | rfl
    all_goals exact ⟨_, by decide, rfl⟩

theorem address_tick {w : Write} {h : Head} (hw : w ∈ (h.tick t voice track).1) :
    ∃ offset, offset.toNat ≤ 6 ∧ w.address = register voice offset := by
  unfold Head.tick at hw
  split at hw
  · exact address_startStep hw
  · cases hw

private theorem address_voiceWrites {w : Write} (hw : w ∈ voiceWrites t voice track) :
    ∃ offset, offset.toNat ≤ 6 ∧ w.address = register voice offset := by
  simp only [voiceWrites, List.mem_append] at hw
  rcases hw with (hw | hw) | hw
  · simp only [List.mem_cons, List.not_mem_nil, or_false] at hw
    rcases hw with rfl | rfl
    all_goals exact ⟨_, by decide, rfl⟩
  · cases hpulse : track.registers.pulse? with
    | none => simp [pulseWrites, hpulse] at hw
    | some pulse =>
      simp only [pulseWrites, hpulse, List.mem_cons, List.not_mem_nil, or_false] at hw
      rcases hw with rfl | rfl
      all_goals exact ⟨_, by decide, rfl⟩
  · exact address_startStep hw

private theorem ownWrites_filterWrites (hv : voice < 3) (s : Chip.FilterSetting) :
    ownWrites voice (filterWrites s) = [] := by
  have hvoices : voice = 0 ∨ voice = 1 ∨ voice = 2 := by omega
  rcases hvoices with rfl | rfl | rfl <;> rfl

/-- What setting up writes to the registers of a voice. -/
theorem ownWrites_begin (ht : t.tracks.get? voice = some track) :
    ownWrites voice (begin t).1 = ownWrites voice clearing ++ voiceWrites t voice track := by
  have hown (u : Nat) (hu : u < 3) (other : Track) :
      ownWrites voice (voiceWrites t u other) = if u = voice then voiceWrites t u other else [] :=
    ownWrites_eq (lt_three_of_get? ht) hu fun _ => address_voiceWrites
  simp only [begin, ownWrites_append, ownWrites_filterWrites (lt_three_of_get? ht),
    hown 0 (by decide), hown 1 (by decide), hown 2 (by decide)]
  rcases Trio.get?_eq_some.1 ht with ⟨rfl, rfl⟩ | ⟨rfl, rfl⟩ | ⟨rfl, rfl⟩ <;> simp

/-- What a frame writes to the registers of a voice. -/
theorem ownWrites_frame (ht : t.tracks.get? voice = some track) {q : Playing} {h : Head}
    (hq : q.heads.get? voice = some h) :
    ownWrites voice (q.frame t).1 = (h.tick t voice track).1 := by
  have hown (u : Nat) (hu : u < 3) (head : Head) (other : Track) :
      ownWrites voice (head.tick t u other).1 =
        if u = voice then (head.tick t u other).1 else [] :=
    ownWrites_eq (lt_three_of_get? ht) hu fun _ => address_tick
  have hvolume (value : UInt8) : ownWrites voice [⟨0xD418, value⟩] = [] := by
    rcases Trio.get?_eq_some.1 ht with ⟨rfl, -⟩ | ⟨rfl, -⟩ | ⟨rfl, -⟩ <;> rfl
  rw [Playing.frame, ← List.singleton_append, ownWrites_append, ownWrites_append,
    ownWrites_append, hvolume, hown 0 (by decide), hown 1 (by decide), hown 2 (by decide)]
  rcases Trio.get?_eq_some.1 ht with ⟨rfl, rfl⟩ | ⟨rfl, rfl⟩ | ⟨rfl, rfl⟩ <;>
    cases hq <;> simp

/-- What is written to the registers of a voice by setting up and by each of a number of frames. -/
def ownScore (t : Tune) (voice : Nat) (track : Track) (n : Nat) : List (List Write) :=
  (ownWrites voice clearing ++ voiceWrites t voice track) ::
    (List.range n).map fun i => ((headAfter track i).tick t voice track).1

/-- Of the score, each voice has its own. -/
theorem ownWrites_scoreWrites (ht : t.tracks.get? voice = some track) (n : Nat) :
    (scoreWrites t n).map (ownWrites voice) = ownScore t voice track n := by
  simp only [scoreWrites, ownScore, List.map_cons, List.map_map, ownWrites_begin ht]
  congr 1
  exact List.map_congr_left fun i _ => ownWrites_frame ht (heads_playingAfter ht i)

private theorem startStep_congr (ht : t.tracks.get? voice = some track)
    (ht' : t'.tracks.get? voice = some track) :
    startStep t voice track = startStep t' voice track := by
  funext step
  rw [startStep_eq, startStep_eq, Tune.wordAt?_eq ht, Tune.wordAt?_eq ht']

/-- What a voice writes is told by its track alone. -/
theorem ownScore_congr (ht : t.tracks.get? voice = some track)
    (ht' : t'.tracks.get? voice = some track) (n : Nat) :
    ownScore t voice track n = ownScore t' voice track n := by
  simp only [ownScore, voiceWrites, Head.tick, startStep_congr ht ht']

/-! ### Steps -/

/-- The steps of a voice that reads show to have been started: starting a step reads its note. -/
def ownSteps (voice : Nat) (reads : List (String × Nat)) : List Nat :=
  reads.filterMap fun read => if read.1 = labelOf voice "notes" then some read.2 else none

@[simp] theorem ownSteps_append (voice : Nat) (first second : List (String × Nat)) :
    ownSteps voice (first ++ second) = ownSteps voice first ++ ownSteps voice second :=
  List.filterMap_append

/-- Starting a step reads the note of that step of that voice and no other note. -/
theorem ownSteps_advanceReads (hv : voice < 3) (ho : other < 3) (track : Track) (step : Nat) :
    ownSteps voice (advanceReads other track step) = if other = voice then [step] else [] := by
  have hvoices : voice = 0 ∨ voice = 1 ∨ voice = 2 := by omega
  have hothers : other = 0 ∨ other = 1 ∨ other = 2 := by omega
  unfold advanceReads pitchReads
  cases track.pitchAt? step <;>
    rcases hvoices with rfl | rfl | rfl <;> rcases hothers with rfl | rfl | rfl <;> rfl

theorem ownSteps_countReads (hv : voice < 3) (ho : other < 3) (track : Track) (h : Head) :
    ownSteps voice (countReads other track h) = if other = voice then h.starts else [] := by
  unfold countReads Head.starts
  split
  · exact ownSteps_advanceReads hv ho track h.step
  · split <;> rfl

theorem ownSteps_setupReads (ht : t.tracks.get? voice = some track) :
    ownSteps voice (setupReads t) = [track.start] := by
  have hv := lt_three_of_get? ht
  simp only [setupReads, ownSteps_append, ownSteps_advanceReads hv (show 0 < 3 by decide),
    ownSteps_advanceReads hv (show 1 < 3 by decide),
    ownSteps_advanceReads hv (show 2 < 3 by decide)]
  rcases Trio.get?_eq_some.1 ht with ⟨rfl, rfl⟩ | ⟨rfl, rfl⟩ | ⟨rfl, rfl⟩ <;> simp

/-- A frame starts the step that the head tells. -/
theorem ownSteps_frameReads (ht : t.tracks.get? voice = some track) {q : Playing} {h : Head}
    (hq : q.heads.get? voice = some h) : ownSteps voice (frameReads t q) = h.starts := by
  have hv := lt_three_of_get? ht
  simp only [frameReads, ownSteps_append, ownSteps_countReads hv (show 0 < 3 by decide),
    ownSteps_countReads hv (show 1 < 3 by decide), ownSteps_countReads hv (show 2 < 3 by decide)]
  rcases Trio.get?_eq_some.1 ht with ⟨rfl, rfl⟩ | ⟨rfl, rfl⟩ | ⟨rfl, rfl⟩ <;>
    cases hq <;> simp

end Voice

end SidTune.Player
