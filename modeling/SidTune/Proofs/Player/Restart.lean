import SidTune.Proofs.Player.Library

/-!
# Starting again

Setting up overwrites every register of the chip and all seven bytes of state, and reads none of
them before. So it does not matter what the machine went through: as long as code and tables are
still in memory, the song starts afresh and is played as it was the first time, at whatever frame it
was broken off.

## Main definitions

* `SidTune.Player.Equipped`: a machine that holds the library of an accepted song, in whatever
  state.
* `SidTune.Player.StartAlike`, `SidTune.Player.PlayAlike`: two machines on which setting up, and
  the frames after it, cannot be told apart by what the chip gets.

## Main results

* `SidTune.Player.start_alike`: setting up leaves the same in the chip and in the state.
* `SidTune.Player.Equipped.session`: a machine that has played is as well equipped as before.
* `SidTune.Player.library_restarts`: a song that is started again is played as before.
-/

namespace SidTune.Processor.Memory

/-- A cell that is written does not remember what it held. -/
theorem after_congr_of_written {writes : List Write} {cell : UInt16}
    (h : ∃ w ∈ writes, w.address = cell) (memory memory' : Memory) :
    memory.after writes cell = memory'.after writes cell := by
  induction writes generalizing memory memory' with
  | nil => simp at h
  | cons w rest ih =>
    by_cases hlater : ∃ w' ∈ rest, w'.address = cell
    · exact ih hlater _ _
    · have hlast : w.address = cell := by simpa [hlater] using h
      have hkept : ∀ w' ∈ rest, cell ≠ w'.address := fun w' hw heq => hlater ⟨w', hw, heq.symm⟩
      simp only [after_cons, after_of_unwritten _ hkept]
      rw [← hlast, write_same, write_same]

end SidTune.Processor.Memory

namespace SidTune.Player

open Assembly Processor

/-! ### Setting up forgets -/

section Setup

variable {p body : Program} {start : UInt16} {t : Tune} {m m' n n' : Machine}
  {record record' : List Moment}

/-- Setting up writes every register of the chip. -/
theorem exists_begin_write (t : Tune) {cell : UInt16} (h : isChip cell) :
    ∃ w ∈ (begin t).1, w.address = cell := by
  rw [isChip_iff] at h
  have hcounted : cell.toNat - 0xD400 ∈ (List.range 25).reverse := by
    simp only [List.mem_reverse, List.mem_range]
    omega
  refine ⟨⟨0xD400 + UInt16.ofNat (cell.toNat - 0xD400), 0⟩, ?_, ?_⟩
  · simp only [begin, List.append_assoc]
    exact List.mem_append_left _ (List.mem_map_of_mem hcounted)
  · apply UInt16.toNat_inj.1
    simp only [UInt16.toNat_add, UInt16.reduceToNat, UInt16.toNat_ofNat']
    omega

/-- What a register of the chip holds after a call depends on the writes to the chip alone. -/
theorem chip_after_call {entry : UInt16} (hcall : Calls p entry m record n) {cell : UInt16}
    (h : isChip cell) :
    n.memory cell = m.memory.after (chipWrites (writesOf record)) cell := by
  have hall : ∀ w ∈ writesOf record, w.address = cell → isChip w.address :=
    fun w _ heq => heq ▸ h
  rw [hcall.runs.memory_eq, ← Memory.after_filter hall]
  by_cases hwritten : ∃ w ∈ chipWrites (writesOf record), w.address = cell
  · exact Memory.after_congr_of_written hwritten _ _
  · have hkept : ∀ w ∈ chipWrites (writesOf record), cell ≠ w.address :=
      fun w hw heq => hwritten ⟨w, hw, heq.symm⟩
    rw [Memory.after_of_unwritten m.memory hkept]
    exact (Memory.after_of_unwritten _ hkept).trans
      (memory_enter m entry (inStack_of_isChip h))

/-- Memories that tell the same state hold the same bytes of state. -/
theorem state_congr {memory memory' : Memory} (h : stateOf p memory = stateOf p memory') :
    ∀ name ∈ stateNames, memory (p.locate name) = memory' (p.locate name) := by
  simp only [stateOf, headOf, Playing.mk.injEq, Trio.mk.injEq, Head.mk.injEq,
    UInt8.toNat_inj] at h
  simp only [stateNames, List.flatMap_cons, List.flatMap_nil, List.cons_append, List.nil_append,
    List.forall_mem_cons, List.not_mem_nil, false_implies, implies_true, and_true]
  tauto

/-- Calls of the first entry point from two machines come back, and leave the same in the chip and
in the state. -/
structure StartAlike (p : Program) (m m' : Machine) : Prop where
  returns : (∃ record n, Calls p 0x1000 m record n) ∧ ∃ record n, Calls p 0x1000 m' record n
  chip : ∀ {record record' n n'}, Calls p 0x1000 m record n → Calls p 0x1000 m' record' n' →
    ∀ cell, isChip cell → n.memory cell = n'.memory cell
  state : ∀ {record record' n n'}, Calls p 0x1000 m record n → Calls p 0x1000 m' record' n' →
    ∀ name ∈ stateNames, n.memory (p.locate name) = n'.memory (p.locate name)

/-- Setting up leaves the same wherever the tables are in memory. -/
theorem start_alike (ht : t.Playable) (hr : Resident (library t) t m.memory)
    (hr' : Resident (library t) t m'.memory) (hdecimal : m.flags.decimal = false)
    (hdecimal' : m'.flags.decimal = false) : StartAlike (library t) m m' where
  returns :=
    let ⟨record, n, hcall, _⟩ := call_init ht hr hdecimal
    let ⟨record', n', hcall', _⟩ := call_init ht hr' hdecimal'
    ⟨⟨record, n, hcall⟩, record', n', hcall'⟩
  chip hcall hcall' cell h := by
    obtain ⟨-, hwrites, -⟩ := plays_init ht hr hdecimal hcall
    obtain ⟨-, hwrites', -⟩ := plays_init ht hr' hdecimal' hcall'
    rw [chip_after_call hcall h, chip_after_call hcall' h, hwrites, hwrites']
    exact Memory.after_congr_of_written (exists_begin_write t h) _ _
  state hcall hcall' := by
    obtain ⟨hplays, -⟩ := plays_init ht hr hdecimal hcall
    obtain ⟨hplays', -⟩ := plays_init ht hr' hdecimal' hcall'
    exact state_congr (hplays.state.trans hplays'.state.symm)

end Setup

/-! ### Machines that hold the library -/

/-- A machine that holds the library of an accepted song: memory has its code and tables, and
decimal mode is off. The registers, the chip and the bytes of state are whatever they are. -/
structure Equipped (s : Song) (m : Machine) : Prop where
  accepted : ∃ document, Song.ofJson document = .ok s
  held : ∀ c ∈ (library (Tune.ofSong s)).image,
    (∀ name ∈ stateNames, c.1 ≠ (library (Tune.ofSong s)).locate name) → m.memory c.1 = c.2
  decimal : m.flags.decimal = false

/-- Confined writes keep the image but for the state. -/
theorem Carries.image_after {p body : Program} {start : UInt16} {t : Tune}
    (hc : Carries p start body t) {writes : List Write}
    (h : ∀ w ∈ writes, Confined p stateNames w) {memory : Memory} {c : UInt16 × UInt8}
    (hmem : c ∈ p.image) (hfresh : ∀ name ∈ stateNames, c.1 ≠ p.locate name) :
    memory.after writes c.1 = memory c.1 := by
  have hbounds := hc.image_bounds hmem
  refine Memory.after_of_unwritten _ fun w hw heq => ?_
  rcases h w hw with hchip | ⟨name, hname, hstate⟩
  · rw [← heq, isChip_iff] at hchip
    omega
  · exact hfresh name hname (heq.trans hstate)

namespace Equipped

variable {s : Song} {host : Nat → Machine → Machine} {m n : Machine} {i : Nat}
  {records : List (List Moment)}

theorem playable (h : Equipped s m) : (Tune.ofSong s).Playable :=
  let ⟨_, haccepted⟩ := h.accepted
  Tune.playable_ofJson haccepted

theorem resident (h : Equipped s m) :
    Resident (library (Tune.ofSong s)) (Tune.ofSong s) m.memory := by
  have hc := carries_library h.playable
  intro c hmem i hi
  exact h.held _ (hc.mem_image (hc.constant_isInfix hmem) hi) fun name hname =>
    hc.constant_ne_state hmem hname hi

theorem stretch {entry : UInt16} {record : List Moment} {depth : Nat} {writes : List Write}
    {reads : List (String × Nat)} (h : Equipped s m)
    (hpassed :
      Stretch (library (Tune.ofSong s)) m.stack depth (m.enter entry) record n writes reads)
    (hconfined : ∀ w ∈ writes, Confined (library (Tune.ofSong s)) stateNames w)
    (hdecimal : n.flags.decimal = m.flags.decimal) : Equipped s n where
  accepted := h.accepted
  held c hmem hfresh := by
    have hc := carries_library h.playable
    have hout := inStack_eq_false (hc.image_bounds hmem).1
    rw [hpassed.memory_outside hout, hc.image_after hconfined hmem hfresh,
      memory_enter m entry hout]
    exact h.held c hmem hfresh
  decimal := hdecimal.trans h.decimal

/-- What a careful host does keeps what a machine holds. -/
theorem leaves (h : Equipped s n) (hcareful : Leaves (library (Tune.ofSong s)) n m) :
    Equipped s m where
  accepted := h.accepted
  held c hmem hfresh := (hcareful.1 c hmem).trans (h.held c hmem hfresh)
  decimal := hcareful.2 h.decimal

/-- A machine that has played is as well equipped as before. -/
theorem session (h : Equipped s m)
    (hcareful : ∀ i n, Leaves (library (Tune.ofSong s)) n (host i n))
    (hplayed : Session (library (Tune.ofSong s)) host m i records n) : Equipped s n := by
  have ht := h.playable
  induction hplayed with
  | setup hcall =>
    obtain ⟨record, n, hcall', hstands, hpassed⟩ := call_init ht h.resident h.decimal
    obtain ⟨rfl, rfl⟩ := hcall.unique hcall'
    exact h.stretch hpassed (confined_setupWrites _ _) hstands.decimal_eq
  | @play j _ _ k _ hbefore hcall ih =>
    have hplays := (hbefore.plays ht h.resident h.decimal hcareful).1.leaves (carries_library ht)
      (hcareful j k)
    obtain ⟨record, n, hcall', hstands, hpassed, -⟩ :=
      call_play ht hplays.resident hplays.decimal hplays.state (valid_playingAfter ht j)
    obtain ⟨rfl, rfl⟩ := hcall.unique hcall'
    exact (ih.leaves (hcareful j k)).stretch hpassed (confined_frameWrites _ _ _) hstands.decimal_eq

end Equipped

/-! ### Playing again -/

/-- Sessions of two hosts on two machines go on for a number of frames, and write the same to the
chip call by call. -/
structure PlayAlike (p : Program) (host host' : Nat → Machine → Machine) (m m' : Machine)
    (frames : Nat) : Prop where
  lasts : (∃ records n, Session p host m frames records n) ∧
    ∃ records n, Session p host' m' frames records n
  writes : ∀ {records records' n n'}, Session p host m frames records n →
    Session p host' m' frames records' n' →
    records.map (fun record => chipWrites (writesOf record)) =
      records'.map fun record => chipWrites (writesOf record)

section Again

variable {s : Song} {host host' : Nat → Machine → Machine} {m m' : Machine}

/-- The song is played alike on all machines that hold its library. -/
theorem Equipped.play_alike (h : Equipped s m) (h' : Equipped s m')
    (hcareful : ∀ i n, Leaves (library (Tune.ofSong s)) n (host i n))
    (hcareful' : ∀ i n, Leaves (library (Tune.ofSong s)) n (host' i n)) (frames : Nat) :
    PlayAlike (library (Tune.ofSong s)) host host' m m' frames where
  lasts := ⟨exists_session h.playable h.resident h.decimal hcareful frames,
    exists_session h'.playable h'.resident h'.decimal hcareful' frames⟩
  writes hsession hsession' :=
    (hsession.plays h.playable h.resident h.decimal hcareful).2.1.trans
      (hsession'.plays h'.playable h'.resident h'.decimal hcareful').2.1.symm

/-- Of two machines that hold the library of an accepted song, whatever their registers, the chip
and the bytes of state, setting up makes the same, and the frames that follow write the same. So a
song that is set up again at any frame is played as it was from the start. -/
theorem library_restarts (h : Equipped s m) (h' : Equipped s m')
    (hcareful : ∀ i n, Leaves (library (Tune.ofSong s)) n (host i n))
    (hcareful' : ∀ i n, Leaves (library (Tune.ofSong s)) n (host' i n)) :
    StartAlike (library (Tune.ofSong s)) m m' ∧
      (∀ frames, PlayAlike (library (Tune.ofSong s)) host host' m m' frames) ∧
      ∀ i records n, Session (library (Tune.ofSong s)) host m i records n →
        StartAlike (library (Tune.ofSong s)) m (host i n) ∧
          ∀ frames, PlayAlike (library (Tune.ofSong s)) host host' m (host i n) frames := by
  refine ⟨start_alike h.playable h.resident h'.resident h.decimal h'.decimal,
    h.play_alike h' hcareful hcareful', fun i records n hsession => ?_⟩
  have hagain := (h.session hcareful hsession).leaves (hcareful i n)
  exact ⟨start_alike h.playable h.resident hagain.resident h.decimal hagain.decimal,
    h.play_alike hagain hcareful hcareful'⟩

end Again

/-! ### A song that is broken off -/

private theorem equipped_loadedMachine : Equipped sampleSong
    (loadedMachine (library (Tune.ofSong sampleSong))) where
  accepted := hosted_sampleSong.accepted
  held c hmem _ := hosted_sampleSong.loaded c hmem
  decimal := rfl

/-- A machine that was broken off: registers and flags, two bytes of state and two registers of the
chip are not as they were when the library was loaded. -/
def brokenOff : Machine where
  a := 0x31
  x := 0x02
  y := 0x17
  stack := 0xE0
  pc := 0xC100
  flags := ⟨true, true, false, true, false, true⟩
  memory := (loadedMachine (library (Tune.ofSong sampleSong))).memory.after
    [⟨0xD418, 0x1F⟩, ⟨0xD40B, 0x11⟩,
      ⟨(library (Tune.ofSong sampleSong)).locate "volume", 0x0F⟩,
      ⟨(library (Tune.ofSong sampleSong)).locate "v1_timer", 0x00⟩]

private theorem equipped_brokenOff : Equipped sampleSong brokenOff where
  accepted := hosted_sampleSong.accepted
  held c hmem hfresh := by
    have hc := carries_library (Tune.playable_ofJson ofJson_sampleSong)
    have hconfined : ∀ w ∈ [(⟨0xD418, 0x1F⟩ : Write), ⟨0xD40B, 0x11⟩,
        ⟨(library (Tune.ofSong sampleSong)).locate "volume", 0x0F⟩,
        ⟨(library (Tune.ofSong sampleSong)).locate "v1_timer", 0x00⟩],
        Confined (library (Tune.ofSong sampleSong)) stateNames w := by
      simp only [List.forall_mem_cons, List.not_mem_nil, false_implies, implies_true, and_true]
      exact ⟨.inl rfl, .inl rfl, .inr ⟨"volume", by decide, rfl⟩,
        .inr ⟨"v1_timer", by decide, rfl⟩⟩
    exact (hc.image_after hconfined hmem hfresh).trans (hosted_sampleSong.loaded c hmem)
  decimal := rfl

theorem library_restarts_brokenOff :
    (Equipped sampleSong (loadedMachine (library (Tune.ofSong sampleSong))) ∧
        Equipped sampleSong brokenOff) ∧
      StartAlike (library (Tune.ofSong sampleSong))
        (loadedMachine (library (Tune.ofSong sampleSong))) brokenOff ∧
      PlayAlike (library (Tune.ofSong sampleSong)) (fun _ k => k) (fun _ k => k)
        (loadedMachine (library (Tune.ofSong sampleSong))) brokenOff 100 :=
  have hidle : ∀ (_ : Nat) (n : Machine), Leaves (library (Tune.ofSong sampleSong)) n n :=
    fun _ _ => ⟨fun _ _ => rfl, fun h => h⟩
  have halike := library_restarts equipped_loadedMachine equipped_brokenOff hidle hidle
  ⟨⟨equipped_loadedMachine, equipped_brokenOff⟩, halike.1, halike.2.1 100⟩

end SidTune.Player
