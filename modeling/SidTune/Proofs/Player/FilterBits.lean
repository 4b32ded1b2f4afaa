import SidTune.Proofs.Chip.SharedFilter
import SidTune.Proofs.Player.Performance
import SidTune.Proofs.Player.Voices

/-!
# The filter in its registers

Register bytes have no room to spare: the cutoff is cut to eleven bits, the resonance is shifted out
of a byte, and the mode shares its byte with the volume. For at most four wishes with 11-bit cutoffs
the merged setting fits, so it can be read off its bytes again, and whatever volume a frame writes,
the byte has the mode bits of the song.

## Main definitions

* `SidTune.Chip.FilterSetting.Kept`: the setting is told by its register bytes.
* `SidTune.Player.ModeKept`: all volumes that are written carry the mode bits of a setting.

## Main results

* `SidTune.Chip.FilterSetting.kept_merge`: the merged setting is told by its register bytes.
* `SidTune.Player.modeKept_scoreWrites`: frames write volumes with the mode bits.
* `SidTune.Player.filter_kept`: both hold of every accepted song, in both layouts of the player.
-/

namespace SidTune

namespace Chip.FilterSetting

/-! ### Bytes of two parts -/

/-- Eleven bits can be read off the bytes of their high eight and their low three. -/
theorem cutoff_eq {s : FilterSetting} (h : s.cutoff.toNat ≤ cutoffLimit) :
    8 * s.cutoffHigh.toNat + s.cutoffLow.toNat = s.cutoff.toNat ∧ s.cutoffLow.toNat < 8 := by
  rw [cutoffLimit] at h
  have hlow : s.cutoffLow.toNat = s.cutoff.toNat % 8 := by
    simp only [cutoffLow, UInt16.toNat_toUInt8, UInt16.toNat_and, UInt16.reduceToNat]
    rw [show 7 = 2 ^ 3 - 1 from rfl, Nat.and_two_pow_sub_one_eq_mod]
    omega
  have hhigh : s.cutoffHigh.toNat = s.cutoff.toNat / 8 := by
    simp only [cutoffHigh, UInt16.toNat_toUInt8, UInt16.toNat_shiftRight, UInt16.reduceToNat,
      Nat.reduceMod, Nat.shiftRight_eq_div_pow, Nat.reducePow]
    omega
  omega

/-- Two nibbles can be read off the byte of resonance and routing. -/
theorem toNat_resonanceByte {s : FilterSetting} (hresonance : s.resonance.toNat < 16)
    (hrouting : s.routing.toNat < 16) :
    s.resonanceByte.toNat = 16 * s.resonance.toNat + s.routing.toNat := by
  have hbyte {b : UInt8} (h : b.toNat < 16) : b = Nibble.byte ⟨b.toNat, h⟩ := by
    rw [← UInt8.toNat_inj, Nibble.toNat_byte]
  have hpacked_eq : s.resonanceByte = packed ⟨_, hresonance⟩ ⟨_, hrouting⟩ := by
    rw [resonanceByte, packed, ← hbyte hresonance, ← hbyte hrouting]
  rw [hpacked_eq, toNat_packed]

private theorem or_and_mask (a b mask : UInt8) : (a ||| b) &&& mask = a &&& mask ||| b &&& mask :=
  UInt8.toBitVec_inj.1 (BitVec.and_or_distrib_right ..)

private theorem and_mask_eq {b own : UInt8} (h : b &&& own = b) (mask : UInt8) :
    b &&& mask = b &&& (own &&& mask) := by
  rw [← UInt8.and_assoc, h]

/-- Mode bits and volume can be read off their union, and the highest bit stays clear. -/
theorem volume_masks {mode volume : UInt8} (hm : mode &&& 0x70 = mode) (hv : volume.toNat ≤ 15) :
    (mode ||| volume) &&& 0x0F = volume ∧ (mode ||| volume) &&& 0xF0 = mode ∧
      (mode ||| volume) &&& 0x80 = 0 := by
  have hv : volume &&& 0x0F = volume := by
    rw [← UInt8.toNat_inj, UInt8.toNat_and]
    exact Nat.and_two_pow_sub_one_of_lt_two_pow (n := 4) (Nat.lt_succ_of_le hv)
  have hlow : mode &&& 0x0F = 0 := (and_mask_eq hm 0x0F).trans UInt8.and_zero
  have hhigh : mode &&& 0xF0 = mode := (and_mask_eq hm 0xF0).trans hm
  have htop : mode &&& 0x80 = 0 := (and_mask_eq hm 0x80).trans UInt8.and_zero
  have hhigh' : volume &&& 0xF0 = 0 := (and_mask_eq hv 0xF0).trans UInt8.and_zero
  have htop' : volume &&& 0x80 = 0 := (and_mask_eq hv 0x80).trans UInt8.and_zero
  rw [or_and_mask, or_and_mask, or_and_mask, hlow, hv, hhigh, hhigh', htop, htop']
  exact ⟨UInt8.zero_or, UInt8.or_zero, UInt8.or_zero⟩

/-! ### What merging gives -/

section Merging

variable {wishes : List FilterWish}

theorem isOn_iff {k : FilterKind} : k.isOn = true ↔ k ≠ .none := by
  cases k <;> decide

private theorem resonance_lt (wishes : List FilterWish) : (merge wishes).resonance.toNat < 16 := by
  rw [toNat_resonance, List.foldl_max, Nat.zero_max]
  cases hfound : ((active wishes).map fun w => w.resonance.val).max? with
  | none => exact Nat.zero_lt_succ _
  | some highest =>
    obtain ⟨w, -, rfl⟩ := List.mem_map.1 (List.max?_mem hfound)
    exact w.resonance.isLt

private theorem routing_lt (hfew : wishes.length ≤ 4) : (merge wishes).routing.toNat < 16 := by
  refine Nat.lt_pow_two_of_testBit (n := 4) _ fun i hhigh => Bool.eq_false_iff.2 fun hset => ?_
  obtain ⟨w, hthere, -⟩ := (testBit_routing wishes (by omega) i).1 hset
  obtain ⟨hinside, -⟩ := List.getElem?_eq_some_iff.1 hthere
  omega

private theorem mode_and_mask (wishes : List FilterWish) :
    (merge wishes).mode &&& 0x70 = (merge wishes).mode := by
  rw [← UInt8.toNat_inj, UInt8.toNat_and]
  refine Nat.eq_of_testBit_eq fun i => ?_
  rw [Nat.testBit_and, Bool.and_eq_left_iff_imp, testBit_mode, List.any_eq_true]
  rintro ⟨w, -, hasks⟩
  simp only [FilterKind.asksFor, Bool.or_eq_true, Bool.and_eq_true, decide_eq_true_eq] at hasks
  obtain (⟨-, rfl⟩ | ⟨-, rfl⟩) | ⟨-, rfl⟩ := hasks <;> rfl

/-- A mode bit is set exactly if some wish is not for none. -/
theorem mode_ne_zero_iff : (merge wishes).mode ≠ 0 ↔ ∃ w ∈ wishes, w.kind ≠ .none := by
  constructor
  · intro hset
    by_contra! hoff
    have hnothing : active wishes = [] := List.filter_eq_nil_iff.2 fun w hmem => by
      rw [hoff w hmem]
      decide
    refine hset (UInt8.toNat_inj.1 (Nat.eq_of_testBit_eq fun i => ?_))
    rw [testBit_mode, hnothing]
    simp
  · rintro ⟨w, hmem, hon⟩ hzero
    have hon := isOn_iff.2 hon
    have hasks : ∃ i, w.kind.asksFor i = true := by
      rw [FilterKind.isOn_eq, Bool.or_eq_true, Bool.or_eq_true] at hon
      obtain (hlow | hband) | hhigh := hon
      · exact ⟨4, by simp [FilterKind.asksFor, hlow]⟩
      · exact ⟨5, by simp [FilterKind.asksFor, hband]⟩
      · exact ⟨6, by simp [FilterKind.asksFor, hhigh]⟩
    obtain ⟨i, hasks⟩ := hasks
    have hbit : (merge wishes).mode.toNat.testBit i = true := by
      rw [testBit_mode, List.any_eq_true]
      exact ⟨w, List.mem_filter.2 ⟨hmem, hon⟩, hasks⟩
    simp [hzero] at hbit

private theorem inUse_merge_iff (hfew : wishes.length ≤ 8) :
    (merge wishes).inUse = true ↔ ∃ w ∈ wishes, w.kind ≠ .none := by
  rw [inUse, bne_iff_ne]
  constructor
  · intro hset
    have hset : (merge wishes).routing.toNat ≠ 0 := fun hzero => hset (UInt8.toNat_inj.1 hzero)
    obtain ⟨i, hbit⟩ := Nat.exists_testBit_of_ne_zero hset
    obtain ⟨w, hthere, hon⟩ := (testBit_routing wishes hfew i).1 hbit
    exact ⟨w, List.mem_of_getElem? hthere, isOn_iff.1 hon⟩
  · rintro ⟨w, hmem, hon⟩ hzero
    obtain ⟨i, hthere⟩ := List.getElem?_of_mem hmem
    have hbit := (testBit_routing wishes hfew i).2 ⟨w, hthere, isOn_iff.2 hon⟩
    simp [hzero] at hbit

/-- A setting for a list of wishes is told by its register bytes. -/
structure Kept (wishes : List FilterWish) (s : FilterSetting) : Prop where
  cutoff : 8 * s.cutoffHigh.toNat + s.cutoffLow.toNat = s.cutoff.toNat
  cutoffLow : s.cutoffLow.toNat < 8
  resonance : s.resonanceByte.toNat / 16 = s.resonance.toNat
  routing : s.resonanceByte.toNat % 16 = s.routing.toNat
  /-- The mode is all of its byte, and takes no bits but three. -/
  mode : s.modeByte = s.mode ∧ s.modeByte &&& 0x70 = s.modeByte
  /-- With a volume in its byte, volume and mode are told, and the third voice is not muted. -/
  volume {v : UInt8} (h : v.toNat ≤ 15) : (s.modeByte ||| v) &&& 0x0F = v ∧
    (s.modeByte ||| v) &&& 0xF0 = s.mode ∧ (s.modeByte ||| v) &&& 0x80 = 0
  inUse : s.inUse = true ↔ s.modeByte ≠ 0
  asked : s.modeByte ≠ 0 ↔ ∃ w ∈ wishes, w.kind ≠ .none

/-- The setting for at most four wishes with 11-bit cutoffs is told by its register bytes. -/
theorem kept_merge (hfew : wishes.length ≤ 4) (h : ∀ w ∈ wishes, w.cutoff.toNat ≤ cutoffLimit) :
    Kept wishes (merge wishes) := by
  have hcutoff : (merge wishes).cutoff.toNat ≤ cutoffLimit := by
    rw [toNat_cutoff]
    exact meanCutoff_le fun w hmem => h w (List.mem_of_mem_filter hmem)
  obtain ⟨hcutoff, hcutoffLow⟩ := cutoff_eq hcutoff
  have hrouting_lt := routing_lt hfew
  have hshared := toNat_resonanceByte (resonance_lt wishes) hrouting_lt
  exact
    { cutoff := hcutoff
      cutoffLow := hcutoffLow
      resonance := by omega
      routing := by omega
      mode := ⟨rfl, mode_and_mask wishes⟩
      volume := volume_masks (mode_and_mask wishes)
      inUse := (inUse_merge_iff (by omega)).trans mode_ne_zero_iff.symm
      asked := mode_ne_zero_iff }

end Merging

end Chip.FilterSetting

namespace Player

open Processor

/-! ### What frames write beside the volume -/

/-- All values that are written to the register of mode and volume have the mode bits of a setting
above the four bits of the volume. -/
def ModeKept (s : Chip.FilterSetting) (writes : List Write) : Prop :=
  ∀ w ∈ writes, w.address = 0xD418 → w.value &&& 0xF0 = s.mode

/-- Only what is written to the chip counts. -/
theorem modeKept_chipWrites {s : Chip.FilterSetting} {writes : List Write} :
    ModeKept s (chipWrites writes) ↔ ModeKept s writes := by
  have hchip {w : Write} (h : w.address = 0xD418) : isChip w.address = true := by
    rw [h]
    rfl
  exact ⟨fun hkept w hmem h => hkept w (List.mem_filter.2 ⟨hmem, hchip h⟩) h,
    fun hkept w hmem => hkept w (List.mem_of_mem_filter hmem)⟩

section Frames

variable {t : Tune}

/-- A frame writes the mode bits with its volume. -/
theorem modeKept_frame (h : t.filter.mode &&& 0x70 = t.filter.mode) (q : Playing) :
    ModeKept t.filter (q.frame t).1 := by
  have hvoice {i : Nat} (hi : i < 3) {track : Track} {head : Head} :
      ModeKept t.filter (head.tick t i track).1 := by
    intro w hmem hsame
    obtain ⟨offset, hle, haddress⟩ := address_tick hmem
    have hplace := toNat_register hi hle
    rw [← haddress, hsame] at hplace
    have hnumber : (0xD418 : UInt16).toNat = 0xD418 := rfl
    omega
  intro w hmem hsame
  simp only [Playing.frame, List.mem_cons, List.mem_append] at hmem
  rcases hmem with rfl | (hmem | hmem) | hmem
  · have hlow : (UInt8.ofNat (min 15 (q.volume + 1))).toNat ≤ 15 := by
      rw [UInt8.toNat_ofNat']
      omega
    exact (Chip.FilterSetting.volume_masks h hlow).2.1
  · exact hvoice (by decide) w hmem hsame
  · exact hvoice (by decide) w hmem hsame
  · exact hvoice (by decide) w hmem hsame

/-- All frames of the score write to the register of mode and volume, and keep the mode bits. -/
theorem modeKept_scoreWrites (h : t.filter.mode &&& 0x70 = t.filter.mode) {n : Nat}
    {writes : List Write} (hmem : writes ∈ (scoreWrites t n).tail) :
    (∃ w ∈ writes, w.address = 0xD418) ∧ ModeKept t.filter writes := by
  obtain ⟨i, -, rfl⟩ := List.mem_map.1 hmem
  exact ⟨⟨_, List.mem_cons_self, rfl⟩, modeKept_frame h _⟩

/-- All frames of a session write to the register of mode and volume, and keep the mode bits. -/
theorem Session.modeKept (ht : t.Playable) (h : t.filter.mode &&& 0x70 = t.filter.mode)
    {host : Nat → Machine → Machine} {m n : Machine} {i : Nat} {records : List (List Moment)}
    (hr : Resident (library t) t m.memory) (hdecimal : m.flags.decimal = false)
    (hcareful : ∀ i n, Leaves (library t) n (host i n))
    (hsession : Session (library t) host m i records n) :
    ∀ record ∈ records.tail, (∃ w ∈ writesOf record, w.address = 0xD418) ∧
      ModeKept t.filter (writesOf record) := by
  intro record hmem
  have hscore := congrArg List.tail (hsession.plays ht hr hdecimal hcareful).2.1
  rw [← List.map_tail] at hscore
  obtain ⟨⟨w, hwritten, hsame⟩, hkept⟩ := modeKept_scoreWrites h (hscore ▸ List.mem_map_of_mem hmem)
  exact ⟨⟨w, List.mem_of_mem_filter hwritten, hsame⟩, modeKept_chipWrites.1 hkept⟩

/-- All frames of a performance keep the mode bits, one that is not over yet among them. -/
theorem Sound.modeKept (h : t.filter.mode &&& 0x70 = t.filter.mode) {first k : Machine}
    {past : List (List Moment)} {now : List Moment} (hsound : Sound t first past now k) :
    ∀ record ∈ (past ++ [now]).tail, ModeKept t.filter (writesOf record) := by
  obtain ⟨calm, more, n, -, hscore, -⟩ := hsound
  have hscore := congrArg List.tail hscore
  rw [← List.map_tail] at hscore
  have hkept : ∀ writes ∈ (allWrites past now more).tail, ModeKept t.filter writes :=
    fun writes hmem => modeKept_chipWrites.1
      (modeKept_scoreWrites h (hscore ▸ List.mem_map_of_mem hmem)).2
  -- Before the first interrupt there is no frame; after it, `more` is left of the last one.
  cases past with
  | nil => simp
  | cons setup frames =>
    simp only [allWrites, List.map_cons, List.cons_append, List.tail_cons, List.forall_mem_append,
      List.forall_mem_map, List.forall_mem_singleton] at hkept ⊢
    exact ⟨hkept.1, fun w hmem => hkept.2 w (List.mem_append_left _ hmem)⟩

end Frames

/-! ### Accepted songs -/

private theorem cutoff_le_of_ofJson {document : Json} {s : Song}
    (h : Song.ofJson document = .ok s) :
    ∀ w ∈ s.voices.toList.map Voice.filter, w.cutoff.toNat ≤ cutoffLimit :=
  List.forall_mem_map.2 fun v hmem => ((Song.wellFormed_of_ofJson h).voices v hmem).cutoff_le

/-- **The filter in its registers.** For at most four wishes with 11-bit cutoffs the setting is told
by its register bytes. So it is for every accepted song, and every frame of either layout of its
player writes the mode bits of the song whenever it writes to their register; the library does so
in every frame. -/
theorem filter_kept :
    (∀ wishes : List FilterWish, wishes.length ≤ 4 → (∀ w ∈ wishes, w.cutoff.toNat ≤ 2047) →
      (Chip.FilterSetting.merge wishes).Kept wishes) ∧
    ∀ (document : Json) (s : Song), Song.ofJson document = .ok s →
      (Tune.ofSong s).filter.Kept (s.voices.toList.map Voice.filter) ∧
      (∀ host m, Hosted s host m → ∀ frames records n,
        Session (library (Tune.ofSong s)) host m frames records n →
          ∀ record ∈ records.tail, (∃ w ∈ writesOf record, w.address = 0xD418) ∧
            ModeKept (Tune.ofSong s).filter (writesOf record)) ∧
      ∀ m, Booted s m → ∀ past now k,
        Performance (standalone (Tune.ofSong s)) m past now k →
          ∀ record ∈ (past ++ [now]).tail, ModeKept (Tune.ofSong s).filter (writesOf record) := by
  refine ⟨fun _ hfew hfits => Chip.FilterSetting.kept_merge hfew hfits,
    fun document s haccepted => ?_⟩
  have hkept : (Tune.ofSong s).filter.Kept (s.voices.toList.map Voice.filter) :=
    Chip.FilterSetting.kept_merge (by simp) (cutoff_le_of_ofJson haccepted)
  have hbits : (Tune.ofSong s).filter.mode &&& 0x70 = (Tune.ofSong s).filter.mode := hkept.mode.2
  refine ⟨hkept, fun host m hhosted frames records n hsession => ?_,
    fun m hbooted past now k hperformance => ?_⟩
  · exact hsession.modeKept hhosted.playable hbits hhosted.resident hhosted.decimal hhosted.careful
  · have ht := hbooted.playable
    obtain ⟨record, first, hboots, hidles, hscore⟩ :=
      exists_boots ht hbooted.resident hbooted.decimal hbooted.pc_eq
    exact (hperformance.sound ht hboots hidles hscore).modeKept hbits

/-- Four wishes, three of them with the largest cutoff and the highest resonance. -/
def loudWishes : List FilterWish :=
  [⟨.highBand, 2047, Chip.FilterSetting.highestNibble⟩,
    ⟨.lowPass, 2047, Chip.FilterSetting.highestNibble⟩,
    ⟨.none, 2047, Chip.FilterSetting.highestNibble⟩, ⟨.lowBand, 2046, middleNibble⟩]

theorem filter_kept_loudWishes :
    (Chip.FilterSetting.merge loudWishes).Kept loudWishes ∧
      Song.ofJson sampleSong.toJson = .ok sampleSong ∧
      (Tune.ofSong sampleSong).filter.Kept (sampleSong.voices.toList.map Voice.filter) ∧
      (Hosted sampleSong (fun _ k => k) (loadedMachine (library (Tune.ofSong sampleSong))) ∧
        ∃ records n, Session (library (Tune.ofSong sampleSong)) (fun _ k => k)
            (loadedMachine (library (Tune.ofSong sampleSong))) 2 records n ∧
          ∀ record ∈ records.tail, (∃ w ∈ writesOf record, w.address = 0xD418) ∧
            ModeKept (Tune.ofSong sampleSong).filter (writesOf record)) ∧
      Booted sampleSong (startedMachine (Tune.ofSong sampleSong)) ∧
        ∀ past now k, Performance (standalone (Tune.ofSong sampleSong))
            (startedMachine (Tune.ofSong sampleSong)) past now k →
          ∀ record ∈ (past ++ [now]).tail,
            ModeKept (Tune.ofSong sampleSong).filter (writesOf record) := by
  obtain ⟨hkept, hsessions, hperformances⟩ := filter_kept.2 _ sampleSong ofJson_sampleSong
  have hhosted := hosted_sampleSong
  obtain ⟨records, n, hsession⟩ :=
    exists_session hhosted.playable hhosted.resident hhosted.decimal hhosted.careful 2
  exact ⟨filter_kept.1 loudWishes (by decide) (by decide), ofJson_sampleSong, hkept,
    ⟨hhosted, records, n, hsession, hsessions _ _ hhosted _ _ _ hsession⟩,
    booted_sampleSong, hperformances _ booted_sampleSong⟩

end Player

end SidTune
