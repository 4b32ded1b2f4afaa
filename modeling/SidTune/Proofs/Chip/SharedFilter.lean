import Mathlib.Algebra.Group.Action.Defs
import Mathlib.Algebra.Order.BigOperators.Group.List
import Mathlib.Data.Fintype.Perm
import Mathlib.Data.List.OfFn
import SidTune.Chip.Registers
import SidTune.Proofs.Rounding

/-!
# Merging wishes

The setting of the shared filter is told by the wishes that ask for filtering, and by their order
only as far as the routing bits have to be in voice order. A wish for none is not heard, whatever
cutoff and resonance come with it.

## Main definitions

* `SidTune.FilterKind.asksFor`: the mode bits that a kind of filter asks for.
* `SidTune.Chip.FilterSetting.active`: the wishes that ask for filtering.
* `SidTune.Chip.FilterSetting.heard`: what is heard of a wish.
* `SidTune.Chip.FilterSetting.Merged`: what the setting for a list of wishes is.
* `SidTune.Chip.FilterSetting.rearranged`: wishes in another order.

## Main results

* `SidTune.Chip.FilterSetting.merged_merge`: merging gives that setting.
* `SidTune.Chip.FilterSetting.merge_congr`: what is not heard has no influence.
* `SidTune.Chip.FilterSetting.merge_order_free`: the order of wishes has no influence but on the
  order of routing bits.
-/

namespace SidTune

/-- Whether a kind of filter asks for the output with a mode bit: the low-pass output has bit four,
the band-pass output bit five, and the high-pass output bit six. -/
def FilterKind.asksFor (k : FilterKind) (bit : Nat) : Bool :=
  k.passesLow && decide (4 = bit) || k.passesBand && decide (5 = bit)
    || k.passesHigh && decide (6 = bit)

namespace Chip.FilterSetting

/-! ### Bits -/

theorem testBit_foldl_or (bytes : List UInt8) (start : UInt8) (i : Nat) :
    (bytes.foldl (· ||| ·) start).toNat.testBit i =
      (start.toNat.testBit i || bytes.any fun b => b.toNat.testBit i) := by
  induction bytes generalizing start with
  | nil => simp
  | cons b rest ih =>
    rw [List.foldl_cons, ih, UInt8.toNat_or, Nat.testBit_or, List.any_cons, Bool.or_assoc]

theorem testBit_ite {b : UInt8} {j : Nat} (h : b.toNat = 2 ^ j) (c : Bool) (i : Nat) :
    (if c then b else 0).toNat.testBit i = (c && decide (j = i)) := by
  cases c with
  | false => simp
  | true => simp [h, Nat.testBit_two_pow]

private theorem testBit_modeBits (k : FilterKind) (i : Nat) :
    (modeBits k).toNat.testBit i = k.asksFor i := by
  rw [modeBits, UInt8.toNat_or, UInt8.toNat_or, Nat.testBit_or, Nat.testBit_or,
    testBit_ite (j := 4) rfl, testBit_ite (j := 5) rfl, testBit_ite (j := 6) rfl,
    FilterKind.asksFor]

theorem testBit_routingBit {voice : Nat} (h : voice < 8) (w : FilterWish) (i : Nat) :
    (routingBit voice w).toNat.testBit i = (w.kind.isOn && decide (voice = i)) := by
  refine testBit_ite ?_ w.kind.isOn i
  have hfits : voice % 2 ^ 8 % 8 = voice := by omega
  simp only [UInt8.toNat_shiftLeft, UInt8.toNat_ofNat', UInt8.reduceToNat, hfits, Nat.one_shiftLeft]
  exact Nat.mod_eq_of_lt (Nat.pow_lt_pow_right (by decide) h)

/-! ### The wishes that count -/

/-- The wishes that ask for filtering. -/
def active (wishes : List FilterWish) : List FilterWish :=
  wishes.filter fun w => w.kind.isOn

/-- What is heard of a wish: nothing if it is for none. -/
def heard (w : FilterWish) : Option FilterWish :=
  if w.kind.isOn then some w else none

theorem active_eq_filterMap (wishes : List FilterWish) :
    active wishes = (wishes.map heard).filterMap id := by
  rw [List.filterMap_map, active, ← List.filterMap_eq_filter]
  rfl

/-- What is not heard has no influence. -/
theorem merge_congr {wishes wishes' : List FilterWish} (h : wishes.map heard = wishes'.map heard) :
    merge wishes = merge wishes' := by
  have hactives : active wishes = active wishes' := by
    rw [active_eq_filterMap, active_eq_filterMap, h]
  have hrouting : wishes.mapIdx routingBit = wishes'.mapIdx routingBit := by
    refine List.ext_getElem? fun i => ?_
    have hsame : wishes[i]?.map heard = wishes'[i]?.map heard := by
      rw [← List.getElem?_map, h, List.getElem?_map]
    have hbit : routingBit i = (fun w => if w.isSome then 1 <<< UInt8.ofNat i else 0) ∘ heard := by
      funext w
      cases hon : w.kind.isOn <;> simp [routingBit, heard, hon]
    rw [List.getElem?_mapIdx, List.getElem?_mapIdx, hbit, ← Option.map_map, hsame, Option.map_map]
  simp only [active] at hactives
  simp only [merge, hactives, hrouting]

/-! ### The fields of the setting -/

section Fields

variable (wishes : List FilterWish)

theorem testBit_mode (i : Nat) : (merge wishes).mode.toNat.testBit i =
    (active wishes).any fun w => w.kind.asksFor i := by
  simp only [merge, testBit_foldl_or, UInt8.toNat_zero, Nat.zero_testBit, Bool.false_or,
    List.any_map, Function.comp_def, testBit_modeBits, active]

theorem testBit_routing (hfew : wishes.length ≤ 8) (i : Nat) :
    (merge wishes).routing.toNat.testBit i = true ↔
      ∃ w, wishes[i]? = some w ∧ w.kind.isOn = true := by
  simp only [merge, testBit_foldl_or, UInt8.toNat_zero, Nat.zero_testBit, Bool.false_or,
    List.any_eq_true, List.mem_mapIdx]
  constructor
  · rintro ⟨-, ⟨voice, h, rfl⟩, hbit⟩
    rw [testBit_routingBit (by omega), Bool.and_eq_true, decide_eq_true_eq] at hbit
    obtain ⟨hon, rfl⟩ := hbit
    exact ⟨_, List.getElem?_eq_getElem h, hon⟩
  · rintro ⟨w, hthere, hon⟩
    obtain ⟨h, rfl⟩ := List.getElem?_eq_some_iff.1 hthere
    exact ⟨_, ⟨i, h, rfl⟩, by rw [testBit_routingBit (by omega), hon]; simp⟩

theorem toNat_foldl_max (bytes : List UInt8) (start : UInt8) :
    (bytes.foldl max start).toNat = (bytes.map UInt8.toNat).foldl max start.toNat := by
  induction bytes generalizing start with
  | nil => rfl
  | cons b rest ih => rw [List.foldl_cons, ih, UInt8.toNat_max, List.map_cons, List.foldl_cons]

theorem toNat_resonance : (merge wishes).resonance.toNat =
    ((active wishes).map fun w => w.resonance.val).foldl max 0 := by
  simp only [merge, toNat_foldl_max, List.map_map, Function.comp_def, Nibble.toNat_byte,
    UInt8.toNat_zero, active]

/-- The sum of the cutoffs. -/
def cutoffSum : Nat :=
  (wishes.map fun w => w.cutoff.toNat).sum

theorem meanCutoff_eq :
    meanCutoff wishes = roundedQuotient (cutoffSum wishes) wishes.length := by
  rw [meanCutoff, cutoffSum, List.sum_eq_foldr, List.foldr_map]

variable {wishes}

theorem meanCutoff_le {high : Nat} (h : ∀ w ∈ wishes, w.cutoff.toNat ≤ high) :
    meanCutoff wishes ≤ high := by
  by_cases hnone : wishes = []
  · subst hnone
    exact Nat.zero_le _
  have hpos : 0 < wishes.length := List.length_pos_iff.2 hnone
  have hsum : cutoffSum wishes ≤ wishes.length * high := by
    have := List.sum_le_card_nsmul (wishes.map fun w => w.cutoff.toNat) high
      (List.forall_mem_map.2 h)
    rwa [List.length_map, smul_eq_mul] at this
  rw [meanCutoff_eq, roundedQuotient_le_iff hpos]
  calc 2 * cutoffSum wishes ≤ 2 * (wishes.length * high) := Nat.mul_le_mul_left 2 hsum
    _ = 2 * high * wishes.length := by ring
    _ < (2 * high + 1) * wishes.length := Nat.mul_lt_mul_of_pos_right (Nat.lt_succ_self _) hpos

private theorem le_meanCutoff {low : Nat} (hsome : wishes ≠ [])
    (h : ∀ w ∈ wishes, low ≤ w.cutoff.toNat) :
    low ≤ meanCutoff wishes := by
  have hpos : 0 < wishes.length := List.length_pos_iff.2 hsome
  have hsum : wishes.length * low ≤ cutoffSum wishes := by
    have := List.card_nsmul_le_sum (wishes.map fun w => w.cutoff.toNat) low
      (List.forall_mem_map.2 h)
    rwa [List.length_map, smul_eq_mul] at this
  rw [meanCutoff_eq, roundedQuotient, Nat.le_div_iff_mul_le (by omega)]
  calc low * (2 * wishes.length) = 2 * (wishes.length * low) := by ring
    _ ≤ 2 * cutoffSum wishes := Nat.mul_le_mul_left 2 hsum
    _ ≤ 2 * cutoffSum wishes + wishes.length := Nat.le_add_right ..

variable (wishes)

theorem toNat_cutoff : (merge wishes).cutoff.toNat = meanCutoff (active wishes) := by
  have hbound : meanCutoff (active wishes) ≤ 2 ^ 16 - 1 :=
    meanCutoff_le fun w _ => Nat.le_pred_of_lt w.cutoff.toNat_lt
  exact Nat.mod_eq_of_lt (Nat.lt_of_le_pred (by decide) hbound)

private theorem cutoffSum_lt (hfew : wishes.length ≤ 8) : cutoffSum (active wishes) < 2 ^ 32 := by
  have heach : ∀ x ∈ (active wishes).map fun w => w.cutoff.toNat, x ≤ 2 ^ 16 :=
    List.forall_mem_map.2 fun w _ => w.cutoff.toNat_lt.le
  have hsum := List.sum_le_card_nsmul _ _ heach
  have hfewer : (active wishes).length ≤ wishes.length := List.length_filter_le ..
  rw [List.length_map, smul_eq_mul] at hsum
  rw [cutoffSum]
  omega

end Fields

/-! ### Merging -/

/-- What the setting for a list of wishes is. -/
structure Merged (wishes : List FilterWish) (s : FilterSetting) : Prop where
  /-- The mode bits are those of the outputs that are asked for. -/
  mode (i : Nat) : s.mode.toNat.testBit i = true ↔
    ∃ w ∈ active wishes, w.kind.asksFor i = true
  /-- The resonance is the highest that is asked for, and zero if there is none. -/
  resonance : s.resonance.toNat = ((active wishes).map fun w => w.resonance.val).max?.getD 0
  /-- A voice passes through the filter exactly if it asks for filtering. -/
  routing (i : Nat) : s.routing.toNat.testBit i = true ↔
    ∃ w, wishes[i]? = some w ∧ w.kind.isOn = true
  /-- The cutoff is the mean, a half rounded upwards, and zero if there is none. -/
  cutoff : s.cutoff.toNat = if active wishes = [] then 0 else
    (2 * cutoffSum (active wishes) + (active wishes).length) / (2 * (active wishes).length)
  /-- The cutoff is within the bounds of those that are asked for. -/
  between {low high : Nat} (some : active wishes ≠ [])
    (h : ∀ w ∈ active wishes, low ≤ w.cutoff.toNat ∧ w.cutoff.toNat ≤ high) :
    low ≤ s.cutoff.toNat ∧ s.cutoff.toNat ≤ high
  /-- The cutoff is also what the mean becomes that is computed in binary64 and then rounded, so
  nothing is lost when that is put into 16 bits. -/
  double (some : active wishes ≠ []) :
    (∃ d, IsNearestDouble (cutoffSum (active wishes) / (active wishes).length) d) ∧
      ∀ d, IsNearestDouble (cutoffSum (active wishes) / (active wishes).length) d →
        round d = s.cutoff.toNat

/-- Merging gives the setting for a list of wishes. -/
theorem merged_merge {wishes : List FilterWish} (hfew : wishes.length ≤ 8) :
    Merged wishes (merge wishes) where
  mode i := by rw [testBit_mode, List.any_eq_true]
  resonance := by rw [toNat_resonance, List.foldl_max, Nat.zero_max]
  routing := testBit_routing wishes hfew
  cutoff := by
    rw [toNat_cutoff]
    split
    · next hnone => rw [hnone, meanCutoff_nil]
    · exact meanCutoff_eq _
  between hsome h := by
    rw [toNat_cutoff]
    exact ⟨le_meanCutoff hsome fun w hw => (h w hw).1, meanCutoff_le fun w hw => (h w hw).2⟩
  double hsome := by
    have hfewer : (active wishes).length ≤ wishes.length := List.length_filter_le ..
    refine ⟨exists_isNearestDouble _, fun d h => ?_⟩
    rw [toNat_cutoff, meanCutoff_eq]
    exact round_of_isNearestDouble (List.length_pos_iff.2 hsome) (by omega)
      (cutoffSum_lt wishes hfew) h

/-! ### Order -/

/-- Wishes in another order. -/
def rearranged (wishes : List FilterWish) (order : Equiv.Perm (Fin wishes.length)) :
    List FilterWish :=
  List.ofFn fun i => wishes[order i]

theorem rearranged_perm (wishes : List FilterWish) (order : Equiv.Perm (Fin wishes.length)) :
    (rearranged wishes order).Perm wishes := by
  have hperm := order.ofFn_comp_perm wishes.get
  rwa [List.ofFn_get] at hperm

/-- Lists of wishes that differ in order have settings that differ in routing at most. -/
theorem merge_perm {wishes wishes' : List FilterWish} (h : wishes.Perm wishes') :
    (merge wishes).mode = (merge wishes').mode ∧
      (merge wishes).resonance = (merge wishes').resonance ∧
      (merge wishes).cutoff = (merge wishes').cutoff := by
  have hactives : (active wishes).Perm (active wishes') := h.filter _
  refine ⟨(hactives.map _).foldl_eq 0, ?_, ?_⟩
  · rw [← UInt8.toNat_inj, toNat_resonance, toNat_resonance, (hactives.map _).foldl_eq 0]
  · rw [← UInt16.toNat_inj, toNat_cutoff, toNat_cutoff, meanCutoff_eq, meanCutoff_eq,
      hactives.length_eq, cutoffSum, (hactives.map _).sum_nat, cutoffSum]

/-- In another order the voices have their routing bits in that order. -/
theorem testBit_routing_rearranged {wishes : List FilterWish} (hfew : wishes.length ≤ 8)
    (order : Equiv.Perm (Fin wishes.length)) (i : Fin wishes.length) :
    (merge (rearranged wishes order)).routing.toNat.testBit i =
      (merge wishes).routing.toNat.testBit (order i) := by
  have hlength : (rearranged wishes order).length = wishes.length := List.length_ofFn
  have hthere : (rearranged wishes order)[i.val]? = wishes[(order i).val]? := by
    rw [rearranged, List.getElem?_ofFn, dif_pos i.isLt, List.getElem?_eq_getElem (order i).isLt]
    rfl
  rw [Bool.eq_iff_iff, testBit_routing _ (by omega), testBit_routing _ hfew, hthere]

/-- What comes with a wish for none is not heard. -/
theorem merge_set {wishes : List FilterWish} {i : Nat} (h : i < wishes.length)
    (hoff : wishes[i].kind.isOn = false) (cutoff : UInt16) (resonance : Nibble) :
    merge (wishes.set i { wishes[i] with cutoff, resonance }) = merge wishes := by
  have hsilent : heard { wishes[i] with cutoff, resonance } = heard wishes[i] := by
    simp [heard, hoff]
  refine merge_congr ?_
  rw [List.map_set, hsilent, ← List.getElem_map heard (h := by simpa using h),
    List.set_getElem_self]

/-- **Merging does not depend on order.** For at most eight wishes the setting is told by those that
ask for filtering. In another order it is the same, but that the routing bits are in that order too,
and what comes with a wish for none has no influence. -/
theorem merge_order_free {wishes : List FilterWish} (hfew : wishes.length ≤ 8) :
    Merged wishes (merge wishes) ∧
    (∀ order : Equiv.Perm (Fin wishes.length),
      (merge (rearranged wishes order)).mode = (merge wishes).mode ∧
      (merge (rearranged wishes order)).resonance = (merge wishes).resonance ∧
      (merge (rearranged wishes order)).cutoff = (merge wishes).cutoff ∧
      ∀ i : Fin wishes.length, (merge (rearranged wishes order)).routing.toNat.testBit i =
        (merge wishes).routing.toNat.testBit (order i)) ∧
    ∀ (i : Nat) (h : i < wishes.length), wishes[i].kind = .none →
      ∀ cutoff resonance,
        merge (wishes.set i { wishes[i] with cutoff, resonance }) = merge wishes := by
  refine ⟨merged_merge hfew, fun order => ?_, fun i h hnone => merge_set h (by rw [hnone]; rfl)⟩
  obtain ⟨hmode, hresonance, hcutoff⟩ := merge_perm (rearranged_perm wishes order)
  exact ⟨hmode, hresonance, hcutoff, testBit_routing_rearranged hfew order⟩

/-- The largest nibble. -/
def highestNibble : Nibble :=
  ⟨15, Nat.le_refl 16⟩

/-- Three wishes, the one for none in between, whose mean cutoff is a half more than 1500. -/
def threeWishes : List FilterWish :=
  [⟨.lowPass, 1000, ⟨3, Nat.le_of_ble_eq_true rfl⟩⟩, ⟨.none, 2047, highestNibble⟩,
    ⟨.highBand, 2001, ⟨9, Nat.le_of_ble_eq_true rfl⟩⟩]

theorem merge_order_free_threeWishes : threeWishes.length ≤ 8 ∧
    Merged threeWishes ⟨1501, 9, 0b101, 0x70⟩ ∧
    merge (threeWishes.set 1 ⟨.none, 0, ⟨0, Nat.zero_lt_succ 15⟩⟩) = merge threeWishes := by
  have hfew : threeWishes.length ≤ 8 := by decide
  obtain ⟨hmerged, -, hunheard⟩ := merge_order_free hfew
  exact ⟨hfew, hmerged, hunheard 1 (by decide) rfl 0 ⟨0, _⟩⟩

end Chip.FilterSetting

end SidTune
