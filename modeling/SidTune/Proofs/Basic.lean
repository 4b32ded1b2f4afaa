import Mathlib.Data.List.Forall2
import SidTune.Basic

/-!
# Steps that succeed and what is found by name

Readers of documents and operations on disks are put together from steps which may fail. If such a
computation succeeds, every step has succeeded.

Entries in the order of their names hold of each name the last entry. The sort is stable: it does
not change the order of entries of one name, so the last of them is the last of its neighbours,
which is the one that is kept.

## Main results

* `Except.bind_eq_ok`: two steps succeed if both do.
* `Except.mapM_eq_ok`: a step for each of a list succeeds if all do.
* `SidTune.lookup_byName`: what is found is the last entry of a name.
* `SidTune.lookup_byName_of_nodup`: if the names are distinct, the order does not matter.
-/

namespace Except

/-! ### Steps that succeed -/

variable {ε α β : Type}

/-- A sequence of two steps succeeds if both do. -/
theorem bind_eq_ok {first : Except ε α} {next : α → Except ε β} {b : β} :
    first >>= next = .ok b ↔ ∃ a, first = .ok a ∧ next a = .ok b := by
  cases first with
  | error error => simp [bind, Except.bind]
  | ok a => simp [bind, Except.bind]

theorem pure_eq_ok {a b : α} : (pure a : Except ε α) = .ok b ↔ a = b := by
  simp [pure, Except.pure]

/-- What is made of the result of a step that succeeds. -/
theorem map_eq_ok {first : Except ε α} {make : α → β} {b : β} :
    make <$> first = .ok b ↔ ∃ a, first = .ok a ∧ make a = b := by
  cases first with
  | error error => simp [Functor.map, Except.map]
  | ok a => simp [Functor.map, Except.map]

/-- A step for each of a list succeeds if all of them do. -/
theorem mapM_eq_ok {f : α → Except ε β} {as : List α} {bs : List β} :
    as.mapM f = .ok bs ↔ List.Forall₂ (fun a b => f a = .ok b) as bs := by
  induction as generalizing bs with
  | nil => simp [pure, Except.pure, eq_comm]
  | cons a as ih =>
    simp only [List.mapM_cons, bind_eq_ok, pure_eq_ok, ih, List.forall₂_cons_left_iff]
    constructor
    · rintro ⟨b, hfirst, rest, hothers, rfl⟩
      exact ⟨b, rest, hfirst, hothers, rfl⟩
    · rintro ⟨b, rest, hfirst, hothers, rfl⟩
      exact ⟨b, hfirst, rest, hothers, rfl⟩

end Except

namespace SidTune

variable {α : Type} {entries : List (String × α)} {name : String}

/-! ### Lookups -/

/-- Among entries of distinct names each is found. -/
theorem lookup_eq_some_iff_mem (hdistinct : (entries.map Prod.fst).Nodup) {a : α} :
    entries.lookup name = some a ↔ (name, a) ∈ entries := by
  induction entries with
  | nil => simp
  | cons entry rest ih =>
    obtain ⟨key, b⟩ := entry
    rw [List.map_cons, List.nodup_cons] at hdistinct
    rw [List.lookup_cons, List.mem_cons]
    by_cases hsame : name = key
    · have habsent : (key, a) ∉ rest := fun hmem => hdistinct.1 (List.mem_map.2 ⟨_, hmem, rfl⟩)
      simp [hsame, habsent, eq_comm]
    · rw [beq_false_of_ne hsame]
      simp [hsame, ih hdistinct.2]

/-- What is found depends on the entries of the name alone. -/
theorem lookup_eq_head?_filter :
    entries.lookup name = (entries.filter (name == ·.1)).head?.map Prod.snd := by
  induction entries with
  | nil => rfl
  | cons entry rest ih =>
    obtain ⟨key, a⟩ := entry
    rw [List.lookup_cons, List.filter_cons]
    cases hsame : name == key with
    | true => rfl
    | false => exact ih

private theorem lookup_reverse_cons (entry : String × α) (rest : List (String × α)) :
    (entry :: rest).reverse.lookup name =
      (rest.reverse.lookup name).or (if name = entry.1 then some entry.2 else none) := by
  obtain ⟨key, a⟩ := entry
  rw [List.reverse_cons, List.lookup_append, List.lookup_cons]
  by_cases hsame : name = key
  · simp [hsame]
  · simp [hsame, beq_false_of_ne]

/-! ### Sorting -/

/-- Sorting does not change the order of entries of one name. -/
theorem filter_mergeSort :
    (entries.mergeSort fun a b => decide (a.1 ≤ b.1)).filter (name == ·.1) =
      entries.filter (name == ·.1) := by
  have halike : (entries.filter (name == ·.1)).Pairwise fun a b => decide (a.1 ≤ b.1) = true := by
    refine List.pairwise_of_forall_mem_list fun a ha b hb => ?_
    have hfirst := eq_of_beq (List.mem_filter.1 ha).2
    have hsecond := eq_of_beq (List.mem_filter.1 hb).2
    exact decide_eq_true (hfirst ▸ hsecond ▸ String.le_refl _)
  have hkept := List.sublist_mergeSort (by simpa using fun a _ b _ c _ => String.le_trans)
    (by simpa using fun a _ b _ => String.le_total a b) halike List.filter_sublist
  have hsame := hkept.filter (name == ·.1)
  rw [List.filter_filter] at hsame
  simp only [Bool.and_self] at hsame
  exact (hsame.eq_of_length ((List.mergeSort_perm _ _).filter _).length_eq.symm).symm

/-- Of entries in the order of their names the last of each is kept. -/
theorem lookup_keepLast (hsorted : entries.Pairwise fun a b => a.1 ≤ b.1) :
    (keepLast entries).lookup name = entries.reverse.lookup name := by
  fun_induction keepLast entries with
  | case1 => rfl
  | case2 => rfl
  | case3 m n rest hsame ih =>
    rw [ih hsorted.tail, lookup_reverse_cons m, lookup_reverse_cons n, hsame]
    split <;> simp
  | case4 m n rest hother ih =>
    obtain ⟨hleast, hsorted⟩ := List.pairwise_cons.1 hsorted
    rw [List.lookup_cons, ih hsorted, lookup_reverse_cons m]
    by_cases hsame : name = m.1
    · -- All names that follow are greater.
      have habsent : (n :: rest).reverse.lookup name = none := by
        refine List.lookup_eq_none_iff.2 fun entry hmem => bne_iff_ne.2 fun hhere => hother ?_
        have habove : n.1 ≤ entry.1 := by
          rcases List.mem_cons.1 (List.mem_reverse.1 hmem) with rfl | hmem
          · exact String.le_refl _
          · exact (List.pairwise_cons.1 hsorted).1 entry hmem
        exact String.le_antisymm (hleast n List.mem_cons_self) (hsame ▸ hhere ▸ habove)
      rw [habsent]
      simp [hsame]
    · simp [hsame, beq_false_of_ne]

/-! ### Entries by name -/

/-- What is found by name is the last entry of the name. -/
theorem lookup_byName : (byName entries).lookup name = entries.reverse.lookup name := by
  have hsorted : (entries.mergeSort fun a b => decide (a.1 ≤ b.1)).Pairwise
      fun a b => a.1 ≤ b.1 := by
    refine (List.pairwise_mergeSort (by simpa using fun a _ b _ c _ => String.le_trans)
      (by simpa using fun a _ b _ => String.le_total a b) entries).imp ?_
    exact of_decide_eq_true
  rw [byName, lookup_keepLast hsorted, lookup_eq_head?_filter, List.filter_reverse,
    filter_mergeSort, ← List.filter_reverse, ← lookup_eq_head?_filter]

/-- Of entries of distinct names the last is the first. -/
theorem lookup_byName_of_nodup (hdistinct : (entries.map Prod.fst).Nodup) :
    (byName entries).lookup name = entries.lookup name := by
  have hreversed := ((entries.reverse_perm.map Prod.fst).nodup_iff).2 hdistinct
  ext a
  rw [lookup_byName, lookup_eq_some_iff_mem hreversed, lookup_eq_some_iff_mem hdistinct,
    List.mem_reverse]

end SidTune
