import SidTune.Proofs.Song.Following

/-!
# The first violated rule is reported

A document is rejected by the first check in the list that it does not pass. The list itself depends
on the numbers of steps. Where two documents look the same in all that an initial part of the list
reads, the lists of both begin with this part: a step is looked at before anything is read of it,
and the size of an array of steps after all of them. So the rejection of a document depends on
nothing that comes later.

## Main definitions

* `SidTune.Keeps`: a list of checks begins like another one, as far as this one reads the same of
  two documents.

## Main results

* `SidTune.songChecks_keeps`: the checks of two documents begin alike.
* `SidTune.Song.ofJson_first_rejection`: the first violated rule is reported, whatever is not read
  up to there.
-/

namespace SidTune

/-! ### The checks of documents that look the same -/

variable {d d' : Json} {l : Json.Location}

/-- Of two lists of checks the second begins with each initial part of the first that reads the same
of two documents, and is the first if all of it does. -/
structure Keeps (d d' : Json) (cs cs' : List Check) : Prop where
  part : ∀ p, p <+: cs → (∀ c ∈ p, c.SameFor d d') → p <+: cs'
  all : (∀ c ∈ cs, c.SameFor d d') → cs' = cs

namespace Keeps

variable {as as' bs bs' : List Check}

theorem refl (cs : List Check) : Keeps d d' cs cs :=
  ⟨fun _ h _ => h, fun _ => rfl⟩

theorem append (hfirst : Keeps d d' as as') (hrest : Keeps d d' bs bs') :
    Keeps d d' (as ++ bs) (as' ++ bs') where
  part p h hsame := by
    obtain hshort | ⟨q, rfl⟩ := List.prefix_or_prefix_of_prefix h (List.prefix_append as bs)
    · exact (hfirst.part p hshort hsame).trans (List.prefix_append as' bs')
    · rw [List.forall_mem_append] at hsame
      rw [hfirst.all hsame.1, List.prefix_append_right_inj]
      exact hrest.part q ((List.prefix_append_right_inj as).1 h) hsame.2
  all hsame := by
    rw [List.forall_mem_append] at hsame
    rw [hfirst.all hsame.1, hrest.all hsame.2]

theorem cons (c : Check) (hrest : Keeps d d' bs bs') : Keeps d d' (c :: bs) (c :: bs') :=
  (refl [c]).append hrest

theorem flatMap {α : Type} {f f' : α → List Check} (as : List α)
    (heach : ∀ a, Keeps d d' (f a) (f' a)) : Keeps d d' (as.flatMap f) (as.flatMap f') := by
  induction as with
  | nil => exact refl []
  | cons a as ih =>
    rw [List.flatMap_cons, List.flatMap_cons]
    exact (heach a).append ih

end Keeps

/-- Steps are checked in order, so fewer steps give an initial part of the checks of more. -/
theorem prefix_steps_of_le {m n : Nat} (hle : m ≤ n) :
    (List.range m).flatMap (fun i => stepChecks (l.item i)) <+:
      (List.range n).flatMap fun i => stepChecks (l.item i) := by
  obtain ⟨k, rfl⟩ := Nat.exists_eq_add_of_le hle
  rw [List.range_add, List.flatMap_append]
  exact List.prefix_append _ _

private theorem lt_itemCount_iff {i : Nat} (hsame : (isObject (l.item i)).SameFor d d') :
    i < d.itemCount l ↔ i < d'.itemCount l := by
  have hkinds : (d.at? (l.item i)).map Json.kind = (d'.at? (l.item i)).map Json.kind :=
    hsame ⟨l.item i, .kind⟩ (by simp [isObject, Check.reads, Demand.looks])
  rw [← Json.isSome_at?_item, ← Json.isSome_at?_item, ← Option.isSome_map, hkinds,
    Option.isSome_map]

private theorem itemCount_eq {least most : Nat} {w : Nat → Violation}
    (hsame : Check.SameFor d d' ⟨l, .size least most w, none⟩) :
    d'.itemCount l = d.itemCount l := by
  have hfaces : Look.Same d d' ⟨l, .face⟩ := hsame _ (by simp [Check.reads, Demand.looks])
  rw [Json.itemCount, Json.itemCount, Json.size?_congr hfaces]

/-- The checks of steps begin alike: a step is looked at first, so it is there in both documents. -/
theorem steps_part {p : List Check}
    (h : p <+: (List.range (d.itemCount l)).flatMap fun i => stepChecks (l.item i))
    (hsame : ∀ c ∈ p, c.SameFor d d') :
    p <+: (List.range (d'.itemCount l)).flatMap fun i => stepChecks (l.item i) := by
  rcases Nat.le_total (d.itemCount l) (d'.itemCount l) with hle | hle
  · exact h.trans (prefix_steps_of_le hle)
  obtain hshort | ⟨q, rfl⟩ := List.prefix_or_prefix_of_prefix h (prefix_steps_of_le hle)
  · exact hshort
  cases q with
  | nil => simp
  | cons c q =>
    -- The next check would be made of a step that is absent from the second document.
    obtain ⟨k, hcount⟩ := Nat.exists_eq_add_of_le hle
    rw [hcount, List.range_add, List.flatMap_append, List.prefix_append_right_inj] at h
    cases k with
    | zero => simp at h
    | succ k =>
      rw [List.range_succ_eq_map, List.map_cons, List.flatMap_cons] at h
      obtain ⟨rfl, -⟩ := List.cons_prefix_cons.1 h
      have hstep := hsame _ (List.mem_append_right _ List.mem_cons_self)
      have := (lt_itemCount_iff hstep).1 (by omega)
      omega

/-- The checks of an array of steps begin alike. If all of them read the same, the size of the array
is looked at in the end, so there are no further steps. -/
theorem stepListChecks_keeps {least most : Nat} {w : Nat → Violation} : Keeps d d'
    (stepListChecks d l least most w) (stepListChecks d' l least most w) := by
  have hended (hsame : Check.SameFor d d' ⟨l, .size least most w, none⟩) :
      stepListChecks d' l least most w = stepListChecks d l least most w := by
    rw [stepListChecks, stepListChecks, itemCount_eq hsame]
  refine .cons _ ⟨fun p h hsame => ?_, fun hsame => ?_⟩
  · obtain rfl | hsteps := List.prefix_concat_iff.1 h
    · have hequal := (List.cons.inj (hended (hsame _ List.mem_concat_self))).2
      exact hequal ▸ List.prefix_refl _
    · exact (steps_part hsteps hsame).trans (List.prefix_append _ _)
  · exact (List.cons.inj (hended (hsame _ List.mem_concat_self))).2

theorem patternChecks_keeps : Keeps d d' (patternChecks d l) (patternChecks d' l) :=
  .cons _ (stepListChecks_keeps.append
    (.cons _ (.flatMap _ fun _ => .cons _ stepListChecks_keeps)))

theorem voiceChecks_keeps : Keeps d d' (voiceChecks d l) (voiceChecks d' l) :=
  Keeps.append (.refl _) patternChecks_keeps

/-- The checks of a document begin as those of another one, as far as they read the same. -/
theorem songChecks_keeps (d d' : Json) : Keeps d d' (songChecks d) (songChecks d') :=
  .cons _ (.append (.append (.refl _) (.cons _ (.cons _ (.cons _
    (.append (.refl _) (.flatMap _ fun _ => voiceChecks_keeps)))))) (.refl _))

/-! ### The first violated rule -/

/-- Where two documents read the same up to a check that rejects the first of them, and the first
passes all checks before it, the second is rejected in the same way. -/
theorem Song.ofJson_eq_error_of_sameFor {before after : List Check} {c : Check} {r : Rejection}
    (hchecks : songChecks d = before ++ c :: after) (hpassed : ∀ b ∈ before, b.rejection? d = none)
    (hrejected : c.rejection? d = some r) (hsame : ∀ b ∈ before ++ [c], b.SameFor d d') :
    Song.ofJson d' = .error r := by
  have hpart : before ++ [c] <+: songChecks d := ⟨after, by simp [hchecks]⟩
  obtain ⟨after', hchecks'⟩ := (songChecks_keeps d d').part _ hpart hsame
  refine (Song.ofJson_follows d').eq_error_iff.2 ⟨before, c, after', by simp [← hchecks'], ?_, ?_⟩
  · rw [Check.rejection?_congr (hsame c List.mem_concat_self), hrejected]
  · intro b hmem
    rw [Check.rejection?_congr (hsame b (List.mem_append_left _ hmem)), hpassed b hmem]

/-- A document is rejected by the first of the checks in their order that it does not pass, and
read as a song if it passes all. What the checks up to this one do not read of the document has no
part in how it is rejected. -/
theorem Song.ofJson_first_rejection :
    (∀ d r, Song.ofJson d = .error r ↔ ∃ before c after, songChecks d = before ++ c :: after ∧
      c.rejection? d = some r ∧ ∀ b ∈ before, b.rejection? d = none) ∧
    (∀ d, (∃ s, Song.ofJson d = .ok s) ↔ ∀ c ∈ songChecks d, c.rejection? d = none) ∧
    ∀ d d' before c after r, songChecks d = before ++ c :: after →
      (∀ b ∈ before, b.rejection? d = none) → c.rejection? d = some r →
      (∀ b ∈ before ++ [c], b.SameFor d d') → Song.ofJson d' = .error r :=
  ⟨fun d _ => (Song.ofJson_follows d).eq_error_iff,
    fun d => (Song.ofJson_follows d).exists_eq_ok_iff,
    fun _ _ _ _ _ _ => Song.ofJson_eq_error_of_sameFor⟩

/-- A tempo of 121 is reported, whatever the key is. -/
theorem ofJson_first_rejection_tempo :
    Song.ofJson (.object [("bpm", .ofNat 121), ("key", .ofNat 3)]) =
      .error ⟨.unknownTempo (.ofNat 121), [.member "bpm"]⟩ := by
  refine Song.ofJson_first_rejection.2.2 (.object [("bpm", .ofNat 121)]) _
    [isObject [], hasMember [] "bpm", isExpected .integer (.child [] "bpm")]
    (isChoice (.child [] "bpm") (.numbers [60, 80, 90, 100, 120, 140, 160]) .unknownTempo) _ _
    rfl ?_ ?_ ?_
  · simp only [List.forall_mem_cons]
    exact ⟨rfl, rfl, rfl, by simp⟩
  · rfl
  · simp only [List.cons_append, List.nil_append, List.forall_mem_cons]
    refine ⟨?_, ?_, ?_, ?_, by simp⟩
    · exact List.forall_mem_cons.2 ⟨rfl, List.forall_mem_nil _⟩
    · exact List.forall_mem_cons.2 ⟨rfl, List.forall_mem_cons.2 ⟨rfl, List.forall_mem_nil _⟩⟩
    · exact List.forall_mem_cons.2 ⟨rfl, List.forall_mem_nil _⟩
    · exact List.forall_mem_cons.2 ⟨rfl, List.forall_mem_cons.2 ⟨rfl, List.forall_mem_nil _⟩⟩

end SidTune
