import SidTune.Proofs.Assembly.Appending
import SidTune.Proofs.Player.Layout

/-!
# How far apart the two players are

Both layouts are code of their own with the player appended. That code depends on the tune in its
remarks alone, so it ends at one address in every library and at one address in every standalone
program. There is no origin in the player, so it is moved as a whole: all of its labels are equally
far apart in both layouts.

## Main definitions

* `SidTune.Player.displacement`: how far apart they are.
* `SidTune.Player.SharesPlayer`: a tune whose texts end in the same player, and how far apart the
  labels of the player are.

## Main results

* `SidTune.Player.sharesPlayer`: the texts of every tune do.
* `SidTune.Player.appends_sharesPlayer`: what is appended is moved as a whole, and so is the player.
-/

namespace SidTune.Player

open Assembly

variable {t : Tune}

/-! ### What comes before the player -/

/-- The library without the player. -/
def libraryFront (t : Tune) : Program :=
  heading t "library" ++ .origin initEntry :: entries

/-- The standalone program without the player. -/
def standaloneFront (t : Tune) : Program :=
  heading t "standalone" ++ .origin basicStart :: launcher

theorem library_eq_append (t : Tune) : library t = libraryFront t ++ shared t := by
  simp [library_eq, libraryBody, libraryFront]

theorem standalone_eq_append (t : Tune) : standalone t = standaloneFront t ++ shared t := by
  simp [standalone_eq, standaloneBody_eq, standaloneFront]

theorem endAddress_heading (t : Tune) (layout : String) (start : UInt16) (body : Program) :
    (heading t layout ++ .origin start :: body : Program).endAddress 0 = body.endAddress start :=
  rfl

private theorem endAddress_libraryFront (t : Tune) : (libraryFront t).endAddress 0 = 0x1011 := by
  have hsize : entries.totalSize = 17 := by decide
  rw [libraryFront, endAddress_heading, Program.endAddress_of_isPlain (by decide), hsize]
  rfl

private theorem endAddress_standaloneFront (t : Tune) :
    (standaloneFront t).endAddress 0 = 0x0860 := by
  have hsize : launcher.totalSize = 95 := by decide
  rw [standaloneFront, endAddress_heading, Program.endAddress_of_isPlain (by decide), hsize]
  rfl

/-! ### The player -/

/-- How far the player of a library is from that of a standalone program. -/
def displacement : Nat := 0x07B1

/-- A tune whose texts end in the same player, and how far apart its labels are. -/
structure SharesPlayer (t : Tune) : Prop where
  standalone_text : ∃ front, (Sources.ofTune t).standalone = front ++ (shared t).render
  library_text : ∃ front, (Sources.ofTune t).library = front ++ (shared t).render
  displaced {name : String} (here : name ∈ (shared t).labelNames) : ∃ low high : UInt16,
    (standalone t).symbols.lookup name = some low ∧ (library t).symbols.lookup name = some high ∧
      high.toNat = low.toNat + displacement

/-- Both layouts of a tune with short tracks have the same player. -/
theorem sharesPlayer (hshort : t.Short) : SharesPlayer t where
  standalone_text := by
    refine ⟨(standaloneFront t).render, ?_⟩
    rw [Sources.ofTune, standalone_eq_append, (Program.appends _ _).render]
  library_text := by
    refine ⟨(libraryFront t).render, ?_⟩
    rw [Sources.ofTune, library_eq_append, (Program.appends _ _).render]
  displaced hhere := by
    have hsmall := totalSize_shared_le hshort
    obtain ⟨n, hle, haddress⟩ := Program.exists_offset (isPlain_shared hshort) hhere
    refine ⟨0x0860 + UInt16.ofNat n, 0x1011 + UInt16.ofNat n, ?_, ?_, ?_⟩
    · rw [standalone_eq_append, haddress, endAddress_standaloneFront]
    · rw [library_eq_append, haddress, endAddress_libraryFront]
    · -- Neither address wraps around.
      simp only [UInt16.toNat_add, UInt16.toNat_ofNat', UInt16.reduceToNat, displacement]
      omega

/-- **Appending.** A program that is appended is written after the program before it, and moved by
the address at which that ends. So both layouts of every song end in the same player, at the same
distance. -/
theorem appends_sharesPlayer (p q : Program) (s : Song) :
    p.Appends q ∧ SharesPlayer (Tune.ofSong s) :=
  ⟨p.appends q, sharesPlayer (Tune.short_ofSong s)⟩

end SidTune.Player
