import SidTune.Proofs.Assembly.Text
import SidTune.Proofs.Player.Assembling

/-!
# The source texts tell the programs

All labels of the player are identifiers, and its remarks are fixed texts, numbers and roles, each
of them on a single line. So the source text of either layout can be read back.

## Main definitions

* `SidTune.Assembly.Program.remarks`: the remarks of a program.

## Main results

* `SidTune.Player.isLegible_standalone`, `SidTune.Player.isLegible_library`: both layouts can be
  read back.
* `SidTune.Player.texts_tell`: what the text of a program tells.
-/

namespace SidTune

namespace Assembly

/-! ### Names and remarks -/

@[simp] theorem isLine_append (a b : String) : isLine (a ++ b) = (isLine a && isLine b) := by
  simp [isLine]

theorem isLine_repr (n : Nat) : isLine n.repr := by
  have habsent : '\n' ∉ n.repr.toList := by
    intro hmem
    rw [Nat.toList_repr] at hmem
    exact absurd (Nat.isDigit_of_mem_toDigits (by decide) (by decide) hmem) (by decide)
  simpa [isLine] using habsent

namespace Program

variable {p : Program}

/-- The remarks of a program. -/
def remarks (p : Program) : List String :=
  p.filterMap fun
    | .comment text => some text
    | _ => none

@[simp] theorem remarks_append (p q : Program) :
    (p ++ q : Program).remarks = p.remarks ++ q.remarks :=
  List.filterMap_append

private theorem isLegible_of_names (hlabels : ∀ name ∈ p.labelNames, isIdentifier name)
    (hoperands : ∀ name ∈ p.operandNames, isIdentifier name)
    (hsingle : ∀ text ∈ p.remarks, isLine text) : p.isLegible := by
  refine List.all_eq_true.2 fun item hmem => ?_
  cases item with
  | label name => exact hlabels name (List.mem_filterMap.2 ⟨_, hmem, rfl⟩)
  | code m operand =>
    exact List.all_eq_true.2 fun name hhere => hoperands name (List.mem_flatMap.2 ⟨_, hmem, hhere⟩)
  | comment text => exact hsingle text (List.mem_filterMap.2 ⟨_, hmem, rfl⟩)
  | origin | data | blank => rfl

end Program

end Assembly

namespace Player

open Assembly

/-! ### Both layouts -/

theorem isLine_name (role : Role) : isLine (Named.name role) := by
  cases role <;> decide

private theorem remarks_setup (t : Tune) :
    (setup t).remarks = ["reset SID, set filter and envelopes, prime voices"] := by
  have hpulse (voice : Nat) (pulse : Option Chip.PulseBytes) :
      (putPulse voice pulse).remarks = [] := by
    cases pulse <;> rfl
  simp only [setup, setupVoice, Program.remarks_append, Trio.toList, List.mapIdx_cons,
    List.mapIdx_nil, List.flatten_cons, List.flatten_nil, hpulse]
  rfl

/-- The remarks of the player are single lines. -/
theorem isLine_of_mem_remarks_shared (t : Tune) : ∀ text ∈ (shared t).remarks, isLine text := by
  have hframe_eq : (frame t).remarks = ["called once per frame"] := rfl
  have hstep_eq (voice : Nat) (track : Track) : (nextStep voice track).remarks =
      ["voice " ++ (voice + 1).repr ++ " (" ++ Named.name track.role ++ ") step advance"] := rfl
  have htables_eq : (tables t).remarks = ["frequency table, octaves 2-5"] ++
      (t.tracks.toList.mapIdx fun voice track =>
        "voice " ++ (voice + 1).repr ++ " tables, " ++ track.length.repr ++ " steps") ++
      ["player state"] := rfl
  have hstep_isLine (voice : Nat) (track : Track) : isLine
      ("voice " ++ (voice + 1).repr ++ " (" ++ Named.name track.role ++ ") step advance") := by
    simp only [isLine_append, isLine_repr, isLine_name]
    decide
  have htable_isLine (voice : Nat) (track : Track) : isLine
      ("voice " ++ (voice + 1).repr ++ " tables, " ++ track.length.repr ++ " steps") := by
    simp only [isLine_append, isLine_repr]
    decide
  intro text hmem
  simp only [shared_eq, Program.remarks_append, remarks_setup, hframe_eq, hstep_eq, htables_eq,
    List.mem_append, List.mem_singleton, List.mem_mapIdx] at hmem
  obtain rfl | rfl | rfl | rfl | rfl | (rfl | ⟨i, _, rfl⟩) | rfl := hmem
  · decide
  · decide
  · exact hstep_isLine ..
  · exact hstep_isLine ..
  · exact hstep_isLine ..
  · decide
  · exact htable_isLine ..
  · decide

/-- The source text of the player can be read back. -/
theorem isLegible_shared (t : Tune) : (shared t).isLegible := by
  have hnames : ∀ name ∈ playerNames, isIdentifier name := by decide
  refine Program.isLegible_of_names ?_ ?_ (isLine_of_mem_remarks_shared t)
  · rwa [labelNames_shared]
  · exact fun name hmem => hnames name (operandNames_shared t hmem)

theorem isLegible_heading (t : Tune) {layout : String} (hsingle : isLine layout) :
    (heading t layout).isLegible := by
  have hfirst : isLine ("sidsong " ++ layout ++ " layout") := by
    simp only [isLine_append, hsingle]
    decide
  have hroles_eq :
      String.intercalate ", " (t.tracks.toList.map fun track => Named.name track.role) =
      Named.name t.tracks.first.role ++ ", " ++ Named.name t.tracks.second.role ++ ", " ++
        Named.name t.tracks.third.role := rfl
  have hsecond : isLine (t.bpm.repr ++ " BPM, " ++ t.beatTicks.repr ++ " ticks per beat, voices: "
      ++ String.intercalate ", " (t.tracks.toList.map fun track => Named.name track.role)) := by
    simp only [hroles_eq, isLine_append, isLine_repr, isLine_name]
    decide
  simp [heading, Program.isLegible, Item.isLegible, hfirst, hsecond]

/-- The source text of the library can be read back. -/
theorem isLegible_library (t : Tune) : (library t).isLegible := by
  have hfront : Program.isLegible (.origin initEntry :: entries) := by decide
  rw [library_eq, libraryBody, ← List.cons_append, Program.isLegible_append,
    Program.isLegible_append, isLegible_heading t (by decide), hfront, isLegible_shared]
  rfl

/-- The source text of the standalone program can be read back. -/
theorem isLegible_standalone (t : Tune) : (standalone t).isLegible := by
  have hfront : Program.isLegible (.origin basicStart :: launcher) := by decide
  rw [standalone_eq, standaloneBody_eq, ← List.cons_append, Program.isLegible_append,
    Program.isLegible_append, isLegible_heading t (by decide), hfront, isLegible_shared]
  rfl

/-! ### Texts -/

/-- **Source text.** Programs that can be read back and have one text are the same but for how their
data is cut, with the same labels in the same places. The text of such a program tells the size of
every instruction and the bytes of every table, and the digits of an address tell whether it is
counted as one in the zero page. Both layouts of every tune are such programs. -/
theorem texts_tell :
    (∀ p q : Program, p.isLegible → q.isLegible → p.render = q.render →
      p.joined = q.joined ∧ p.symbols = q.symbols ∧ ∀ name, p.resolve? name = q.resolve? name) ∧
    (∀ p : Program, p.isLegible → p.ToldBy p.render) ∧
    (∀ (m : Mnemonic) (addr : UInt16), ∃ digits,
      hexNumber? digits = some addr.toNat ∧
      (Operand.address addr).text? = some ('$' :: digits) ∧
      (Operand.addressX addr).text? = some ('$' :: digits ++ [',', 'x']) ∧
      (digits.length = 2 ↔ m.width (.address addr) = 2) ∧
      (digits.length = 2 ↔ m.width (.addressX addr) = 2)) ∧
    ∀ t : Tune, (standalone t).isLegible ∧ (library t).isLegible := by
  refine ⟨fun p q hp hq hsame => ?_, fun _ => Program.toldBy_render, exists_digits,
    fun t => ⟨isLegible_standalone t, isLegible_library t⟩⟩
  have hlabels := Program.labels_eq_of_render_eq hp hq hsame 0
  refine ⟨Program.joined_eq_of_render_eq hp hq hsame, ?_, fun name => ?_⟩
  · rw [Program.symbols, Program.symbols, hlabels]
  · rw [Program.resolve?, Program.resolve?, hlabels]

/-- Seventeen bytes fill two lines, whether they are one item or three. -/
theorem texts_tell_seventeen :
    let whole := table "freq_lo" (List.replicate 17 7)
    let parts : Program :=
      [.label "freq_lo", .data (List.replicate 16 7), .data [], .data [7]]
    whole.isLegible ∧ parts.isLegible ∧ whole.render = parts.render ∧
      whole.joined = parts.joined ∧ whole.resolve? "freq_lo" = parts.resolve? "freq_lo" ∧
      listed (Program.lines (parts.drop 1)) = List.replicate 17 7 := by
  intro whole parts
  obtain ⟨hsame, htold, -⟩ := texts_tell
  have hw : whole.isLegible := by decide
  have hp : parts.isLegible := by decide
  have hrender_eq : whole.render = parts.render := by
    simp [whole, parts, table, Program.render, Program.chars, Program.lines, Item.lines, rows,
      rowLength]
  obtain ⟨hjoined_eq, -, hresolve_eq⟩ := hsame whole parts hw hp hrender_eq
  have hlabelled : parts = [] ++ .label "freq_lo" :: parts.drop 1 := rfl
  have hlisted_eq := ((htold parts hp).tables hlabelled).2
  exact ⟨hw, hp, hrender_eq, hjoined_eq, hresolve_eq "freq_lo", hlisted_eq⟩

end Player

end SidTune
