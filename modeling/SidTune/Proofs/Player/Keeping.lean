import SidTune.Proofs.Player.Frame

/-!
# Keeping the registers

Both layouts call the routine of a frame between pushing and pulling all registers, so that whoever
is interrupted or calls finds them as they were.

## Main results

* `SidTune.Player.saving`, `SidTune.Player.restoring`: pushing and pulling.
* `SidTune.Player.Carries.guarded_frame`: a frame in between keeps the registers.
-/

namespace SidTune.Player

open Assembly Assembly.Mnemonic Processor

section Registers

attribute [local simp] straight goesOn execute formOf formsOf effect Registers.setA Registers.setX
  Registers.setY Flags.seeing Moment.read? Moment.NoCarry keepsMask

variable {p body rest : Program} {start : UInt16} {m : Machine}

/-- Pushing the registers. -/
theorem saving (hl : Linked p start body) (h : pushAll ++ rest <:+ body)
    (hpc : m.pc = spot start body (pushAll ++ rest)) :
    ∃ record n, Stretch p m.stack 3 m record n [] [] ∧
      Stands m n (spot start body rest) (m.stack - UInt8.ofNat 3) ∧
      n.pulled 0 = m.y ∧ n.pulled 1 = m.x ∧ n.pulled 2 = m.a := by
  have hone : Under m.stack 3 (m.stack - 1) := ⟨1, by decide, rfl⟩
  have htwo : Under m.stack 3 (m.stack - 1 - 1) := ⟨2, by decide, by grind⟩
  have hthree : m.stack - 1 - 1 - 1 = m.stack - UInt8.ofNat 3 := by grind
  obtain ⟨record, n, hs, hwrites, hreads, hdeep, hstack, hdecimal, hmasked⟩ :
      ∃ record n, straight p.locate pushAll m = some (record, n) ∧
        writesOf record = pushes m.stack [m.a, m.x, m.y] ∧ readsOf record = [] ∧
        (∀ k ∈ record, Under m.stack 3 k.before.stack ∧ k.NoCarry p.locate ∧ keepsMask k.op) ∧
        n.stack = m.stack - UInt8.ofNat 3 ∧ n.flags.decimal = m.flags.decimal ∧
        n.flags.masked = m.flags.masked := by
    simp [pushAll, pushes, hone, htwo, hthree]
  obtain ⟨hruns, hplace⟩ := hl.runs_straight h hpc hs
  refine ⟨record, n, ⟨hruns, fun k hk => (hdeep k hk).1, ?_, ?_, hreads,
    fun k hk => (hdeep k hk).2.1, fun k hk => (hdeep k hk).2.2⟩,
    ⟨hplace, hstack, hdecimal, hmasked⟩, pulled_pushes (hwrites ▸ hruns.memory_eq) hstack⟩
  · intro w hw _
    rw [hwrites] at hw
    obtain ⟨u, hunder, hu⟩ := under_of_mem_pushes hw
    exact ⟨u, hunder.mono (by simp), hu⟩
  · rw [hwrites, outside_pushes]

/-- Pulling the registers. -/
theorem restoring (hl : Linked p start body) (h : pullAll ++ rest <:+ body)
    (hpc : m.pc = spot start body (pullAll ++ rest)) {top : UInt8}
    (htop : m.stack = top - UInt8.ofNat 3) :
    ∃ record n, Stretch p top 3 m record n [] [] ∧ Stands m n (spot start body rest) top ∧
      n.y = m.pulled 0 ∧ n.x = m.pulled 1 ∧ n.a = m.pulled 2 := by
  have hthree : Under top 3 m.stack := ⟨3, le_rfl, htop⟩
  have htwo : Under top 3 (m.stack + 1) := ⟨2, by decide, by grind⟩
  have hone : Under top 3 (m.stack + 1 + 1) := ⟨1, by decide, by grind⟩
  have hzero : m.stack + 1 + 1 + 1 = top := by grind
  have hdeepest : m.stack + 1 + 2 = top := by grind
  obtain ⟨record, n, hs, hwrites, hreads, hdeep, hstack, hdecimal, hmasked, hy, hx, ha⟩ :
      ∃ record n, straight p.locate pullAll m = some (record, n) ∧ writesOf record = [] ∧
        readsOf record = [] ∧
        (∀ k ∈ record, Under top 3 k.before.stack ∧ k.NoCarry p.locate ∧ keepsMask k.op) ∧
        n.stack = top ∧ n.flags.decimal = m.flags.decimal ∧ n.flags.masked = m.flags.masked ∧
        n.y = m.pulled 0 ∧ n.x = m.pulled 1 ∧ n.a = m.pulled 2 := by
    simp [pullAll, Machine.pulled, hone, htwo, hthree, hzero, hdeepest]
  obtain ⟨hruns, hplace⟩ := hl.runs_straight h hpc hs
  exact ⟨record, n, ⟨hruns, fun k hk => (hdeep k hk).1, by simp [hwrites], by simp [hwrites],
    hreads, fun k hk => (hdeep k hk).2.1, fun k hk => (hdeep k hk).2.2⟩,
    ⟨hplace, hstack, hdecimal, hmasked⟩, hy, hx, ha⟩

end Registers

/-- A frame between pushing and pulling keeps the registers; `front` is what is done before the
frame. -/
theorem Carries.guarded_frame {p body rest front : Program} {start : UInt16} {t : Tune}
    {m : Machine} {q : Playing} {writes : List Write} (hc : Carries p start body t)
    (ht : t.Playable)
    (hs : pushAll ++ (front ++ .code jsr (.label frameLabel) :: (pullAll ++ rest)) <:+ body)
    (hpc : m.pc = spot start body
      (pushAll ++ (front ++ .code jsr (.label frameLabel) :: (pullAll ++ rest))))
    (hfront : quiet front) (hleads : ∀ k, ∃ n, Leads p.locate front k n writes [])
    (hwrites : ∀ w ∈ writes, 0xD000 ≤ w.address.toNat)
    (hr : Resident p t m.memory) (hdecimal : m.flags.decimal = false)
    (hq : stateOf p m.memory = q) (hvalid : q.Valid t) :
    ∃ n, Passes p 7 m n (spot start body rest) (writes ++ frameWrites p t q) (frameReads t q) ∧
      n.a = m.a ∧ n.x = m.x ∧ n.y = m.y := by
  have hsuffix₁ := (List.suffix_append pushAll _).trans hs
  have hsuffix₂ := (List.suffix_append front _).trans hsuffix₁
  have hsuffix₃ : pullAll ++ rest <:+ body := (List.suffix_cons _ _).trans hsuffix₂
  obtain ⟨record₁, n₁, hsaved, hstands₁, hy, hx, ha⟩ := saving hc.toLinked hs hpc
  obtain ⟨n₂, hleads₂⟩ := hleads n₁
  have hfronted := hc.passes_straight front hfront hsuffix₁ hstands₁.pc_eq hleads₂
    fun w hw => inStack_eq_false ((by decide : 0x0200 ≤ 0xD000).trans (hwrites w hw))
  -- The writes in front of the frame are above the program, so tables and state are as before.
  have hfar : ∀ w ∈ writes, w.address.toNat < 0x0200 ∨ 0xD000 ≤ w.address.toNat :=
    fun w hw => .inr (hwrites w hw)
  have hsame₁ (cell : UInt16) (h : inStack cell = false) : n₁.memory cell = m.memory cell :=
    hsaved.memory_outside h
  have hr₂ := hc.resident_congr (fun _ => hfronted.memory_outside)
    (hc.resident_image (hc.image_far hfar) (hc.resident_congr hsame₁ hr))
  have hq₂ : stateOf p n₂.memory = q := by
    rw [hc.stateOf_congr fun _ => hfronted.memory_outside, hc.stateOf_image (hc.image_far hfar),
      hc.stateOf_congr hsame₁, hq]
  have hdecimal₂ := (hfronted.stands.decimal_eq.trans hstands₁.decimal_eq).trans hdecimal
  obtain ⟨n₃, hcalled⟩ := hc.passes_call hsuffix₂ hfronted.stands.pc_eq fun m' hpc' hflags hsame =>
    hc.frame ht (hc.resident_congr hsame hr₂) ((congrArg Flags.decimal hflags).trans hdecimal₂) hpc'
      ((hc.stateOf_congr hsame).trans hq₂) hvalid
  have hinner := (hfronted.mono (by decide)).trans hcalled
  obtain ⟨record₄, n₄, hrestored, hstands₄, hy', hx', ha'⟩ := restoring hc.toLinked hsuffix₃
    hinner.stands.pc_eq (hinner.stands.stack_eq.trans hstands₁.stack_eq)
  obtain ⟨record, hstretch⟩ := hinner.stretch
  rw [hstands₁.stack_eq] at hstretch
  have hwhole := ((hsaved.mono (by decide)).trans hstretch.lower).trans
    (hrestored.mono (show 3 ≤ 4 + 3 by decide))
  -- What was pushed is still there when it is pulled: the frame keeps the stack above its own.
  refine ⟨n₄, ⟨⟨_, by simpa using hwhole⟩, (hstands₁.trans hinner.stands).trans hstands₄⟩,
    ?_, ?_, ?_⟩
  · rw [ha', ← ha]
    exact hinner.pulled_eq (j := 2) (by decide)
  · rw [hx', ← hx]
    exact hinner.pulled_eq (j := 1) (by decide)
  · rw [hy', ← hy]
    exact hinner.pulled_eq (j := 0) (by decide)

end SidTune.Player
