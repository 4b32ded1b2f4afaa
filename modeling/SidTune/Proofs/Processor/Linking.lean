import Mathlib.Data.List.Infix
import SidTune.Proofs.Processor.Run

/-!
# Where the parts of a program are

A program that consists of remarks, one origin and a body has its items one after the other from
the origin on. A place in it is a suffix of the body, and its address follows from how much is left.
Instructions are found where they are placed, labels stand for the place after them, and different
tables do not overlap.

## Main definitions

* `SidTune.Assembly.Program.tabled`: the labelled tables of a program.
* `SidTune.Processor.Linked`: a program with one origin whose labels are different.
* `SidTune.Processor.spot`: the address of a suffix.
* `SidTune.Processor.Holds`: memory holds bytes from an address on.

## Main results

* `SidTune.Processor.Linked.code?_spot`, `SidTune.Processor.Linked.locate_eq_spot`: instructions
  and labels are found.
* `SidTune.Processor.Linked.holds`: loaded memory holds every table.
* `SidTune.Processor.Linked.pairwise_placed`: the items are placed one after the other.
* `SidTune.Processor.Linked.apart`: different tables do not overlap.
-/

namespace SidTune.Assembly.Program

/-- The names of the labels of a program. -/
def labelNames (p : Program) : List String :=
  p.filterMap fun
    | .label name => some name
    | _ => none

/-- The labelled tables of a program. -/
def tabled : Program → List (String × Bytes)
  | .label name :: .data bytes :: rest => (name, bytes) :: tabled rest
  | _ :: rest => tabled rest
  | [] => []

/-- Whether an item is no origin and no data that is too long for its size to be counted. -/
def itemIsPlain : Item → Bool
  | .origin _ => false
  | .data bytes => bytes.length < 0x10000
  | _ => true

/-- Whether a program has only plain items. -/
def isPlain (p : Program) : Bool :=
  p.all itemIsPlain

@[simp] theorem isPlain_append (p q : Program) :
    (p ++ q : Program).isPlain = (p.isPlain && q.isPlain) :=
  List.all_append

@[simp] theorem labelNames_append (p q : Program) :
    (p ++ q : Program).labelNames = p.labelNames ++ q.labelNames :=
  List.filterMap_append

theorem mem_labelNames {p : Program} {name : String} :
    name ∈ p.labelNames ↔ .label name ∈ p := by
  rw [labelNames, List.mem_filterMap]
  constructor
  · rintro ⟨item, hmem, hsame⟩
    cases item <;> simp_all
  · exact fun hmem => ⟨_, hmem, rfl⟩

theorem map_fst_labels (pc : UInt16) (p : Program) :
    (p.labels pc).map Prod.fst = p.labelNames := by
  induction p generalizing pc with
  | nil => rfl
  | cons item rest ih => cases item <;> simp_all [labels, labelNames]

theorem lookup_labels_eq_none {p : Program} {name : String} (habsent : name ∉ p.labelNames)
    (pc : UInt16) : (p.labels pc).reverse.lookup name = none := by
  refine List.lookup_eq_none_iff.2 fun entry hmem => bne_iff_ne.2 fun hhere => habsent ?_
  rw [← map_fst_labels pc, hhere]
  exact List.mem_map_of_mem (List.mem_reverse.1 hmem)

theorem isInfix_of_mem_tabled {p : Program} {name : String} {bytes : Bytes}
    (h : (name, bytes) ∈ p.tabled) : table name bytes <:+: p := by
  fun_induction tabled p with
  | case1 name' bytes' rest ih =>
    rcases List.mem_cons.1 h with h | h
    · obtain ⟨rfl, rfl⟩ := Prod.mk.inj h
      exact ⟨[], rest, rfl⟩
    · exact (ih h).trans (List.suffix_append [Item.label name', Item.data bytes'] rest).isInfix
  | case2 item rest _ ih => exact (ih h).trans (List.suffix_cons item rest).isInfix
  | case3 => cases h

theorem endAddress_of_isPlain {p : Program} (h : p.isPlain) (pc : UInt16) :
    p.endAddress pc = pc + UInt16.ofNat p.totalSize := by
  induction p generalizing pc with
  | nil => simp [endAddress, totalSize]
  | cons item rest ih =>
    cases item <;>
      simp_all [isPlain, itemIsPlain, endAddress, totalSize, UInt16.ofNat_add, UInt16.add_assoc]

theorem mem_of_mem_placed {p : Program} {pc place : UInt16} {item : Item}
    (h : (place, item) ∈ p.placed pc) : item ∈ p := by
  induction p generalizing pc with
  | nil => cases h
  | cons first rest ih =>
    have hlater {pc : UInt16} (h : (place, item) ∈ placed pc rest) : item ∈ first :: rest :=
      List.mem_cons_of_mem _ (ih h)
    cases first with
    | origin | comment | blank => exact hlater h
    | label | code | data =>
      rcases List.mem_cons.1 h with heq | h
      · obtain ⟨-, rfl⟩ := Prod.mk.inj heq
        exact List.mem_cons_self
      · exact hlater h

theorem toNat_next {item : Item} {rest : Program} {pc : UInt16}
    (hfits : pc.toNat + Program.totalSize (item :: rest) < 0x10000) :
    (pc + UInt16.ofNat item.size).toNat = pc.toNat + item.size := by
  simp only [totalSize] at hfits
  rw [UInt16.toNat_add, UInt16.toNat_ofNat', Nat.mod_eq_of_lt (by omega),
    Nat.mod_eq_of_lt (by omega)]

theorem isPlain_tail {item : Item} {rest : Program} (h : isPlain (item :: rest)) :
    isPlain rest := by
  simp only [isPlain, List.all_cons, Bool.and_eq_true] at h ⊢
  exact h.2

theorem placed_cons {item : Item} {rest : Program} (h : isPlain (item :: rest)) (pc : UInt16) :
    placed pc (item :: rest) = (pc, item) :: placed (pc + UInt16.ofNat item.size) rest ∨
      placed pc (item :: rest) = placed (pc + UInt16.ofNat item.size) rest := by
  cases item <;> simp_all [placed, isPlain, itemIsPlain, Item.size]

/-- The items of a program without an origin lie in the range that its size says. -/
theorem toNat_of_mem_placed {p : Program} (h : p.isPlain) {pc place : UInt16} {item : Item}
    (hfits : pc.toNat + p.totalSize < 0x10000) (hmem : (place, item) ∈ p.placed pc) :
    pc.toNat ≤ place.toNat ∧ place.toNat + item.size ≤ pc.toNat + p.totalSize := by
  induction p generalizing pc with
  | nil => cases hmem
  | cons first rest ih =>
    have hnext := toNat_next hfits
    have hkey : (place, item) = (pc, first) ∨
        (place, item) ∈ placed (pc + UInt16.ofNat first.size) rest := by
      rcases placed_cons h pc with heq | heq
      · exact List.mem_cons.1 (heq ▸ hmem)
      · exact .inr (heq ▸ hmem)
    simp only [totalSize] at hfits ⊢
    rcases hkey with hkey | hkey
    · obtain ⟨rfl, rfl⟩ := Prod.mk.inj hkey
      omega
    · have := ih (isPlain_tail h) (by omega) hkey
      omega

/-- The items of a program without an origin are placed one after the other. -/
theorem pairwise_placed {p : Program} (h : p.isPlain) {pc : UInt16}
    (hfits : pc.toNat + p.totalSize < 0x10000) :
    (p.placed pc).Pairwise fun a b => a.1.toNat + a.2.size ≤ b.1.toNat := by
  induction p generalizing pc with
  | nil => exact .nil
  | cons first rest ih =>
    have hnext := toNat_next hfits
    simp only [totalSize] at hfits
    have hrest_fits : (pc + UInt16.ofNat first.size).toNat + totalSize rest < 0x10000 := by omega
    have hlater := ih (isPlain_tail h) hrest_fits
    rcases placed_cons h pc with heq | heq
    · rw [heq]
      refine .cons (fun b hb => ?_) hlater
      have := (toNat_of_mem_placed (isPlain_tail h) hrest_fits hb).1
      dsimp only
      omega
    · rwa [heq]

end SidTune.Assembly.Program

namespace SidTune.Processor

open Assembly

/-- Memory holds bytes from a place on. -/
def Holds (memory : Memory) (place : UInt16) (bytes : Bytes) : Prop :=
  ∀ (i : Nat) (h : i < bytes.length), memory (place + UInt16.ofNat i) = bytes[i]

/-- A program whose items are those of `body`, placed from `start` on between page two and the
chips, with different labels. -/
structure Linked (p : Program) (start : UInt16) (body : Program) : Prop where
  placed_eq : p.placed 0 = body.placed start
  isPlain : body.isPlain
  nodup : body.labelNames.Nodup
  above : 0x0200 ≤ start.toNat
  below : start.toNat + body.totalSize ≤ 0xD000

/-- The address of what is left of a body. -/
def spot (start : UInt16) (body rest : Program) : UInt16 :=
  start + UInt16.ofNat (body.totalSize - rest.totalSize)

namespace Linked

variable {p body rest : Program} {start : UInt16}

theorem toNat_spot (hl : Linked p start body) (rest : Program) :
    (spot start body rest).toNat = start.toNat + (body.totalSize - rest.totalSize) := by
  have := hl.below
  rw [spot, UInt16.toNat_add, UInt16.toNat_ofNat', Nat.mod_eq_of_lt (by omega),
    Nat.mod_eq_of_lt (by omega)]

theorem spot_cons {item : Item} (h : item :: rest <:+ body) :
    spot start body rest = spot start body (item :: rest) + UInt16.ofNat item.size := by
  obtain ⟨pre, rfl⟩ := h
  simp only [spot, Program.totalSize_append, Program.totalSize]
  rw [UInt16.add_assoc, ← UInt16.ofNat_add]
  congr 2
  omega

/-- The items from a place on are placed from its address on. -/
theorem placed_eq_append (hl : Linked p start body) {pre : Program} (h : pre ++ rest = body) :
    p.placed 0 = pre.placed start ++ Program.placed (spot start body rest) rest := by
  subst h
  have hplain := hl.isPlain
  rw [Program.isPlain_append, Bool.and_eq_true] at hplain
  rw [hl.placed_eq, Program.placed_append, Program.endAddress_of_isPlain hplain.1, spot,
    Program.totalSize_append, Nat.add_sub_cancel]

/-- An instruction is found where it is placed. -/
theorem code?_spot (hl : Linked p start body) {op : Mnemonic} {operand : Operand}
    (h : .code op operand :: rest <:+ body) :
    p.code? (spot start body (.code op operand :: rest)) = some (op, operand) := by
  obtain ⟨pre, rfl⟩ := h
  have hplain := hl.isPlain
  rw [Program.isPlain_append, Bool.and_eq_true] at hplain
  have hbelow := hl.below
  have haddress := hl.toNat_spot (.code op operand :: rest)
  rw [Program.totalSize_append] at hbelow haddress
  -- No instruction before the place has its address, since each takes a byte at least.
  have hnone_before : (Program.placed start pre).findSome?
      (Program.codeAt? (spot start (pre ++ .code op operand :: rest) (.code op operand :: rest))) =
      none := by
    rw [List.findSome?_eq_none_iff]
    rintro ⟨place, item⟩ hmem
    have hbound := (Program.toNat_of_mem_placed hplain.1 (by omega) hmem).2
    cases item with
    | code op' operand' =>
      have hsize_pos : 0 < (Item.code op' operand').size := by
        cases op' <;> cases operand' <;> simp [Item.size, Mnemonic.width, Mnemonic.isRelative] <;>
          split <;> omega
      refine if_neg fun heq => ?_
      rw [heq] at hbound
      omega
    | _ => rfl
  rw [Program.code?, hl.placed_eq_append rfl, List.findSome?_append, hnone_before]
  simp [Program.placed, Program.codeAt?]

/-- A label stands for the place after it. -/
theorem locate_eq_spot (hl : Linked p start body) {name : String}
    (h : .label name :: rest <:+ body) : p.locate name = spot start body rest := by
  obtain ⟨pre, rfl⟩ := h
  have hnames := hl.nodup
  rw [Program.labelNames_append] at hnames
  have hfresh : name ∉ rest.labelNames := by
    have := (List.nodup_append.1 hnames).2.1
    exact (List.nodup_cons.1 this).1
  have hlater := Program.lookup_labels_eq_none hfresh
    (spot start (pre ++ .label name :: rest) rest)
  have hplace : spot start (pre ++ .label name :: rest) (.label name :: rest) =
      spot start (pre ++ .label name :: rest) rest := by
    rw [spot_cons (List.suffix_append _ _)]
    simp [Item.size]
  have hlabels_eq : p.labels 0 = Program.labels start pre ++
      (name, spot start (pre ++ .label name :: rest) rest) ::
        Program.labels (spot start (pre ++ .label name :: rest) rest) rest := by
    simp only [Program.labels_eq_filterMap_placed]
    rw [hl.placed_eq_append rfl, List.filterMap_append, hplace]
    simp [Program.placed]
  rw [Program.locate, Program.resolve?, hlabels_eq]
  simp [List.lookup_append, hlater]

theorem spot_label (hl : Linked p start body) {name : String}
    (h : .label name :: rest <:+ body) :
    spot start body (.label name :: rest) = p.locate name := by
  rw [hl.locate_eq_spot h, spot_cons h]
  simp [Item.size]

/-! ### Tables -/

/-- The data of every table of the body is placed where its label stands. -/
theorem mem_placed (hl : Linked p start body) {name : String} {bytes : Bytes}
    (h : table name bytes <:+: body) : (p.locate name, .data bytes) ∈ p.placed 0 := by
  obtain ⟨pre, post, hbody⟩ := h
  have hsuffix : .label name :: .data bytes :: post <:+ body := ⟨pre, by simpa [table] using hbody⟩
  obtain ⟨pre', hpre'⟩ := (List.suffix_cons _ _).trans hsuffix
  rw [hl.locate_eq_spot hsuffix, hl.placed_eq_append hpre']
  exact List.mem_append_right _ List.mem_cons_self

theorem mem_image (hl : Linked p start body) {name : String} {bytes : Bytes}
    (h : table name bytes <:+: body) {i : Nat} (hi : i < bytes.length) :
    (p.locate name + UInt16.ofNat i, bytes[i]) ∈ p.image :=
  List.mem_flatMap.2 ⟨_, hl.mem_placed h, List.mem_mapIdx.2 ⟨i, hi, rfl⟩⟩

/-- Loaded memory holds every table of the body. -/
theorem holds (hl : Linked p start body) {name : String} {bytes : Bytes} {memory : Memory}
    (h : table name bytes <:+: body) (hloaded : ∀ c ∈ p.image, memory c.1 = c.2) :
    Holds memory (p.locate name) bytes :=
  fun _ hi => hloaded _ (hl.mem_image h hi)

theorem placed_bounds (hl : Linked p start body) {place : UInt16} {item : Item}
    (h : (place, item) ∈ p.placed 0) :
    0x0200 ≤ place.toNat ∧ place.toNat + item.size ≤ 0xD000 := by
  have habove := hl.above
  have hbelow := hl.below
  rw [hl.placed_eq] at h
  have := Program.toNat_of_mem_placed hl.isPlain (by omega) h
  omega

/-- The items of a program are placed one after the other. -/
theorem pairwise_placed (hl : Linked p start body) :
    (p.placed 0).Pairwise fun a b => a.1.toNat + a.2.size ≤ b.1.toNat := by
  have hbelow := hl.below
  rw [hl.placed_eq]
  exact Program.pairwise_placed hl.isPlain (by omega)

theorem placed_apart (hl : Linked p start body) {a b : UInt16 × Item} (ha : a ∈ p.placed 0)
    (hb : b ∈ p.placed 0) :
    a = b ∨ a.1.toNat + a.2.size ≤ b.1.toNat ∨ b.1.toNat + b.2.size ≤ a.1.toNat := by
  exact List.Pairwise.forall_of_forall_of_flip
    (R := fun a b => a = b ∨ a.1.toNat + a.2.size ≤ b.1.toNat ∨ b.1.toNat + b.2.size ≤ a.1.toNat)
    (fun _ _ => Or.inl rfl) (hl.pairwise_placed.imp fun h => Or.inr (Or.inl h))
    (hl.pairwise_placed.imp fun h => Or.inr (Or.inr h)) ha hb

theorem length_data (hl : Linked p start body) {place : UInt16} {bytes : Bytes}
    (h : (place, .data bytes) ∈ p.placed 0) : bytes.length < 0x10000 := by
  have hplain := hl.isPlain
  rw [hl.placed_eq] at h
  rw [Program.isPlain, List.all_eq_true] at hplain
  simpa [Program.itemIsPlain] using hplain _ (Program.mem_of_mem_placed h)

theorem toNat_data (hl : Linked p start body) {place : UInt16} {bytes : Bytes}
    (h : (place, .data bytes) ∈ p.placed 0) {i : Nat} (hi : i < bytes.length) :
    (place + UInt16.ofNat i).toNat = place.toNat + i := by
  have hbounds := hl.placed_bounds h
  rw [Item.size, Nat.mod_eq_of_lt (hl.length_data h)] at hbounds
  rw [UInt16.toNat_add, UInt16.toNat_ofNat', Nat.mod_eq_of_lt (a := i) (by omega),
    Nat.mod_eq_of_lt (by omega)]

theorem toNat_of_mem_dataAt (hl : Linked p start body) {a : UInt16 × Item} (h : a ∈ p.placed 0)
    {c : UInt16 × UInt8} (hc : c ∈ Program.dataAt a) :
    a.1.toNat ≤ c.1.toNat ∧ c.1.toNat < a.1.toNat + a.2.size := by
  obtain ⟨place, item⟩ := a
  cases item with
  | data bytes =>
    obtain ⟨i, hi, rfl⟩ := List.mem_mapIdx.1 hc
    simp only [Item.size, Nat.mod_eq_of_lt (hl.length_data h), hl.toNat_data h hi]
    omega
  | _ => cases hc

/-- The image lies in the range of the program. -/
theorem image_bounds (hl : Linked p start body) {c : UInt16 × UInt8} (h : c ∈ p.image) :
    0x0200 ≤ c.1.toNat ∧ c.1.toNat < 0xD000 := by
  obtain ⟨a, ha, hc⟩ := List.mem_flatMap.1 h
  have := hl.placed_bounds ha
  have := hl.toNat_of_mem_dataAt ha hc
  omega

/-- No two bytes of the image have one address. -/
theorem pairwise_image (hl : Linked p start body) :
    p.image.Pairwise fun a b => a.1 ≠ b.1 := by
  refine List.pairwise_flatMap.2 ⟨fun a ha => ?_, ?_⟩
  · obtain ⟨place, item⟩ := a
    cases item with
    | data bytes =>
      rw [List.pairwise_iff_getElem]
      intro i j hi hj hlt heq
      simp only [Program.dataAt, List.getElem_mapIdx, List.length_mapIdx] at heq hi hj
      have := congrArg UInt16.toNat heq
      rw [hl.toNat_data ha hi, hl.toNat_data ha hj] at this
      omega
    | _ => exact .nil
  · refine (List.Pairwise.and_mem.1 hl.pairwise_placed).imp ?_
    rintro a b ⟨ha, hb, hapart⟩ c hc d hd heq
    have hfirst := hl.toNat_of_mem_dataAt ha hc
    have hsecond := hl.toNat_of_mem_dataAt hb hd
    rw [heq] at hfirst
    omega

/-- Memory into which the image was written holds it. -/
theorem load_eq (hl : Linked p start body) (memory : Memory) :
    ∀ c ∈ p.image, p.load memory c.1 = c.2 := by
  suffices ∀ (image : List (UInt16 × UInt8)) (memory : Memory),
      image.Pairwise (fun a b => a.1 ≠ b.1) → ∀ c ∈ image,
        memory.after (image.map fun c => ⟨c.1, c.2⟩) c.1 = c.2 from this _ memory hl.pairwise_image
  intro image
  induction image with
  | nil => simp
  | cons first rest ih =>
    intro memory hpairwise c hc
    obtain ⟨hfresh, hpairwise⟩ := List.pairwise_cons.1 hpairwise
    rw [List.map_cons, Memory.after_cons]
    rcases List.mem_cons.1 hc with rfl | hc
    · rw [Memory.after_of_unwritten, Memory.write_same _ ⟨c.1, c.2⟩]
      intro w hw
      obtain ⟨d, hd, rfl⟩ := List.mem_map.1 hw
      exact hfresh d hd
    · exact ih _ hpairwise c hc

/-- A table of the body starts a suffix of it, where its label stands. -/
theorem exists_suffix (hl : Linked p start body) {name : String} {bytes : Bytes}
    (h : table name bytes <:+: body) :
    ∃ post : Program, .label name :: .data bytes :: post <:+ body ∧
      (p.locate name).toNat + bytes.length + post.totalSize = start.toNat + body.totalSize := by
  obtain ⟨pre, post, hbody⟩ := h
  have hsuffix : .label name :: .data bytes :: post <:+ body := ⟨pre, by simpa [table] using hbody⟩
  refine ⟨post, hsuffix, ?_⟩
  rw [hl.locate_eq_spot hsuffix, hl.toNat_spot]
  obtain ⟨pre, rfl⟩ := hsuffix
  have hshort : bytes.length < 0x10000 := by
    simpa [Program.itemIsPlain] using List.all_eq_true.1 hl.isPlain (.data bytes) (by simp)
  simp only [Program.totalSize_append, Program.totalSize, Item.size, Nat.mod_eq_of_lt hshort]
  omega

theorem totalSize_le_of_suffix {q : Program} (h : q <:+ rest) : q.totalSize ≤ rest.totalSize := by
  obtain ⟨pre, rfl⟩ := h
  rw [Program.totalSize_append]
  omega

/-- Of two different tables one lies before the other. -/
theorem apart (hl : Linked p start body) {name name' : String} {bytes bytes' : Bytes}
    (h : table name bytes <:+: body) (h' : table name' bytes' <:+: body) (hne : name ≠ name') :
    (p.locate name).toNat + bytes.length ≤ (p.locate name').toNat ∨
      (p.locate name').toNat + bytes'.length ≤ (p.locate name).toNat := by
  obtain ⟨post, hsuffix, hsize⟩ := hl.exists_suffix h
  obtain ⟨post', hsuffix', hsize'⟩ := hl.exists_suffix h'
  -- The longer of the two suffixes has the shorter one behind its own table.
  have hbehind {name name' : String} {bytes bytes' : Bytes} {post post' : Program}
      (hne : name' ≠ name) (hs : Item.label name' :: Item.data bytes' :: post' <:+
        Item.label name :: Item.data bytes :: post) :
      Program.totalSize (Item.data bytes' :: post') ≤ Program.totalSize post := by
    rcases List.suffix_cons_iff.1 hs with heq | hs
    · simp_all
    · rcases List.suffix_cons_iff.1 hs with heq | hs
      · simp_all
      · exact totalSize_le_of_suffix ((List.suffix_cons _ _).trans hs)
  have hbelow := hl.below
  have hshort : bytes.length % 0x10000 = bytes.length ∧ bytes'.length % 0x10000 = bytes'.length :=
    ⟨Nat.mod_eq_of_lt (by omega), Nat.mod_eq_of_lt (by omega)⟩
  rcases List.suffix_or_suffix_of_suffix hsuffix hsuffix' with hs | hs
  · have := hbehind hne hs
    simp only [Program.totalSize, Item.size] at this
    omega
  · have := hbehind hne.symm hs
    simp only [Program.totalSize, Item.size] at this
    omega

theorem within (hl : Linked p start body) {name : String} {bytes : Bytes}
    (h : table name bytes <:+: body) :
    0x0200 ≤ (p.locate name).toNat ∧ (p.locate name).toNat + bytes.length ≤ 0xD000 := by
  obtain ⟨post, hsuffix, hsize⟩ := hl.exists_suffix h
  have hsmaller := totalSize_le_of_suffix hsuffix
  have habove := hl.above
  have hbelow := hl.below
  have hshort : bytes.length % 0x10000 = bytes.length := Nat.mod_eq_of_lt (by omega)
  simp only [Program.totalSize, Item.size] at hsmaller
  omega

end Linked

end SidTune.Processor
