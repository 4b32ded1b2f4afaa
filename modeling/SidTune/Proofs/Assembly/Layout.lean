import SidTune.Proofs.Assembly.Encoding

/-!
# How a program is laid out

A program that is assembled from one origin on is laid out as its labels say: each label stands for
the load address and the number of bytes before it. That is so if all its instructions exist, its
labels are different and all that are named are defined, and no branch is far from its target.

## Main definitions

* `SidTune.Assembly.Program.Near`: branches and their targets are near each other.
* `SidTune.Assembly.Program.Sound`: a body that can be assembled.
* `SidTune.Assembly.Program.LaidOut`: a program, its load address and its image.

## Main results

* `SidTune.Assembly.Program.near_of_small`, `SidTune.Assembly.Program.Near.append`: small programs
  have near branches, and so have programs of which both parts do.
* `SidTune.Assembly.Program.exists_laidOut`: a program with a body that can be assembled is
  laid out.
-/

namespace SidTune.Assembly.Program

open Processor (Linked spot)

/-! ### Branches -/

/-- Of every branch, the program has the target, and not too far away. -/
def Near (p : Program) : Prop :=
  ∀ pre op name post, p = pre ++ .code op (.label name) :: post → op.isRelative →
    ∃ before after, p = before ++ .label name :: after ∧
      -128 ≤ (totalSize before : Int) - (totalSize pre + 2) ∧
      (totalSize before : Int) - (totalSize pre + 2) ≤ 127

/-- The label to which an item branches. -/
def target? : Item → Option String
  | .code op (.label name) => if op.isRelative then some name else none
  | _ => none

/-- The labels to which a program branches. -/
def targets (p : Program) : List String :=
  p.filterMap target?

@[simp] theorem targets_append (p q : Program) :
    (p ++ q : Program).targets = p.targets ++ q.targets :=
  List.filterMap_append

theorem mem_targets {p pre post : Program} {op : Mnemonic} {name : String}
    (hsplit : p = pre ++ .code op (.label name) :: post) (hrelative : op.isRelative) :
    name ∈ p.targets := by
  refine List.mem_filterMap.2 ⟨.code op (.label name), ?_, if_pos hrelative⟩
  simp [hsplit]

/-- In a program that is small enough, all branches to labels of its own are near. -/
theorem near_of_small {p : Program} (hsmall : p.totalSize ≤ 128)
    (hclosed : p.targets ⊆ p.labelNames) : p.Near := by
  intro pre op name post hsplit hrelative
  obtain ⟨before, after, hsplit'⟩ :=
    exists_split_of_mem_labelNames (hclosed (mem_targets hsplit hrelative))
  have hsize := congrArg totalSize hsplit
  have hsize' := congrArg totalSize hsplit'
  simp only [totalSize_append, totalSize, Item.size, Mnemonic.width, hrelative, if_true]
    at hsize hsize'
  exact ⟨before, after, hsplit', by omega, by omega⟩

theorem near_of_targets_nil {p : Program} (hnone : p.targets = []) : p.Near := by
  intro pre op name post hsplit hrelative
  exact absurd (mem_targets hsplit hrelative) (by simp [hnone])

/-- Whether a program has no instructions. -/
def isInert (p : Program) : Bool :=
  p.all fun
    | .code .. => false
    | _ => true

@[simp] theorem isInert_append (p q : Program) :
    (p ++ q : Program).isInert = (p.isInert && q.isInert) :=
  List.all_append

theorem of_isInert {p : Program} (hinert : p.isInert) :
    p.isPossible ∧ p.operandNames = [] ∧ p.targets = [] := by
  induction p with
  | nil => exact ⟨rfl, rfl, rfl⟩
  | cons item rest ih =>
    rw [isInert, List.all_cons, Bool.and_eq_true] at hinert
    obtain ⟨hpossible, hnamed, htargets⟩ := ih hinert.2
    cases item with
    | code => cases hinert.1
    | _ => exact ⟨hpossible, hnamed, htargets⟩

theorem split_append {p q pre post : Program} {item : Item} (h : p ++ q = pre ++ item :: post) :
    (∃ mid, p = pre ++ item :: mid) ∨ ∃ mid, pre = p ++ mid ∧ q = mid ++ item :: post := by
  rcases List.append_eq_append_iff.1 h with ⟨mid, rfl, rfl⟩ | ⟨mid, rfl, hrest⟩
  · exact .inr ⟨mid, rfl, rfl⟩
  · rcases List.cons_eq_append_iff.1 hrest with ⟨rfl, rfl⟩ | ⟨mid, rfl, rfl⟩
    · exact .inr ⟨[], by simp, rfl⟩
    · exact .inl ⟨mid, rfl⟩

theorem Near.append {p q : Program} (hp : p.Near) (hq : q.Near) : (p ++ q : Program).Near := by
  intro pre op name post hsplit hrelative
  rcases split_append hsplit with ⟨mid, hfirst⟩ | ⟨mid, rfl, hsecond⟩
  · obtain ⟨before, after, rfl, hreaches⟩ := hp pre op name mid hfirst hrelative
    exact ⟨before, after ++ q, by simp, hreaches⟩
  · obtain ⟨before, after, rfl, hreaches⟩ := hq mid op name post hsecond hrelative
    refine ⟨p ++ before, after, by simp, ?_⟩
    rw [totalSize_append, totalSize_append]
    omega

/-! ### Bodies -/

/-- A body that can be assembled. -/
structure Sound (body : Program) : Prop where
  possible : body.isPossible
  closed : body.operandNames ⊆ body.labelNames
  near : body.Near

section Linked

variable {p body : Program} {start : UInt16} (hl : Linked p start body)

include hl

/-- The address of a label is the start and the size of what stands before it. -/
theorem resolve_label {pre post : Program} {name : String}
    (hsplit : body = pre ++ .label name :: post) :
    ∃ addr, p.resolve? name = some addr ∧ addr.toNat = start.toNat + pre.totalSize := by
  have haddress := hl.locate_eq_spot ⟨pre, hsplit.symm⟩
  have hsize := congrArg totalSize hsplit
  rw [totalSize_append, totalSize, Item.size, Nat.zero_add] at hsize
  have hvalue := hl.toNat_spot post
  rw [← haddress, hsize, Nat.add_sub_cancel] at hvalue
  cases hresolved : p.resolve? name with
  | none =>
    have := hl.above
    rw [locate, hresolved, Option.getD_none, UInt16.toNat_zero] at hvalue
    omega
  | some addr =>
    rw [locate, hresolved, Option.getD_some] at hvalue
    exact ⟨addr, rfl, hvalue⟩

theorem exists_address {name : String} (hmem : name ∈ body.labelNames) :
    ∃ addr, p.resolve? name = some addr ∧ 0x00FF < addr.toNat := by
  obtain ⟨pre, post, hsplit⟩ := exists_split_of_mem_labelNames hmem
  obtain ⟨addr, hresolved, hvalue⟩ := resolve_label hl hsplit
  have := hl.above
  exact ⟨addr, hresolved, by omega⟩

variable (hsound : body.Sound)

include hsound

/-- Every branch reaches its target. -/
theorem exists_target {pre post : Program} {op : Mnemonic} {name : String}
    (hsplit : body = pre ++ .code op (.label name) :: post) (hrelative : op.isRelative) :
    ∃ addr, p.resolve? name = some addr ∧ Reaches (start.toNat + pre.totalSize) addr := by
  obtain ⟨before, after, hsplit', hnear⟩ := hsound.near pre op name post hsplit hrelative
  obtain ⟨addr, hresolved, hvalue⟩ := resolve_label hl hsplit'
  refine ⟨addr, hresolved, ?_⟩
  rw [Reaches, displacement, hvalue]
  omega

/-- Every instruction has bytes at its place. -/
theorem exists_code {pre post : Program} {op : Mnemonic} {operand : Operand}
    (hsplit : body = pre ++ .code op operand :: post) :
    ∃ bytes, instruction? p.resolve? (start.toNat + pre.totalSize) op operand = some bytes ∧
      bytes.length = op.width operand := by
  have hmem : .code op operand ∈ body := by simp [hsplit]
  refine exists_instruction (List.all_eq_true.1 hsound.possible _ hmem) (fun name hnamed => ?_) ?_
  · obtain ⟨addr, hresolved, habove⟩ :=
      exists_address hl (hsound.closed (List.mem_flatMap.2 ⟨_, hmem, hnamed⟩))
    exact ⟨addr, hresolved, not_inZeroPage habove⟩
  · rintro name addr rfl hrelative hresolved
    obtain ⟨addr', hresolved', hreaches⟩ := exists_target hl hsound hsplit hrelative
    obtain rfl := Option.some.inj (hresolved.symm.trans hresolved')
    exact hreaches

theorem exists_image : ∃ image, machineCode? p.resolve? start.toNat body = some image ∧
    image.length = body.totalSize := by
  refine exists_machineCode fun pre item post hsplit => ?_
  have hplain := List.all_eq_true.1 hl.isPlain item (by simp [hsplit])
  cases item with
  | code op operand => exact exists_code hl hsound hsplit
  | data bytes =>
    rw [itemIsPlain, decide_eq_true_eq] at hplain
    exact ⟨bytes, rfl, (Nat.mod_eq_of_lt hplain).symm⟩
  | label name =>
    obtain ⟨addr, hresolved, hvalue⟩ := resolve_label hl hsplit
    exact ⟨[], by simp [Item.bytes?, hresolved, hvalue], rfl⟩
  | comment | blank => exact ⟨[], rfl, rfl⟩
  | origin => cases hplain

/-- The bytes of the front of a body, how many they are, and where they end. -/
theorem exists_before_of_image {front post : Program} {image : Bytes}
    (hmade : machineCode? p.resolve? start.toNat body = some image)
    (hsplit : body = front ++ post) :
    ∃ before, machineCode? p.resolve? start.toNat front = some before ∧ before <+: image ∧
      before.length = front.totalSize ∧
      (endAddress start front).toNat = start.toNat + front.totalSize := by
  obtain ⟨before, after, hbefore_eq, -, rfl⟩ := machineCode?_append.1 (hsplit ▸ hmade)
  have hplain := hl.isPlain
  have hpossible := hsound.possible
  have hbelow := hl.below
  rw [hsplit, isPlain_append, Bool.and_eq_true] at hplain
  rw [hsplit, isPossible_append, Bool.and_eq_true] at hpossible
  rw [hsplit, totalSize_append] at hbelow
  refine ⟨before, hbefore_eq, List.prefix_append _ _, ?_, ?_⟩
  · refine length_machineCode hpossible.1 hplain.1 (fun name hmem addr hresolved => ?_) hbefore_eq
    obtain ⟨addr', hresolved', habove⟩ := exists_address hl (hsound.closed (by
      rw [hsplit, operandNames_append]
      exact List.mem_append_left _ hmem))
    obtain rfl := Option.some.inj (hresolved.symm.trans hresolved')
    exact not_inZeroPage habove
  · rw [endAddress_of_isPlain hplain.1, UInt16.toNat_add, UInt16.toNat_ofNat',
      Nat.mod_eq_of_lt (by omega), Nat.mod_eq_of_lt (by omega)]

end Linked

/-! ### Whole programs -/

/-- Whether an item is only for the reader. -/
def isRemark : Item → Bool
  | .comment _ | .blank => true
  | _ => false

/-- Whether an item takes a place, be it an empty one. -/
def isPlaced : Item → Bool
  | .label _ | .code .. | .data _ => true
  | _ => false

/-- A program, its load address and its image: what the labels of the program say is where an
assembler puts things. -/
structure LaidOut (p : Program) (start : UInt16) (image : Bytes) : Prop where
  /-- Every label is defined once. -/
  once : p.labelNames.Nodup
  /-- Every label that an operand names is defined. -/
  defined : ∀ op operand, .code op operand ∈ p → ∀ name ∈ operand.names, name ∈ p.labelNames
  /-- Every instruction exists with its operand. -/
  possible : ∀ op operand, .code op operand ∈ p → ∃ code, opcode? op (op.mode operand) = some code
  /-- Every label is above the zero page. -/
  above : ∀ name ∈ p.labelNames, ∃ addr, p.resolve? name = some addr ∧ 0x00FF < addr.toNat
  /-- Every branch reaches its target. -/
  reaches : ∀ pre op name post, p = pre ++ .code op (.label name) :: post → op.isRelative →
    ∃ addr, p.resolve? name = some addr ∧ Reaches (endAddress 0 pre).toNat addr
  /-- Every instruction has the bytes that its width says. -/
  encoded : ∀ pre op operand post, p = pre ++ .code op operand :: post →
    ∃ bytes, instruction? p.resolve? (endAddress 0 pre).toNat op operand = some bytes ∧
      bytes.length = op.width operand
  /-- The length of no table is cut. -/
  uncut : ∀ bytes, .data bytes ∈ p → (Item.data bytes).size = bytes.length
  /-- The program is assembled to the image. -/
  assembled : p.assemble? p.resolve? = some (start, image)
  /-- There are no other addresses of labels with which the program is assembled. -/
  unique : ∀ symbols out, p.assemble? symbols = some out →
    out = (start, image) ∧ ∀ name ∈ p.labelNames, symbols name = p.resolve? name
  /-- The image is below the chips. -/
  below : start.toNat + image.length ≤ 0xD000
  /-- The address of each item is the load address and the number of bytes before it. -/
  running : ∀ pre post, p = pre ++ post → (∃ addr, .origin addr ∈ pre) → ∃ before,
    assemble? p.resolve? pre = some (start, before) ∧ before <+: image ∧
      (endAddress 0 pre).toNat = start.toNat + before.length
  /-- The address of each label is the load address and the number of bytes before it. -/
  address : ∀ pre name post, p = pre ++ .label name :: post → ∃ before addr,
    assemble? p.resolve? pre = some (start, before) ∧ before <+: image ∧
      p.resolve? name = some addr ∧ addr.toNat = start.toNat + before.length

section LaidOut

variable {remarks body : Program} {start : UInt16} {symbols : String → Option UInt16}

/-- Remarks are not assembled. -/
theorem assemble?_remarks (hidle : remarks.all isRemark) (rest : Program) :
    assemble? symbols (remarks ++ rest) = assemble? symbols rest := by
  induction remarks with
  | nil => rfl
  | cons item later ih =>
    rw [List.all_cons, Bool.and_eq_true] at hidle
    cases item with
    | comment | blank => exact ih hidle.2
    | _ => cases hidle.1

theorem assemble?_eq_some {out : UInt16 × Bytes} (hidle : remarks.all isRemark) :
    assemble? symbols (remarks ++ .origin start :: body) = some out ↔
      machineCode? symbols start.toNat body = some out.2 ∧ out.1 = start ∧
        start.toNat + out.2.length ≤ 0x10000 := by
  obtain ⟨first, image⟩ := out
  rw [assemble?_remarks hidle, assemble?]
  simp only [Option.bind_eq_bind, Option.bind_eq_some_iff, Option.pure_def,
    Option.ite_none_right_eq_some, Option.some.injEq, Prod.mk.injEq]
  constructor
  · rintro ⟨image, hmade, hfits, rfl, rfl⟩
    exact ⟨hmade, rfl, hfits⟩
  · rintro ⟨hmade, rfl, hfits⟩
    exact ⟨image, hmade, hfits, rfl, rfl⟩

private theorem endAddress_remarks (hidle : remarks.all isRemark) (pc : UInt16) (rest : Program) :
    endAddress pc (remarks ++ .origin start :: rest) = endAddress start rest := by
  induction remarks generalizing pc with
  | nil => rfl
  | cons item later ih =>
    rw [List.all_cons, Bool.and_eq_true] at hidle
    cases item with
    | comment | blank => exact ih hidle.2 _
    | _ => cases hidle.1

private theorem labelNames_remarks (hidle : remarks.all isRemark) (start : UInt16)
    (rest : Program) :
    labelNames (remarks ++ .origin start :: rest) = rest.labelNames := by
  induction remarks with
  | nil => rfl
  | cons item later ih =>
    rw [List.all_cons, Bool.and_eq_true] at hidle
    cases item with
    | comment | blank => exact ih hidle.2
    | _ => cases hidle.1

theorem split_body (hidle : remarks.all isRemark) {pre post : Program} {item : Item}
    (hsplit : remarks ++ .origin start :: body = pre ++ item :: post) (hplaced : isPlaced item) :
    ∃ front, pre = remarks ++ .origin start :: front ∧ body = front ++ item :: post := by
  rcases split_append hsplit with ⟨mid, rfl⟩ | ⟨mid, rfl, hrest⟩
  · have hremark := List.all_eq_true.1 hidle item (by simp)
    cases item with
    | comment | blank => cases hplaced
    | _ => cases hremark
  · rcases List.cons_eq_append_iff.1 hrest with ⟨-, hsame⟩ | ⟨front, rfl, hrest⟩
    · obtain ⟨rfl, -⟩ := List.cons.inj hsame
      cases hplaced
    · exact ⟨front, rfl, (List.cons.inj hrest).2⟩

private theorem mem_body (hidle : remarks.all isRemark) {item : Item} (hplaced : isPlaced item)
    (hmem : item ∈ remarks ++ .origin start :: body) : item ∈ body := by
  obtain ⟨pre, post, hsplit⟩ := List.append_of_mem hmem
  obtain ⟨front, -, rfl⟩ := split_body hidle hsplit hplaced
  exact List.mem_append_right _ List.mem_cons_self

private theorem split_origin (hidle : remarks.all isRemark) {pre post : Program}
    (hsplit : remarks ++ .origin start :: body = pre ++ post)
    (horigin : ∃ addr, .origin addr ∈ pre) :
    ∃ front, pre = remarks ++ .origin start :: front ∧ body = front ++ post := by
  obtain ⟨addr, hmem⟩ := horigin
  rcases List.append_eq_append_iff.1 hsplit with ⟨mid, rfl, hrest⟩ | ⟨mid, rfl, -⟩
  · rcases List.cons_eq_append_iff.1 hrest with ⟨rfl, -⟩ | ⟨front, rfl, hrest⟩
    · rw [List.append_nil] at hmem
      cases List.all_eq_true.1 hidle _ hmem
    · exact ⟨front, rfl, (List.cons.inj hrest).2⟩
  · rw [List.all_append, Bool.and_eq_true] at hidle
    cases List.all_eq_true.1 hidle.1 _ hmem

section Whole

variable (hidle : remarks.all isRemark)
  (hl : Linked (remarks ++ .origin start :: body) start body) (hsound : body.Sound)

include hidle hl hsound

/-- The part of the image before a place in the body, and the address of that place. -/
theorem exists_before_of_split {front post : Program} {image : Bytes}
    (hmade : machineCode? (resolve? (remarks ++ .origin start :: body)) start.toNat body =
      some image) (hsplit : body = front ++ post) :
    ∃ before, assemble? (resolve? (remarks ++ .origin start :: body))
        (remarks ++ .origin start :: front) = some (start, before) ∧ before <+: image ∧
      before.length = front.totalSize ∧
      (endAddress 0 (remarks ++ .origin start :: front)).toNat =
        start.toNat + front.totalSize := by
  obtain ⟨before, hbefore_eq, hisPrefix, hlength, haddress⟩ :=
    exists_before_of_image hl hsound hmade hsplit
  have hbelow := hl.below
  rw [hsplit, totalSize_append] at hbelow
  refine ⟨before, (assemble?_eq_some hidle).2 ⟨hbefore_eq, rfl, ?_⟩, hisPrefix, hlength, ?_⟩
  · dsimp only
    omega
  · rw [endAddress_remarks hidle, haddress]

/-- A program with a body that can be assembled is laid out. -/
theorem exists_laidOut : ∃ image, LaidOut (remarks ++ .origin start :: body) start image := by
  obtain ⟨image, hmade, hlength⟩ := exists_image hl hsound
  have habove := hl.above
  have hbelow := hl.below
  have hnames := labelNames_remarks hidle start body
  refine ⟨image, ?once, ?defined, ?possible, ?above, ?reaches, ?encoded, ?uncut, ?assembled,
    ?unique, ?below, ?running, ?address⟩
  case once => exact hnames.symm ▸ hl.nodup
  case defined =>
    intro op operand hmem name hnamed
    rw [hnames]
    exact hsound.closed (List.mem_flatMap.2 ⟨_, mem_body hidle rfl hmem, hnamed⟩)
  case possible =>
    intro op operand hmem
    exact Option.isSome_iff_exists.1
      (List.all_eq_true.1 hsound.possible _ (mem_body hidle rfl hmem))
  case above =>
    intro name hmem
    exact exists_address hl (hnames ▸ hmem)
  case reaches =>
    -- A place in the whole program is one in the body, where the sizes so far give its address.
    intro pre op name post hsplit hrelative
    obtain ⟨front, rfl, hinside⟩ := split_body hidle hsplit rfl
    obtain ⟨before, -, -, -, haddress⟩ := exists_before_of_split hidle hl hsound hmade hinside
    rw [haddress]
    exact exists_target hl hsound hinside hrelative
  case encoded =>
    intro pre op operand post hsplit
    obtain ⟨front, rfl, hinside⟩ := split_body hidle hsplit rfl
    obtain ⟨before, -, -, -, haddress⟩ := exists_before_of_split hidle hl hsound hmade hinside
    rw [haddress]
    exact exists_code hl hsound hinside
  case uncut =>
    intro bytes hmem
    have := List.all_eq_true.1 hl.isPlain _ (mem_body hidle rfl hmem)
    rw [itemIsPlain, decide_eq_true_eq] at this
    exact Nat.mod_eq_of_lt this
  case assembled =>
    refine (assemble?_eq_some hidle).2 ⟨hmade, rfl, ?_⟩
    dsimp only
    omega
  case unique =>
    intro symbols out hassembled
    obtain ⟨hmade', hload, -⟩ := (assemble?_eq_some hidle).1 hassembled
    obtain ⟨hsame, hsymbols_eq⟩ := machineCode?_unique hsound.possible hl.isPlain hsound.closed
      (by omega) hmade' hmade
    exact ⟨Prod.ext hload hsame, hnames ▸ hsymbols_eq⟩
  case below => omega
  case running =>
    intro pre post hsplit horigin
    obtain ⟨front, rfl, hinside⟩ := split_origin hidle hsplit horigin
    obtain ⟨before, hassembled, hisPrefix, hlength, haddress⟩ :=
      exists_before_of_split hidle hl hsound hmade hinside
    exact ⟨before, hassembled, hisPrefix, hlength ▸ haddress⟩
  case address =>
    intro pre name post hsplit
    obtain ⟨front, rfl, hinside⟩ := split_body hidle hsplit rfl
    obtain ⟨before, hassembled, hisPrefix, hlength, -⟩ :=
      exists_before_of_split hidle hl hsound hmade hinside
    obtain ⟨addr, hresolved, hvalue⟩ := resolve_label hl hinside
    exact ⟨before, addr, hassembled, hisPrefix, hresolved, hlength ▸ hvalue⟩

end Whole

end LaidOut

end SidTune.Assembly.Program
