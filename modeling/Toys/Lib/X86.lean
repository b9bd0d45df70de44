import Mathlib
import Toys.Lib.ByteMemory

namespace Toys.Lib.X86

/-!
# x86-64 — decoding instructions

Some instructions of the 64-bit mode, and the rules that give the instruction at the start of some
bytes: an optional REX prefix, the opcode, the ModR/M byte, the SIB byte and the displacement.

* `Operand`, `Instruction` — the instructions;
* `readModRM` — the operands of a ModR/M byte;
* `decode`, `Decodes` — one instruction, and a sequence of instructions;
* `Encodes`, `EncodesAll` — bytes that are decoded to some instructions, whatever follows them;
* `readModRM_register`, `readModRM_base`, … — the forms of a ModR/M byte.
-/

/-! ### Instructions -/

/-- A register, by its number: 0 for `rax`, 1 for `rcx`, 2 for `rdx`, 4 for `rsp`, 8 for `r8`. -/
abbrev Register := Nat

/-- What an address starts from. -/
inductive Base where
  | none
  | rip
  | register (r : Register)
  deriving Repr, DecidableEq

/-- The word at the sum of the base, of the scaled index and of the displacement. -/
structure Memory where
  base : Base
  index : Option (Register × Nat)
  displacement : Int
  deriving Repr, DecidableEq

/-- An operand of an instruction. -/
inductive Operand where
  | register (r : Register)
  | memory (m : Memory)
  deriving Repr, DecidableEq

/-- The operations on two operands. -/
inductive Operation where
  | add
  | or
  | adc
  | sbb
  | and
  | sub
  | xor
  | cmp
  | mov
  deriving Repr, DecidableEq

/-- The conditions of a jump. -/
inductive Condition where
  | o
  | no
  | b
  | ae
  | e
  | ne
  | be
  | a
  | s
  | ns
  | p
  | np
  | l
  | ge
  | le
  | g
  deriving Repr, DecidableEq

/-- An instruction.  Its operands have 64 bits if it is `wide`, and 32 bits otherwise. -/
inductive Instruction where
  | push (r : Register)
  | pop (r : Register)
  | op (operation : Operation) (wide : Bool) (dst src : Operand)
  | opImmediate (operation : Operation) (wide : Bool) (dst : Operand) (value : Int)
  | movImmediate (wide : Bool) (dst : Register) (value : Nat)
  | imul (wide : Bool) (dst : Register) (src : Operand)
  | lea (wide : Bool) (dst : Register) (src : Memory)
  | div (wide : Bool) (src : Operand)
  | shl (wide : Bool) (dst : Operand)
  | shr (wide : Bool) (dst : Operand)
  | jcc (condition : Condition) (offset : Int)
  | call (offset : Int)
  | ret
  deriving Repr, DecidableEq

/-! ### Decoding -/

/-- The value of some bytes, the lowest one first. -/
def word : List UInt8 → Nat
  | [] => 0
  | c :: l => c.toNat + 256 * word l

/-- A word of `n` bytes at the start of `l`, and what follows it. -/
def readWord (n : Nat) (l : List UInt8) : Option (Nat × List UInt8) :=
  if n ≤ l.length then some (word (l.take n), l.drop n) else none

/-- The signed value of a word of `n` bytes. -/
def signed (n value : Nat) : Int := if 2 * value < 256 ^ n then value else value - 256 ^ n

/-- A signed word of `n` bytes at the start of `l`, and what follows it. -/
def readSigned (n : Nat) (l : List UInt8) : Option (Int × List UInt8) :=
  (readWord n l).map fun (value, l) => (signed n value, l)

/-- The four bits of a REX prefix. -/
structure Rex where
  w : Bool
  r : Bool
  x : Bool
  b : Bool
  deriving Repr, DecidableEq

/-- The REX prefix of a byte. -/
def Rex.ofNat (c : Nat) : Rex := ⟨c.testBit 3, c.testBit 2, c.testBit 1, c.testBit 0⟩

/-- A register, by a bit of the prefix and three bits of the instruction. -/
def extend (high : Bool) (low : Nat) : Register := if high then low + 8 else low

/-- The displacement after a ModR/M byte, and its SIB byte. -/
def readDisplacement (mod : Nat) (l : List UInt8) : Option (Int × List UInt8) :=
  if mod = 0 then some (0, l) else if mod = 1 then readSigned 1 l else readSigned 4 l

/-- The SIB byte and the displacement.  The index 4 stands for none, and the base 5 for none if
    `mod` is 0. -/
def readSib (rex : Rex) (mod : Nat) (l : List UInt8) : Option (Memory × List UInt8) :=
  match l with
  | [] => none
  | sib :: l =>
    let index := extend rex.x (sib.toNat / 8 % 8)
    let index := if index = 4 then none else some (index, 2 ^ (sib.toNat / 64))
    let base := sib.toNat % 8
    if base = 5 ∧ mod = 0 then
      (readSigned 4 l).map fun (displacement, l) => (⟨.none, index, displacement⟩, l)
    else
      (readDisplacement mod l).map fun (displacement, l) =>
        (⟨.register (extend rex.b base), index, displacement⟩, l)

/-- The ModR/M byte and what it requires: a register, another operand, and what follows them. -/
def readModRM (rex : Rex) (l : List UInt8) : Option (Register × Operand × List UInt8) :=
  match l with
  | [] => none
  | modrm :: l =>
    let mod := modrm.toNat / 64
    let reg := extend rex.r (modrm.toNat / 8 % 8)
    let rm := modrm.toNat % 8
    if mod = 3 then some (reg, .register (extend rex.b rm), l)
    else if rm = 4 then (readSib rex mod l).map fun (m, l) => (reg, .memory m, l)
    else if rm = 5 ∧ mod = 0 then
      (readSigned 4 l).map fun (displacement, l) => (reg, .memory ⟨.rip, none, displacement⟩, l)
    else
      (readDisplacement mod l).map fun (displacement, l) =>
        (reg, .memory ⟨.register (extend rex.b rm), none, displacement⟩, l)

/-- The operations of the opcodes, in order. -/
def operations : List Operation := [.add, .or, .adc, .sbb, .and, .sub, .xor, .cmp]

/-- The conditions of the opcodes, in order. -/
def conditions : List Condition :=
  [.o, .no, .b, .ae, .e, .ne, .be, .a, .s, .ns, .p, .np, .l, .ge, .le, .g]

/-- An operation on a register and another operand, and where its result goes. -/
def readOperation (operation : Operation) (toRegister : Bool) (rex : Rex) (l : List UInt8) :
    Option (Instruction × List UInt8) :=
  (readModRM rex l).map fun (reg, operand, l) =>
    (if toRegister then .op operation rex.w (.register reg) operand
      else .op operation rex.w operand (.register reg), l)

/-- An address, which requires a memory operand. -/
def readAddress (rex : Rex) (l : List UInt8) : Option (Instruction × List UInt8) :=
  match readModRM rex l with
  | some (reg, .memory m, l) => some (.lea rex.w reg m, l)
  | _ => none

/-- An operation with an immediate value of `size` bytes.  The operation is in the ModR/M byte. -/
def readImmediate (size : Nat) (rex : Rex) (l : List UInt8) : Option (Instruction × List UInt8) :=
  match readModRM ⟨rex.w, false, rex.x, rex.b⟩ l with
  | none => none
  | some (reg, operand, l) =>
    (operations[reg]?).bind fun operation =>
      (readSigned size l).map fun (value, l) => (.opImmediate operation rex.w operand value, l)

/-- A register and its new value. -/
def readMove (rex : Rex) (reg : Register) (l : List UInt8) : Option (Instruction × List UInt8) :=
  (readWord (if rex.w then 8 else 4) l).map fun (value, l) => (.movImmediate rex.w reg value, l)

/-- The relative address of a conditional jump. -/
def readJump (condition : Condition) (l : List UInt8) : Option (Instruction × List UInt8) :=
  (readSigned 4 l).map fun (offset, l) => (.jcc condition offset, l)

/-- The relative address of a call. -/
def readCall (l : List UInt8) : Option (Instruction × List UInt8) :=
  (readSigned 4 l).map fun (offset, l) => (.call offset, l)

/-- An instruction with one operand, which the ModR/M byte selects in a list. -/
def readGroup (group : Nat → Option (Operand → Instruction)) (rex : Rex) (l : List UInt8) :
    Option (Instruction × List UInt8) :=
  match readModRM ⟨rex.w, false, rex.x, rex.b⟩ l with
  | none => none
  | some (reg, operand, l) => (group reg).map fun insn => (insn operand, l)

/-- The shifts. -/
def shifts (rex : Rex) (reg : Nat) : Option (Operand → Instruction) :=
  if reg = 4 then some (.shl rex.w) else if reg = 5 then some (.shr rex.w) else none

/-- The division. -/
def divisions (rex : Rex) (reg : Nat) : Option (Operand → Instruction) :=
  if reg = 6 then some (.div rex.w) else none

/-- The instructions with two bytes of opcode. -/
def decodeLong (rex : Rex) (opcode : Nat) (l : List UInt8) : Option (Instruction × List UInt8) :=
  if opcode = 0xaf then
    (readModRM rex l).map fun (reg, operand, l) => (.imul rex.w reg operand, l)
  else if opcode / 16 = 8 then
    (conditions[opcode % 16]?).bind fun condition => readJump condition l
  else none

/-- The instruction after its prefix and its first byte of opcode. -/
def decodeOpcode (rex : Rex) (opcode : Nat) (l : List UInt8) : Option (Instruction × List UInt8) :=
  if opcode = 0x0f then
    match l with
    | [] => none
    | opcode :: l => decodeLong rex opcode.toNat l
  else if opcode < 0x40 ∧ (opcode % 8 = 1 ∨ opcode % 8 = 3) then
    match operations[opcode / 8]? with
    | some operation => readOperation operation (opcode % 8 = 3) rex l
    | none => none
  else if opcode / 8 = 10 then some (.push (extend rex.b (opcode % 8)), l)
  else if opcode / 8 = 11 then some (.pop (extend rex.b (opcode % 8)), l)
  else if opcode = 0x81 then readImmediate 4 rex l
  else if opcode = 0x83 then readImmediate 1 rex l
  else if opcode = 0x89 then readOperation .mov false rex l
  else if opcode = 0x8b then readOperation .mov true rex l
  else if opcode = 0x8d then readAddress rex l
  else if opcode / 8 = 23 then readMove rex (extend rex.b (opcode % 8)) l
  else if opcode = 0xc3 then some (.ret, l)
  else if opcode = 0xd3 then readGroup (shifts rex) rex l
  else if opcode = 0xe8 then readCall l
  else if opcode = 0xf7 then readGroup (divisions rex) rex l
  else none

/-- The instruction at the start of some bytes, and what follows it. -/
def decode (l : List UInt8) : Option (Instruction × List UInt8) :=
  match l with
  | [] => none
  | c :: l =>
    if c.toNat / 16 = 4 then
      match l with
      | [] => none
      | opcode :: l => decodeOpcode (Rex.ofNat c.toNat) opcode.toNat l
    else decodeOpcode ⟨false, false, false, false⟩ c.toNat l

/-- The bytes are decoded to a sequence of instructions, until none is left. -/
inductive Decodes : List UInt8 → List Instruction → Prop
  | nil : Decodes [] []
  | cons {l rest : List UInt8} {i : Instruction} {is : List Instruction}
      (h : decode l = some (i, rest)) (hrest : Decodes rest is) : Decodes l (i :: is)

/-- Bytes are decoded to one sequence only. -/
theorem Decodes.unique {l : List UInt8} {is is' : List Instruction} (h : Decodes l is)
    (h' : Decodes l is') : is = is' := by
  induction h generalizing is' with
  | nil =>
    cases h' with
    | nil => rfl
    | cons hnil => cases hnil
  | cons hi _ ih =>
    cases h' with
    | nil => cases hi
    | cons hi' hrest' =>
      rw [hi, Option.some.injEq, Prod.mk.injEq] at hi'
      obtain ⟨rfl, rfl⟩ := hi'
      rw [ih hrest']

/-- The only sequence of instructions of some bytes. -/
theorem Decodes.iff_eq {l : List UInt8} {is is' : List Instruction} (h : Decodes l is) :
    Decodes l is' ↔ is' = is := by
  constructor
  · intro h'
    exact h'.unique h
  · rintro rfl
    exact h

/-! ### Bytes that are decoded -/

/-- The bytes are those of an instruction, whatever follows them. -/
def Encodes (bytes : List UInt8) (i : Instruction) : Prop :=
  ∀ rest, decode (bytes ++ rest) = some (i, rest)

/-- The bytes are those of some instructions, whatever follows them. -/
def EncodesAll (bytes : List UInt8) (is : List Instruction) : Prop :=
  ∀ rest js, Decodes rest js → Decodes (bytes ++ rest) (is ++ js)

variable {bytes bytes' rest : List UInt8} {i : Instruction} {is is' : List Instruction}

/-- No instruction. -/
theorem EncodesAll.nil : EncodesAll [] [] := fun _ _ h => h

/-- The bytes of one instruction. -/
theorem Encodes.all (h : Encodes bytes i) : EncodesAll bytes [i] :=
  fun rest _ hrest => Decodes.cons (h rest) hrest

/-- The bytes of some instructions and then of other ones. -/
theorem EncodesAll.append (h : EncodesAll bytes is) (h' : EncodesAll bytes' is') :
    EncodesAll (bytes ++ bytes') (is ++ is') := by
  intro rest js hrest
  rw [List.append_assoc, List.append_assoc]
  exact h _ _ (h' _ _ hrest)

/-- The bytes of an instruction and then of other ones. -/
theorem Encodes.cons (h : Encodes bytes i) (h' : EncodesAll bytes' is) :
    EncodesAll (bytes ++ bytes') (i :: is) := h.all.append h'

/-- No byte is left. -/
theorem EncodesAll.decodes (h : EncodesAll bytes is) : Decodes bytes is := by
  have hnil := h [] [] Decodes.nil
  rwa [List.append_nil, List.append_nil] at hnil

/-! ### Words -/

variable {n v : Nat}

/-- A word of one byte. -/
theorem littleEndian_one (v : Nat) : littleEndian 1 v = [UInt8.ofNat v] := by
  simp [littleEndian]

/-- The first byte of a word, and the other ones. -/
theorem littleEndian_succ (n v : Nat) :
    littleEndian (n + 1) v = UInt8.ofNat v :: littleEndian n (v / 256) := by
  rw [littleEndian, List.range_succ_eq_map, List.map_cons, List.map_map, pow_zero, Nat.div_one]
  congr 1
  apply List.map_congr_left
  intro i _
  simp only [Function.comp_apply, Nat.div_div_eq_div_mul, pow_succ']

/-- The value of the bytes of a word. -/
theorem word_littleEndian (n v : Nat) : word (littleEndian n v) = v % 256 ^ n := by
  induction n generalizing v with
  | zero => rw [pow_zero, Nat.mod_one]; rfl
  | succ n ih =>
    have hbyte : (UInt8.ofNat v).toNat = v % 256 := UInt8.toNat_ofNat'
    rw [littleEndian_succ, word, ih, hbyte, pow_succ', Nat.mod_mul]

/-- A word is read from its bytes. -/
theorem readWord_littleEndian : readWord n (littleEndian n v ++ rest) = some (v % 256 ^ n, rest) := by
  have hlength : (littleEndian n v).length = n := littleEndian_length n v
  have hle : n ≤ (littleEndian n v ++ rest).length := by
    rw [List.length_append, hlength]
    exact Nat.le_add_right _ _
  rw [readWord, if_pos hle, List.take_left' hlength, List.drop_left' hlength, word_littleEndian]

/-- A word is read as the signed value that it represents. -/
theorem readSigned_littleEndian {d : Int} (hd : ((v % 256 ^ n : Nat) : Int) = d % (256 ^ n : Nat))
    (hmin : -(256 ^ n : Nat) ≤ 2 * d) (hmax : 2 * d < (256 ^ n : Nat)) :
    readSigned n (littleEndian n v ++ rest) = some (d, rest) := by
  have hsigned : signed n (v % 256 ^ n) = d := by
    have hpos : 0 < 256 ^ n := by positivity
    have hcast : ((256 ^ n : Nat) : Int) = 256 ^ n := by norm_cast
    unfold signed
    rw [← hcast]
    generalize 256 ^ n = size at *
    rcases lt_or_ge d 0 with hneg | hnonneg
    · -- the value of the word is larger by its size
      have hmod : d % size = d + size := by
        rw [← Int.add_emod_right, Int.emod_eq_of_lt (by omega) (by omega)]
      rw [if_neg (by omega)]
      omega
    · have hmod : d % size = d := Int.emod_eq_of_lt hnonneg (by omega)
      rw [if_pos (by omega)]
      omega
  rw [readSigned, readWord_littleEndian, Option.map_some]
  exact congrArg (fun value => some (value, rest)) hsigned

/-- A small word is not negative. -/
theorem readSigned_of_lt (h : 2 * v < 256 ^ n) :
    readSigned n (littleEndian n v ++ rest) = some ((v : Int), rest) := by
  have hpos : 0 < 256 ^ n := by positivity
  apply readSigned_littleEndian
  · rw [Int.natCast_mod]
  · omega
  · omega

/-! ### The ModR/M byte -/

/-- The ModR/M byte. -/
def modRM (mod reg rm : Nat) : UInt8 := UInt8.ofNat (64 * mod + 8 * reg + rm)

/-- Bytes that start with a ModR/M byte, and what they require. -/
def Reads (rex : Rex) (bytes : List UInt8) (reg : Register) (operand : Operand) : Prop :=
  ∀ rest, readModRM rex (bytes ++ rest) = some (reg, operand, rest)

/-- The bytes of a displacement. -/
def Displaces (mod : Nat) (bytes : List UInt8) (displacement : Int) : Prop :=
  ∀ rest, readDisplacement mod (bytes ++ rest) = some (displacement, rest)

variable {mod reg rm : Nat} {rex : Rex} {displacement : Int}

/-- The parts of a ModR/M byte. -/
theorem modRM_parts (hmod : mod < 4) (hreg : reg < 8) (hrm : rm < 8) :
    (modRM mod reg rm).toNat / 64 = mod ∧ (modRM mod reg rm).toNat / 8 % 8 = reg ∧
      (modRM mod reg rm).toNat % 8 = rm := by
  rw [modRM, UInt8.toNat_ofNat', Nat.mod_eq_of_lt (by omega)]
  omega

/-- Two registers. -/
theorem reads_register (hreg : reg < 8) (hrm : rm < 8) :
    Reads rex [modRM 3 reg rm] (extend rex.r reg) (.register (extend rex.b rm)) := by
  intro rest
  rcases modRM_parts (by decide : 3 < 4) hreg hrm with ⟨hm, hr, hb⟩
  simp only [List.singleton_append, readModRM, hm, hr, hb, if_pos]

/-- A register, and the memory at the address in another one.  The register 4 requires a SIB byte, and
    the register 5 a displacement. -/
theorem reads_base (hmod : mod < 3) (hreg : reg < 8) (hrm : rm < 8) (hsib : rm ≠ 4)
    (hrip : ¬ (rm = 5 ∧ mod = 0)) (h : Displaces mod bytes displacement) :
    Reads rex (modRM mod reg rm :: bytes) (extend rex.r reg)
      (.memory ⟨.register (extend rex.b rm), none, displacement⟩) := by
  intro rest
  rcases modRM_parts (by omega : mod < 4) hreg hrm with ⟨hm, hr, hb⟩
  simp only [List.cons_append, readModRM, hm, hr, hb, if_neg hmod.ne, if_neg hsib, if_neg hrip,
    h rest, Option.map_some]

/-- A register, and the memory at the address in the register 4 or 12. -/
theorem reads_sib (hmod : mod < 3) (hreg : reg < 8) (hindex : rex.x = false)
    (h : Displaces mod bytes displacement) :
    Reads rex (modRM mod reg 4 :: 0x24 :: bytes) (extend rex.r reg)
      (.memory ⟨.register (extend rex.b 4), none, displacement⟩) := by
  intro rest
  rcases modRM_parts (by omega : mod < 4) hreg (by decide : 4 < 8) with ⟨hm, hr, hb⟩
  have hsib : readSib rex mod ((0x24 :: bytes) ++ rest) =
      some (⟨.register (extend rex.b 4), none, displacement⟩, rest) := by
    have hbase : ¬ ((0x24 : UInt8).toNat % 8 = 5 ∧ mod = 0) := by
      rintro ⟨hfive, _⟩
      exact absurd hfive (by decide)
    have hnone : extend rex.x ((0x24 : UInt8).toNat / 8 % 8) = 4 := by
      rw [hindex]
      rfl
    simp only [List.cons_append, readSib, hnone, if_pos, if_neg hbase, h rest, Option.map_some]
    rfl
  rw [List.cons_append, readModRM]
  simp only [hm, hr, hb, if_neg hmod.ne, if_pos, hsib, Option.map_some]

/-- A register, and the memory at a relative address. -/
theorem reads_rip (hreg : reg < 8) (h : ∀ rest, readSigned 4 (bytes ++ rest) = some (displacement, rest)) :
    Reads rex (modRM 0 reg 5 :: bytes) (extend rex.r reg) (.memory ⟨.rip, none, displacement⟩) := by
  intro rest
  rcases modRM_parts (by decide : 0 < 4) hreg (by decide : 5 < 8) with ⟨hm, hr, hb⟩
  simp only [List.cons_append, readModRM, hm, hr, hb, if_neg (by decide : ¬ 0 = 3),
    if_neg (by decide : ¬ 5 = 4), and_self, if_pos, h rest, Option.map_some]

/-! ### Instructions with a constant -/

/-- A register gets a constant. -/
theorem Encodes.of_move (rex : Rex) (hdecode : ∀ l, decode (bytes ++ l) = readMove rex reg l)
    (h : ∀ rest, readWord (if rex.w then 8 else 4) (bytes' ++ rest) = some (v, rest)) :
    Encodes (bytes ++ bytes') (.movImmediate rex.w reg v) := by
  intro rest
  rw [List.append_assoc, hdecode, readMove, h rest, Option.map_some]

/-- A conditional jump. -/
theorem Encodes.of_jump {condition : Condition} {offset : Int}
    (hdecode : ∀ l, decode (bytes ++ l) = readJump condition l)
    (h : ∀ rest, readSigned 4 (bytes' ++ rest) = some (offset, rest)) :
    Encodes (bytes ++ bytes') (.jcc condition offset) := by
  intro rest
  rw [List.append_assoc, hdecode, readJump, h rest, Option.map_some]

/-- A call. -/
theorem Encodes.of_call {offset : Int} (hdecode : ∀ l, decode (bytes ++ l) = readCall l)
    (h : ∀ rest, readSigned 4 (bytes' ++ rest) = some (offset, rest)) :
    Encodes (bytes ++ bytes') (.call offset) := by
  intro rest
  rw [List.append_assoc, hdecode, readCall, h rest, Option.map_some]

/-! ### Instructions with a ModR/M byte -/

variable {operand : Operand}

/-- An instruction that only requires what its ModR/M byte does. -/
theorem Encodes.of_reads (f : Register → Operand → Instruction) (rex : Rex)
    (hdecode : ∀ l, decode (bytes ++ l) =
      (readModRM rex l).map fun (reg, operand, l) => (f reg operand, l))
    (h : Reads rex bytes' reg operand) : Encodes (bytes ++ bytes') (f reg operand) := by
  intro rest
  rw [List.append_assoc, hdecode, h rest, Option.map_some]

/-- An operation on a register and another operand. -/
theorem Encodes.of_operation (operation : Operation) (toRegister : Bool) (rex : Rex)
    (hdecode : ∀ l, decode (bytes ++ l) = readOperation operation toRegister rex l)
    (h : Reads rex bytes' reg operand) : Encodes (bytes ++ bytes')
      (if toRegister then .op operation rex.w (.register reg) operand
        else .op operation rex.w operand (.register reg)) :=
  Encodes.of_reads (fun reg operand => if toRegister then .op operation rex.w (.register reg) operand
    else .op operation rex.w operand (.register reg)) rex hdecode h

/-- An instruction that computes an address. -/
theorem Encodes.lea (rex : Rex) {m : Memory}
    (hdecode : ∀ l, decode (bytes ++ l) = readAddress rex l)
    (h : Reads rex bytes' reg (.memory m)) : Encodes (bytes ++ bytes') (.lea rex.w reg m) := by
  intro rest
  rw [List.append_assoc, hdecode, readAddress, h rest]

/-- An instruction whose operation is in the ModR/M byte. -/
theorem Encodes.of_group (group : Nat → Option (Operand → Instruction)) (rex : Rex)
    {f : Operand → Instruction} (hdecode : ∀ l, decode (bytes ++ l) = readGroup group rex l)
    (h : Reads ⟨rex.w, false, rex.x, rex.b⟩ bytes' reg operand) (hgroup : group reg = some f) :
    Encodes (bytes ++ bytes') (f operand) := by
  intro rest
  rw [List.append_assoc, hdecode, readGroup, h rest]
  simp only [hgroup, Option.map_some]

/-- An operation with an immediate value. -/
theorem Encodes.of_immediate (operation : Operation) (size : Nat) (rex : Rex) {value : Int}
    {bytes'' : List UInt8} (hdecode : ∀ l, decode (bytes ++ l) = readImmediate size rex l)
    (h : Reads ⟨rex.w, false, rex.x, rex.b⟩ bytes' reg operand)
    (hoperation : operations[reg]? = some operation)
    (hvalue : ∀ rest, readSigned size (bytes'' ++ rest) = some (value, rest)) :
    Encodes ((bytes ++ bytes') ++ bytes'') (.opImmediate operation rex.w operand value) := by
  intro rest
  rw [List.append_assoc, List.append_assoc, hdecode, readImmediate, h (bytes'' ++ rest)]
  simp only [hoperation, hvalue, Option.bind_some, Option.map_some]

end Toys.Lib.X86
