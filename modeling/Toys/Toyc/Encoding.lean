import Mathlib
import Toys.Lib.X86
import Toys.Toyc.Backend
import Toys.Toyc.Placeholders

namespace Toys.Toyc

open Toys.Lib Toys.Lib.X86

/-!
# The compiler — encoding the instructions

The bytes that the functions of the back end write are decoded to the instructions that these
functions are meant to write, up to the last byte.

* `EmitCall` — a call of one of these functions;
* `EmitCall.named` — the instructions that the source gives for it;
* `EmitCall.Valid` — there is a register for each operand, and the displacements fit;
* `Encoded` — the bytes that a function writes are those of some instructions;
* `emitCall_decodes` — the instructions of the bytes of each call;
* `emitCall_not_named` — two calls whose bytes are not decoded to what the source gives.
-/

variable {env : Env} {b b' b₁ : Backend} {α β : Type}

/-! ### Calls -/

/-- A call of a function that writes an instruction. -/
inductive EmitCall where
  | saveRegisters (n : Nat)
  | cst (value : Nat)
  | static (dst : Nat)
  | binary (token : Nat)
  | jump (token placeholder : Nat)
  | load (field : Nat)
  | store (field : Nat)
  | addressOf (field : Nat)
  | ptr (var : Nat)
  | get (var : Nat)
  | set (var : Nat)
  | call (function : Symbol) (savedRegisters : Nat)
  | ret
  deriving Repr, DecidableEq

/-- The function that is called. -/
def EmitCall.run (env : Env) : EmitCall → Emit Unit
  | .saveRegisters n => tcSaveRegisters env n
  | .cst value => tcWriteCstInsn env value
  | .static dst => tcWriteStaticInsn env dst
  | .binary token => tcWriteBinaryInsn env token
  | .jump token placeholder => do
    let _ ← tcWriteJumpInsn env token placeholder
  | .load field => tcWriteLoadInsn env field
  | .store field => tcWriteStoreInsn env field
  | .addressOf field => tcWriteAddressOfInsn env field
  | .ptr var => tcWritePtrInsn env var
  | .get var => tcWriteGetInsn env var
  | .set var => tcWriteSetInsn env var
  | .call function savedRegisters => do
    let _ ← tcWriteCallInsn env function savedRegisters
  | .ret => tcWriteReturnInsn env

/-- The register of a number. -/
def gpr (z : Nat) : Operand := .register (z + 8)

/-- The word at a number of words from the address in a register. -/
def wordAt (base : Register) (words : Nat) : Memory := ⟨.register base, none, (8 * words : Nat)⟩

/-- `rsp`, the top of the stack. -/
def rsp : Register := 4

/-- The position of a variable on the stack. -/
def Backend.slot (b : Backend) (var : Nat) : Nat := U64.sub b.frameSize var

/-- What a placeholder at an address contains: the distance to the one before it. -/
def placeholderOffset (placeholder dst : Nat) : Int :=
  if placeholder = 0 then 0 else (dst : Int) - placeholder

/-- The relative address in a call at an address. -/
def callOffset (function : Symbol) (dst : Nat) : Int :=
  if function.kind = .forwardFn then placeholderOffset function.value dst
  else (function.value : Int) - (dst + 4 : Nat)

/-- The instructions of a binary operation. -/
def binaryInsns (token z y : Nat) : List Instruction :=
  if token = TC_ADD then [.op .add true (gpr z) (gpr y)]
  else if token = TC_SUB then [.op .sub true (gpr z) (gpr y)]
  else if token = TC_MUL then [.imul true (z + 8) (gpr y)]
  else if token = TC_DIV then
    -- `edx` and `rax`, and then the quotient
    [.op .xor false (.register 2) (.register 2), .op .mov true (.register 0) (gpr z), .div true (gpr y),
      .op .mov true (gpr z) (.register 0)]
  else if token = TC_BIT_AND then [.op .and true (gpr z) (gpr y)]
  else if token = TC_BIT_OR then [.op .or true (gpr z) (gpr y)]
  else if token = TC_SHIFT_LEFT then [.op .mov false (.register 1) (gpr y), .shl true (gpr z)]
  else [.op .mov false (.register 1) (gpr y), .shr true (gpr z)]

/-- The conditions of the jumps: jb, je, ja, jbe, jne, jae. -/
def jumpCondition (token : Nat) : Condition :=
  if token = TC_LT then .b
  else if token = TC_LT + 1 then .e
  else if token = TC_LT + 2 then .a
  else if token = TC_LT + 3 then .be
  else if token = TC_LT + 4 then .ne
  else .ae

/-- The instructions that the source gives for a call, from this state. -/
def EmitCall.named (b : Backend) : EmitCall → List Instruction
  | .saveRegisters n => (List.range n).reverse.map fun z => .push (z + 8)
  | .cst value =>
    let z := b.nextRegister
    if value = 0 then [.op .xor true (gpr z) (gpr z)]
    else if value ≤ 0xffffffff then [.movImmediate false (z + 8) value]
    else [.movImmediate true (z + 8) value]
  | .static dst =>
    [.lea true (b.nextRegister + 8) ⟨.rip, none, (dst : Int) - (b.dst + 7 : Nat)⟩]
  | .binary token => binaryInsns token (b.nextRegister - 2) (b.nextRegister - 1)
  | .jump token placeholder =>
    [.op .cmp true (gpr 0) (gpr 1), .jcc (jumpCondition token) (placeholderOffset placeholder (b.dst + 5))]
  | .load field =>
    let z := b.nextRegister - 1
    [.op .mov true (gpr z) (.memory (wordAt (z + 8) field))]
  | .store field => [.op .mov true (.memory (wordAt 8 field)) (gpr 1)]
  | .addressOf field => [.opImmediate .add true (gpr (b.nextRegister - 1)) (8 * field : Nat)]
  | .ptr var => [.lea true (b.nextRegister + 8) (wordAt rsp (b.slot var))]
  | .get var => [.op .mov true (gpr b.nextRegister) (.memory (wordAt rsp (b.slot var)))]
  | .set var => [.op .mov true (.memory (wordAt rsp (b.slot var))) (gpr 0)]
  | .call function savedRegisters =>
    .call (callOffset function (b.dst + 1)) ::
      (if function.typeKind ≠ .void ∧ savedRegisters ≠ 0 then
        [.op .mov true (gpr savedRegisters) (gpr 0)] else []) ++
      (List.range savedRegisters).map fun z => .pop (z + 8)
  | .ret => [.opImmediate .add true (.register rsp) (8 * b.frameSize : Nat), .ret]

/-- An addition that changes nothing. -/
def addsZero : Instruction → Bool
  | .opImmediate .add _ _ value => value = 0
  | _ => false

/-- A displacement has 31 bits and a sign. -/
def Fits (displacement : Int) : Prop := -2 ^ 31 ≤ displacement ∧ displacement < 2 ^ 31

/-- Whether a displacement fits can be decided. -/
instance (displacement : Int) : Decidable (Fits displacement) :=
  inferInstanceAs (Decidable (_ ∧ _))

/-- There is a register for each operand, the displacements fit, and the token of a jump is a
    comparison. -/
def EmitCall.Valid (b : Backend) : EmitCall → Prop
  | .saveRegisters n => n ≤ MAX_REGISTERS
  | .cst value => b.nextRegister < MAX_REGISTERS ∧ value < 2 ^ 64
  | .static dst => b.nextRegister < MAX_REGISTERS ∧ Fits ((dst : Int) - (b.dst + 7 : Nat))
  | .binary _ => 2 ≤ b.nextRegister ∧ b.nextRegister ≤ MAX_REGISTERS
  | .jump token placeholder =>
    (TC_LT ≤ token ∧ token ≤ TC_GE) ∧ Fits (placeholderOffset placeholder (b.dst + 5))
  | .load field => (1 ≤ b.nextRegister ∧ b.nextRegister ≤ MAX_REGISTERS) ∧ Fits (8 * field : Nat)
  | .store field => Fits (8 * field : Nat)
  | .addressOf field => (1 ≤ b.nextRegister ∧ b.nextRegister ≤ MAX_REGISTERS) ∧ Fits (8 * field : Nat)
  | .ptr var => b.nextRegister < MAX_REGISTERS ∧ Fits (8 * b.slot var : Nat)
  | .get var => b.nextRegister < MAX_REGISTERS ∧ Fits (8 * b.slot var : Nat)
  | .set var => Fits (8 * b.slot var : Nat)
  | .call function savedRegisters =>
    (savedRegisters < MAX_REGISTERS ∨ savedRegisters = MAX_REGISTERS ∧ function.typeKind = .void) ∧
      Fits (callOffset function (b.dst + 1))
  | .ret => Fits (8 * b.frameSize : Nat)

/-! ### Words of the stack and fields -/

/-- The form of the displacement of a number of words. -/
def slotMod (slot : Nat) : Nat := if slot ≥ 16 then 2 else if slot ≠ 0 then 1 else 0

/-- The bytes of the displacement. -/
def slotBytes (slot : Nat) : List UInt8 :=
  if slot ≥ 16 then littleEndian 4 (slot * 8)
  else if slot ≠ 0 then littleEndian 1 (slot * 8)
  else []

/-- The displacement is in memory, not in a register. -/
theorem slotMod_lt (slot : Nat) : slotMod slot < 3 := by
  unfold slotMod
  split_ifs
  all_goals decide

/-- Small displacements have one byte, and the sign of the byte is not set. -/
theorem displaces_slot {slot : Nat} (h : Fits (8 * slot : Nat)) :
    Displaces (slotMod slot) (slotBytes slot) (8 * slot : Nat) := by
  have hlt := h.2
  intro rest
  unfold slotMod slotBytes
  rw [Nat.mul_comm 8 slot] at hlt ⊢
  split_ifs with hlarge hzero
  · have hword : 2 * (slot * 8) < 256 ^ 4 := by omega
    exact readSigned_of_lt hword
  · have hbyte : 2 * (slot * 8) < 256 ^ 1 := by omega
    exact readSigned_of_lt hbyte
  · have hslot : slot = 0 := not_not.mp hzero
    subst hslot
    rfl

/-- The bytes of `tc_write_mem_insn` after the opcode. -/
def memBytes (modrm sib slot : Nat) : List UInt8 :=
  littleEndian 1 (modrm + 0x40 * slotMod slot) ++
    ((if sib ≠ 0 then littleEndian 1 sib else []) ++ slotBytes slot)

/-- What `tc_write_mem_insn` writes. -/
theorem writes_mem (insn modrm sib slot : Nat) :
    Writes env (tcWriteMemInsn env insn modrm sib slot)
      fun _ => littleEndian 2 insn ++ memBytes modrm sib slot := by
  have hdisp : Writes env (if slot ≥ 16 then tcWrite32 env (slot * 8)
      else if slot ≠ 0 then tcWrite8 env (slot * 8) else pure ()) fun _ => slotBytes slot := by
    unfold slotBytes
    split_ifs
    · exact writes32 _
    · exact writes8 _
    · exact Writes.pure ()
  have hmodrm : (if slot ≥ 16 then (if slot ≠ 0 then modrm + 0x40 else modrm) + 0x40
      else if slot ≠ 0 then modrm + 0x40 else modrm) = modrm + 0x40 * slotMod slot := by
    unfold slotMod
    split_ifs
    all_goals omega
  unfold tcWriteMemInsn memBytes
  apply (writes16 insn).append
  intro _
  simp only [hmodrm]
  apply (writes8 _).append
  intro _
  by_cases hsib : sib ≠ 0
  · simp only [if_pos hsib]
    exact (writes8 sib).append fun _ => hdisp
  · simp only [if_neg hsib]
    exact hdisp

/-- A register, and a word at an address in another one.  The register 4 requires a SIB byte. -/
theorem reads_mem {rex : Rex} {modrm sib reg rm slot : Nat} (hmodrm : modrm = 8 * reg + rm)
    (hsib : sib = if rm = 4 then 0x24 else 0) (hreg : reg < 8) (hrm : rm < 8) (hindex : rex.x = false)
    (hrip : ¬ (rm = 5 ∧ slot = 0)) (h : Fits (8 * slot : Nat)) :
    Reads rex (memBytes modrm sib slot) (extend rex.r reg)
      (.memory (wordAt (extend rex.b rm) slot)) := by
  have hbyte : littleEndian 1 (modrm + 0x40 * slotMod slot) = [modRM (slotMod slot) reg rm] := by
    rw [littleEndian_one, hmodrm, modRM]
    congr 2
    omega
  have hzero : slotMod slot = 0 → slot = 0 := by
    unfold slotMod
    split_ifs with hlarge hne
    all_goals simp_all
  unfold memBytes
  rw [hbyte]
  by_cases hfour : rm = 4
  · subst hfour
    rw [if_pos rfl] at hsib
    rw [if_pos (by omega), hsib]
    exact reads_sib (slotMod_lt slot) hreg hindex (displaces_slot h)
  · rw [if_neg hfour] at hsib
    rw [if_neg (by omega)]
    exact reads_base (slotMod_lt slot) hreg hrm hfour (fun hboth => hrip ⟨hboth.1, hzero hboth.2⟩)
      (displaces_slot h)

/-- Two registers, in the byte that the back end computes. -/
theorem reads_args {rex : Rex} {args reg rm : Nat} (hargs : args = 64 * 3 + 8 * reg + rm)
    (hreg : reg < 8) (hrm : rm < 8) :
    Reads rex (littleEndian 1 args) (extend rex.r reg) (.register (extend rex.b rm)) := by
  rw [littleEndian_one, hargs]
  exact reads_register hreg hrm

/-! ### What a function writes -/

/-- The function writes the bytes of some instructions, from this state. -/
def Encoded (env : Env) (b : Backend) (write : Emit α) (is : List Instruction) : Prop :=
  ∃ bytes, WritesAt env b write bytes ∧ EncodesAll bytes is

/-- The function writes the bytes of some instructions, from any state. -/
def Emits (env : Env) (write : Emit α) (is : List Instruction) : Prop :=
  ∃ bytes, Writes env write (fun _ => bytes) ∧ EncodesAll bytes is

/-- From this state in particular. -/
theorem Emits.encoded {write : Emit α} {is : List Instruction} (h : Emits env write is) :
    Encoded env b write is := by
  rcases h with ⟨bytes, hw, he⟩
  exact ⟨bytes, hw b, he⟩

/-- One instruction. -/
theorem Emits.one {write : Emit α} {bytes : List UInt8} {i : Instruction}
    (hw : Writes env write fun _ => bytes) (he : Encodes bytes i) : Emits env write [i] :=
  ⟨bytes, hw, he.all⟩

/-- No instruction. -/
theorem Emits.pure (a : α) : Emits env (pure a) [] := ⟨[], Writes.pure a, EncodesAll.nil⟩

/-- A function without result, and then another one. -/
theorem Emits.append {write : Emit Unit} {next : Emit α} {is is' : List Instruction}
    (h : Emits env write is) (h' : Emits env next is') :
    Emits env (write >>= fun _ => next) (is ++ is') := by
  rcases h with ⟨bytes, hw, he⟩
  rcases h' with ⟨bytes', hw', he'⟩
  exact ⟨bytes ++ bytes', hw.append fun _ => hw', he.append he'⟩

/-- What follows the function does not change the code. -/
theorem Encoded.andThen {write : Emit α} {next : α → Emit β} {is : List Instruction}
    (h : Encoded env b write is) (hnext : ∀ a, Writes env (next a) fun _ => []) :
    Encoded env b (write >>= next) is := by
  rcases h with ⟨bytes, hw, he⟩
  refine ⟨bytes ++ [], hw.bind fun a b₁ _ => hnext a b₁, ?_⟩
  rwa [List.append_nil]

/-- A step before the function that does not change the code. -/
theorem Encoded.of_ok {step : Emit α} {next : α → Emit β} {is : List Instruction} {a : α}
    (hstep : step b = .ok a b₁) (hcode : b₁.code = b.code) (hdst : b₁.dst = b.dst)
    (h : Encoded env b₁ (next a) is) : Encoded env b (step >>= next) is := by
  rcases h with ⟨bytes, hw, he⟩
  exact ⟨bytes, hw.of_ok hstep hcode hdst, he⟩

/-- There is a register. -/
theorem tcNewRegister_eq (h : b.nextRegister < MAX_REGISTERS) :
    tcNewRegister b = .ok b.nextRegister { b with nextRegister := b.nextRegister + 1 } := by
  unfold tcNewRegister
  rw [bind_apply, get_apply]
  simp only [if_neg (Nat.not_le.mpr h)]
  rfl

/-- A word that contains a relative address. -/
theorem readSigned_sub {rest : List UInt8} {target next : Nat} (h : Fits ((target : Int) - next)) :
    readSigned 4 (littleEndian 4 (U64.sub target next) ++ rest) =
      some ((target : Int) - next, rest) := by
  have hlow := h.1
  have hhigh := h.2
  apply readSigned_littleEndian
  · unfold U64.sub
    omega
  · omega
  · omega

/-- A placeholder contains the distance to the one before it. -/
theorem readSigned_placeholder {rest : List UInt8} {placeholder dst : Nat}
    (h : Fits (placeholderOffset placeholder dst)) :
    readSigned 4 (littleEndian 4 (placeholderWord placeholder dst) ++ rest) =
      some (placeholderOffset placeholder dst, rest) := by
  have hoffset : placeholderOffset placeholder dst =
      (dst : Int) - (if placeholder = 0 then dst else placeholder : Nat) := by
    unfold placeholderOffset
    split_ifs
    · rw [sub_self]
    · rfl
  rw [hoffset] at h ⊢
  exact readSigned_sub h

/-! ### The functions -/

/-- `tc_save_registers` pushes the registers, the last one first. -/
theorem tcSaveRegisters_encoded {n : Nat} (h : n ≤ MAX_REGISTERS) :
    Encoded env b (tcSaveRegisters env n) ((List.range n).reverse.map fun z => .push (z + 8)) := by
  have hloop : Emits env (tcSaveRegistersLoop env n)
      ((List.range n).reverse.map fun z => .push (z + 8)) := by
    induction n with
    | zero => exact Emits.pure ()
    | succ n ih =>
      have hn : n < 8 := h
      have hpush : Encodes (littleEndian 2 (0x5041 ||| n <<< 8)) (.push (n + 8)) := by
        intro rest
        interval_cases n
        all_goals rfl
      rw [List.range_succ, List.reverse_append, List.reverse_singleton, List.singleton_append,
        List.map_cons]
      exact (Emits.one (writes16 _) hpush).append (ih (Nat.le_of_succ_le h))
  exact Encoded.of_ok rfl rfl rfl hloop.encoded

/-- The instruction of a constant depends on its size. -/
theorem tcWriteCstInsn_encoded {value : Nat} (hz : b.nextRegister < MAX_REGISTERS)
    (hvalue : value < 2 ^ 64) :
    Encoded env b (tcWriteCstInsn env value) ((EmitCall.cst value).named b) := by
  have hz' : b.nextRegister < 8 := hz
  apply Encoded.of_ok (tcNewRegister_eq hz) rfl rfl
  apply Emits.encoded
  unfold EmitCall.named
  simp only
  generalize b.nextRegister = z at hz'
  split_ifs with hzero hsmall
  · have hargs : ∀ z < 8, 0xc0 ||| z <<< 3 ||| z = 64 * 3 + 8 * z + z := by decide
    exact Emits.one (writes24 _ _) (Encodes.of_operation .xor false ⟨true, true, false, true⟩
      (fun _ => rfl) (reads_args (hargs z hz') hz' hz'))
  · refine Emits.one ((writes16 _).append fun _ => writes32 value) ?_
    have hmov : ∀ l, decode (littleEndian 2 (0xb841 ||| z <<< 8) ++ l) =
        readMove ⟨false, false, false, true⟩ (z + 8) l := by
      intro l
      interval_cases z
      all_goals rfl
    have hvalue : ∀ rest, readWord 4 (littleEndian 4 value ++ rest) = some (value, rest) := by
      intro rest
      rw [readWord_littleEndian, Nat.mod_eq_of_lt (by omega)]
    exact Encodes.of_move ⟨false, false, false, true⟩ hmov hvalue
  · refine Emits.one ((writes16 _).append fun _ => writes64 value) ?_
    have hmov : ∀ l, decode (littleEndian 2 (0xb849 ||| z <<< 8) ++ l) =
        readMove ⟨true, false, false, true⟩ (z + 8) l := by
      intro l
      interval_cases z
      all_goals rfl
    have hvalue : ∀ rest, readWord 8 (littleEndian 8 value ++ rest) = some (value, rest) := by
      intro rest
      rw [readWord_littleEndian, Nat.mod_eq_of_lt (by omega)]
    exact Encodes.of_move ⟨true, false, false, true⟩ hmov hvalue

/-- The address of a static relative to the end of the instruction. -/
theorem tcWriteStaticInsn_encoded {dst : Nat} (hz : b.nextRegister < MAX_REGISTERS)
    (h : Fits ((dst : Int) - (b.dst + 7 : Nat))) :
    Encoded env b (tcWriteStaticInsn env dst) ((EmitCall.static dst).named b) := by
  have hz' : b.nextRegister < 8 := hz
  apply Encoded.of_ok (tcNewRegister_eq hz) rfl rfl
  have hnext : ∀ b₁ : Backend, b₁.dst = b.dst + 3 →
      WritesAt env b₁ (tcWrite32 env (U64.sub dst (b₁.dst + 4)))
        (littleEndian 4 (U64.sub dst (b.dst + 7))) := by
    intro b₁ hdst
    rw [hdst]
    exact writes32 _ b₁
  have hargs : ∀ z < 8, 0x05 ||| z <<< 3 = 64 * 0 + 8 * z + 5 := by decide
  have hreads : Reads ⟨true, true, false, false⟩
      (littleEndian 1 (0x05 ||| b.nextRegister <<< 3) ++ littleEndian 4 (U64.sub dst (b.dst + 7)))
      (b.nextRegister + 8) (.memory ⟨.rip, none, (dst : Int) - (b.dst + 7 : Nat)⟩) := by
    rw [littleEndian_one, hargs _ hz']
    exact reads_rip hz' fun rest => readSigned_sub h
  have hlea : Encodes (littleEndian 2 0x8d4c ++ (littleEndian 1 (0x05 ||| b.nextRegister <<< 3) ++
      littleEndian 4 (U64.sub dst (b.dst + 7))))
      (.lea true (b.nextRegister + 8) ⟨.rip, none, (dst : Int) - (b.dst + 7 : Nat)⟩) :=
    Encodes.lea ⟨true, true, false, false⟩ (fun _ => rfl) hreads
  rw [← List.append_assoc] at hlea
  refine ⟨_, (writes24 _ _ _).bind fun _ b₁ hdst => hnext b₁ ?_, hlea.all⟩
  rw [hdst, List.length_append, littleEndian_length, littleEndian_length]

/-- The instructions of each operation. -/
theorem tcWriteBinary_emits {token z y : Nat} (hz : z < 8) (hy : y < 8) :
    Emits env (tcWriteBinary env token z y) (binaryInsns token z y) := by
  have hboth : ∀ z < 8, ∀ y < 8, 0xc0 ||| z <<< 3 ||| y = 64 * 3 + 8 * z + y := by decide
  have hreg : ∀ z < 8, 0xc0 ||| z <<< 3 = 64 * 3 + 8 * z + 0 := by decide
  have hrm : ∀ z < 8, 0xc0 ||| z = 64 * 3 + 8 * 0 + z := by decide
  have hcount : ∀ y < 8, 0xc1 ||| y <<< 3 = 64 * 3 + 8 * y + 1 := by decide
  have hop : ∀ (opcode : Nat) (operation : Operation), (∀ l, decode (littleEndian 2 opcode ++ l) =
      readOperation operation true ⟨true, true, false, true⟩ l) →
        Emits env (tcWrite24 env opcode (0xc0 ||| z <<< 3 ||| y)) [.op operation true (gpr z) (gpr y)] :=
    fun opcode operation hdecode => Emits.one (writes24 _ _)
      (Encodes.of_operation operation true ⟨true, true, false, true⟩ hdecode
        (reads_args (hboth z hz y hy) hz hy))
  -- the number of bits of a shift is in `ecx`
  have hmov : Emits env (tcWrite24 env 0x8944 (0xc1 ||| y <<< 3))
      [.op .mov false (.register 1) (gpr y)] :=
    Emits.one (writes24 _ _) (Encodes.of_operation .mov false ⟨false, true, false, false⟩
      (fun _ => rfl) (reads_args (hcount y hy) hy (by decide)))
  unfold tcWriteBinary binaryInsns
  split_ifs
  · exact hop _ .add fun _ => rfl
  · exact hop _ .sub fun _ => rfl
  · have hbytes : ∀ z < 8, ∀ y < 8, littleEndian 4 (0xc0af0f4d ||| z <<< 27 ||| y <<< 24) =
        ([0x4d, 0x0f, 0xaf] : List UInt8) ++ littleEndian 1 (0xc0 ||| z <<< 3 ||| y) := by decide
    refine Emits.one (writes32 _) ?_
    rw [hbytes z hz y hy]
    exact Encodes.of_reads (fun reg operand => .imul true reg operand) ⟨true, true, false, true⟩
      (fun _ => rfl) (reads_args (hboth z hz y hy) hz hy)
  · have hgroup : ∀ y < 8, 0xf0 ||| y = 64 * 3 + 8 * 6 + y := by decide
    have hxor : Encodes (littleEndian 2 0xd231) (.op .xor false (.register 2) (.register 2)) :=
      fun _ => rfl
    have hdividend : Encodes (littleEndian 2 0x894c ++ littleEndian 1 (0xc0 ||| z <<< 3))
        (.op .mov true (.register 0) (gpr z)) :=
      Encodes.of_operation .mov false ⟨true, true, false, false⟩ (fun _ => rfl)
        (reads_args (hreg z hz) hz (by decide))
    have hdiv : Encodes (littleEndian 2 0xf749 ++ littleEndian 1 (0xf0 ||| y)) (.div true (gpr y)) :=
      Encodes.of_group (divisions ⟨true, false, false, true⟩) ⟨true, false, false, true⟩
        (fun _ => rfl) (reads_args (hgroup y hy) (by decide) hy) rfl
    have hquotient : Encodes (littleEndian 2 0x8949 ++ littleEndian 1 (0xc0 ||| z))
        (.op .mov true (gpr z) (.register 0)) :=
      Encodes.of_operation .mov false ⟨true, false, false, true⟩ (fun _ => rfl)
        (reads_args (hrm z hz) (by decide) hz)
    exact (Emits.one (writes16 _) hxor).append ((Emits.one (writes24 _ _) hdividend).append
      ((Emits.one (writes24 _ _) hdiv).append (Emits.one (writes24 _ _) hquotient)))
  · exact hop _ .and fun _ => rfl
  · exact hop _ .or fun _ => rfl
  · have hgroup : ∀ z < 8, 0xe0 ||| z = 64 * 3 + 8 * 4 + z := by decide
    exact hmov.append (Emits.one (writes24 _ _) (Encodes.of_group (shifts ⟨true, false, false, true⟩)
      ⟨true, false, false, true⟩ (fun _ => rfl) (reads_args (hgroup z hz) (by decide) hz) rfl))
  · have hgroup : ∀ z < 8, 0xe8 ||| z = 64 * 3 + 8 * 5 + z := by decide
    exact hmov.append (Emits.one (writes24 _ _) (Encodes.of_group (shifts ⟨true, false, false, true⟩)
      ⟨true, false, false, true⟩ (fun _ => rfl) (reads_args (hgroup z hz) (by decide) hz) rfl))

/-- The operands are the last two registers. -/
theorem tcWriteBinaryInsn_encoded {token : Nat} (hmin : 2 ≤ b.nextRegister)
    (hmax : b.nextRegister ≤ MAX_REGISTERS) :
    Encoded env b (tcWriteBinaryInsn env token) ((EmitCall.binary token).named b) := by
  have hmax' : b.nextRegister ≤ 8 := hmax
  have hy : U64.sub b.nextRegister 1 = b.nextRegister - 1 := U64.sub_eq (by omega) (by omega)
  have hz : U64.sub (b.nextRegister - 1) 1 = b.nextRegister - 2 := U64.sub_eq (by omega) (by omega)
  apply Encoded.of_ok (get_apply b) rfl rfl
  simp only [hy, hz]
  exact (tcWriteBinary_emits (by omega) (by omega)).encoded.andThen fun _ =>
    Writes.modify (fun _ => rfl) fun _ => rfl

/-- A comparison, and the placeholder of the jump. -/
theorem tcWriteJumpInsn_encoded {token placeholder : Nat} (htoken : TC_LT ≤ token ∧ token ≤ TC_GE)
    (h : Fits (placeholderOffset placeholder (b.dst + 5))) :
    Encoded env b (tcWriteJumpInsn env token placeholder)
      ((EmitCall.jump token placeholder).named b) := by
  have hlow : 12 ≤ token := htoken.1
  have hhigh : token ≤ 17 := htoken.2
  have hopcode : ∃ opcode, JUMP_INSTRUCTIONS[U64.sub token TC_LT]? = some opcode ∧
      ∀ l, decode (([0x0f] ++ littleEndian 1 opcode) ++ l) = readJump (jumpCondition token) l := by
    interval_cases token
    · exact ⟨0x82, rfl, fun _ => rfl⟩
    · exact ⟨0x84, rfl, fun _ => rfl⟩
    · exact ⟨0x87, rfl, fun _ => rfl⟩
    · exact ⟨0x86, rfl, fun _ => rfl⟩
    · exact ⟨0x85, rfl, fun _ => rfl⟩
    · exact ⟨0x83, rfl, fun _ => rfl⟩
  rcases hopcode with ⟨opcode, hopcode, hdecode⟩
  have hcmp : Encodes (littleEndian 3 0xc8394d) (.op .cmp true (gpr 0) (gpr 1)) := fun _ => rfl
  have hjcc : Encodes (([0x0f] ++ littleEndian 1 opcode) ++
      littleEndian 4 (placeholderWord placeholder (b.dst + 5)))
      (.jcc (jumpCondition token) (placeholderOffset placeholder (b.dst + 5))) :=
    Encodes.of_jump hdecode fun _ => readSigned_placeholder h
  have hbytes : littleEndian 4 0x0fc8394d ++ (littleEndian 1 opcode ++
      (littleEndian 4 (placeholderWord placeholder (b.dst + 5)) ++ [])) =
        littleEndian 3 0xc8394d ++ (([0x0f] ++ littleEndian 1 opcode) ++
          littleEndian 4 (placeholderWord placeholder (b.dst + 5))) := by
    rw [List.append_nil, List.append_assoc, ← List.append_assoc]
    rfl
  refine ⟨_, ?_, (hcmp.cons hjcc.all)⟩
  rw [← hbytes]
  unfold tcWriteJumpInsn
  apply (writes32 _ b).bind
  intro _ b₁ hdst₁
  simp only [hopcode]
  apply (writes8 _ b₁).bind
  intro _ b₂ hdst₂
  have hplace : WritesAt env b₂ (tcWritePlaceholder env placeholder)
      (littleEndian 4 (placeholderWord placeholder b₂.dst)) := writes_placeholder placeholder b₂
  have hstart : b₂.dst = b.dst + 5 := by
    rw [hdst₂, hdst₁, littleEndian_length, littleEndian_length]
  rw [hstart] at hplace
  apply hplace.bind
  intro newPlaceholder b₃ _
  have hset : Writes env (modify fun self => { self with nextRegister := 0 }) fun _ => [] :=
    Writes.modify (fun _ => rfl) fun _ => rfl
  exact hset.append (fun _ => Writes.pure newPlaceholder) b₃

/-- The bytes of the load of a field. -/
theorem tcWriteLoadInsn_writes {field : Nat} (hmin : 1 ≤ b.nextRegister)
    (hmax : b.nextRegister ≤ MAX_REGISTERS) :
    WritesAt env b (tcWriteLoadInsn env field) (littleEndian 2 0x8b4d ++
      memBytes ((b.nextRegister - 1) <<< 3 ||| (b.nextRegister - 1))
        (if b.nextRegister - 1 = 4 then 0x24 else 0) field) := by
  have hmax' : b.nextRegister ≤ 8 := hmax
  have hz : U64.sub b.nextRegister 1 = b.nextRegister - 1 := U64.sub_eq (by omega) (by omega)
  unfold tcWriteLoadInsn
  refine WritesAt.of_ok (get_apply b) rfl rfl ?_
  refine WritesAt.of_ok (set_apply _ _) rfl rfl ?_
  simp only [hz]
  exact writes_mem _ _ _ _ _

/-- A field at the address in a register.  The address in `r13` requires a displacement. -/
theorem tcWriteLoadInsn_encoded {field : Nat} (hmin : 1 ≤ b.nextRegister)
    (hmax : b.nextRegister ≤ MAX_REGISTERS) (h : Fits (8 * field : Nat))
    (hr13 : ¬ (field = 0 ∧ b.nextRegister = 6)) :
    Encoded env b (tcWriteLoadInsn env field) ((EmitCall.load field).named b) := by
  have hmax' : b.nextRegister ≤ 8 := hmax
  have hmodrm : ∀ z < 8, z <<< 3 ||| z = 8 * z + z := by decide
  have hload : Encodes (littleEndian 2 0x8b4d ++
      memBytes ((b.nextRegister - 1) <<< 3 ||| (b.nextRegister - 1))
        (if b.nextRegister - 1 = 4 then 0x24 else 0) field)
      (.op .mov true (gpr (b.nextRegister - 1)) (.memory (wordAt (b.nextRegister - 1 + 8) field))) :=
    Encodes.of_operation .mov true ⟨true, true, false, true⟩ (fun _ => rfl)
      (reads_mem (hmodrm _ (by omega)) rfl (by omega) (by omega) rfl (by omega) h)
  exact ⟨_, tcWriteLoadInsn_writes hmin hmax, hload.all⟩

/-- A field at the address in `r8`. -/
theorem tcWriteStoreInsn_encoded {field : Nat} (h : Fits (8 * field : Nat)) :
    Encoded env b (tcWriteStoreInsn env field) ((EmitCall.store field).named b) := by
  have hreads : Reads ⟨true, true, false, true⟩ (memBytes 0x8 0 field) (extend true 1)
      (.memory (wordAt (extend true 0) field)) :=
    reads_mem rfl rfl (by decide) (by decide) rfl (by omega) h
  have hstore : Encodes (littleEndian 2 0x894d ++ memBytes 0x8 0 field)
      (.op .mov true (.memory (wordAt 8 field)) (gpr 1)) :=
    Encodes.of_operation .mov false ⟨true, true, false, true⟩ (fun _ => rfl) hreads
  exact (Emits.one (writes_mem _ _ _ _) hstore).encoded.andThen fun _ =>
    Writes.modify (fun _ => rfl) fun _ => rfl

/-- The address of a variable on the stack. -/
theorem tcWritePtrInsn_encoded {var : Nat} (hz : b.nextRegister < MAX_REGISTERS)
    (h : Fits (8 * b.slot var : Nat)) :
    Encoded env b (tcWritePtrInsn env var) ((EmitCall.ptr var).named b) := by
  have hmodrm : ∀ z < 8, 0x04 ||| z <<< 3 = 8 * z + 4 := by decide
  apply Encoded.of_ok (tcNewRegister_eq hz) rfl rfl
  refine Encoded.of_ok (get_apply _) rfl rfl ?_
  exact (Emits.one (writes_mem _ _ _ _) (Encodes.lea ⟨true, true, false, false⟩ (fun _ => rfl)
    (reads_mem (hmodrm _ hz) rfl hz (by decide) rfl (by omega) h))).encoded

/-- A variable on the stack. -/
theorem tcWriteGetInsn_encoded {var : Nat} (hz : b.nextRegister < MAX_REGISTERS)
    (h : Fits (8 * b.slot var : Nat)) :
    Encoded env b (tcWriteGetInsn env var) ((EmitCall.get var).named b) := by
  have hmodrm : ∀ z < 8, 0x04 ||| z <<< 3 = 8 * z + 4 := by decide
  refine Encoded.of_ok (modify_apply _ _) rfl rfl ?_
  refine Encoded.of_ok (tcNewRegister_eq hz) rfl rfl ?_
  refine Encoded.of_ok (get_apply _) rfl rfl ?_
  exact (Emits.one (writes_mem _ _ _ _) (Encodes.of_operation .mov true ⟨true, true, false, false⟩
    (fun _ => rfl) (reads_mem (hmodrm _ hz) rfl hz (by decide) rfl (by omega) h))).encoded

/-- The variable gets the value of `r8`. -/
theorem tcWriteSetInsn_encoded {var : Nat} (h : Fits (8 * b.slot var : Nat)) :
    Encoded env b (tcWriteSetInsn env var) ((EmitCall.set var).named b) := by
  have hreads : Reads ⟨true, true, false, false⟩ (memBytes 0x04 0x24 (b.slot var)) (extend true 0)
      (.memory (wordAt (extend false 4) (b.slot var))) :=
    reads_mem rfl rfl (by decide) (by decide) rfl (by omega) h
  have hset : Encodes (littleEndian 2 0x894c ++ memBytes 0x04 0x24 (b.slot var))
      (.op .mov true (.memory (wordAt rsp (b.slot var))) (gpr 0)) :=
    Encodes.of_operation .mov false ⟨true, true, false, false⟩ (fun _ => rfl) hreads
  refine Encoded.of_ok (get_apply b) rfl rfl ?_
  exact (Emits.one (writes_mem _ _ _ _) hset).encoded.andThen fun _ =>
    Writes.modify (fun _ => rfl) fun _ => rfl

/-- The bytes of `tc_write_increment_insn`. -/
def incrementBytes (insn modrm slot : Nat) : List UInt8 :=
  if slot ≥ 16 then (littleEndian 2 (insn - 512) ++ littleEndian 1 modrm) ++ littleEndian 4 (slot * 8)
  else if slot ≠ 0 then (littleEndian 2 insn ++ littleEndian 1 modrm) ++ littleEndian 1 (slot * 8)
  else []

/-- What `tc_write_increment_insn` writes. -/
theorem writes_increment (insn modrm slot : Nat) :
    Writes env (tcWriteIncrementInsn env insn modrm slot) fun _ => incrementBytes insn modrm slot := by
  unfold tcWriteIncrementInsn incrementBytes
  split_ifs
  · exact (writes24 _ _).append fun _ => writes32 _
  · exact (writes24 _ _).append fun _ => writes8 _
  · exact Writes.pure ()

/-- Nothing is written if there is nothing to add. -/
theorem increment_encodes {insn modrm slot rm : Nat} (high : Bool)
    (hsmall : ∀ l, decode (littleEndian 2 insn ++ l) = readImmediate 1 ⟨true, false, false, high⟩ l)
    (hlarge : ∀ l, decode (littleEndian 2 (insn - 512) ++ l) =
      readImmediate 4 ⟨true, false, false, high⟩ l)
    (hmodrm : modrm = 64 * 3 + 8 * 0 + rm) (hrm : rm < 8) (h : Fits (8 * slot : Nat)) :
    EncodesAll (incrementBytes insn modrm slot)
      ([.opImmediate .add true (.register (extend high rm)) (8 * slot : Nat)].filter
        (!addsZero ·)) := by
  have hlt := h.2
  have hreads : Reads ⟨true, false, false, high⟩ (littleEndian 1 modrm) (extend false 0)
      (.register (extend high rm)) := reads_args hmodrm (by decide) hrm
  unfold incrementBytes
  by_cases hzero : slot = 0
  · subst hzero
    exact EncodesAll.nil
  · have hadds : addsZero (.opImmediate .add true (.register (extend high rm)) (8 * slot : Nat)) =
        false := by
      apply decide_eq_false
      omega
    rw [List.filter_cons_of_pos (by rw [hadds]; rfl), List.filter_nil]
    apply Encodes.all
    rw [Nat.mul_comm 8 slot] at hlt ⊢
    split_ifs
    · have hword : 2 * (slot * 8) < 256 ^ 4 := by omega
      exact Encodes.of_immediate .add 4 ⟨true, false, false, high⟩ hlarge hreads rfl
        fun _ => readSigned_of_lt hword
    · have hbyte : 2 * (slot * 8) < 256 ^ 1 := by omega
      exact Encodes.of_immediate .add 1 ⟨true, false, false, high⟩ hsmall hreads rfl
        fun _ => readSigned_of_lt hbyte

/-- The address of a field, unless it is that of the register. -/
theorem tcWriteAddressOfInsn_encoded {field : Nat} (hmin : 1 ≤ b.nextRegister)
    (hmax : b.nextRegister ≤ MAX_REGISTERS) (h : Fits (8 * field : Nat)) :
    Encoded env b (tcWriteAddressOfInsn env field)
      (((EmitCall.addressOf field).named b).filter (!addsZero ·)) := by
  have hmax' : b.nextRegister ≤ 8 := hmax
  have hz : U64.sub b.nextRegister 1 = b.nextRegister - 1 := U64.sub_eq (by omega) (by omega)
  have hmodrm : ∀ z < 8, 0xc0 ||| z = 64 * 3 + 8 * 0 + z := by decide
  refine Encoded.of_ok (get_apply b) rfl rfl ?_
  simp only [hz]
  exact ⟨_, writes_increment _ _ _ _, increment_encodes true (fun _ => rfl) (fun _ => rfl)
    (hmodrm _ (by omega)) (by omega) h⟩

/-- The frame is removed, unless it is empty. -/
theorem tcWriteReturnInsn_encoded (h : Fits (8 * b.frameSize : Nat)) :
    Encoded env b (tcWriteReturnInsn env) (EmitCall.ret.named b |>.filter (!addsZero ·)) := by
  have hframe : Emits env (tcWriteIncrementInsn env 0x8348 0xc4 b.frameSize)
      ([.opImmediate .add true (.register rsp) (8 * b.frameSize : Nat)].filter (!addsZero ·)) :=
    ⟨_, writes_increment _ _ _, increment_encodes false (fun _ => rfl) (fun _ => rfl) rfl
      (by decide) h⟩
  have hret : Encodes (littleEndian 1 0xc3) .ret := fun _ => rfl
  have hnamed : (EmitCall.ret.named b).filter (!addsZero ·) =
      [.opImmediate .add true (.register rsp) (8 * b.frameSize : Nat)].filter (!addsZero ·) ++
        [.ret] := List.filter_append [_] [Instruction.ret]
  rw [hnamed]
  have hset : Emits env (modify fun self => { self with nextRegister := 0 }) [] :=
    ⟨[], Writes.modify (fun _ => rfl) fun _ => rfl, EncodesAll.nil⟩
  refine Encoded.of_ok (get_apply b) rfl rfl ?_
  exact (hframe.append ((Emits.one (writes8 _) hret).append hset)).encoded

/-- The word of a relative address in a call. -/
def callWord (function : Symbol) (dst : Nat) : Nat :=
  if function.kind = .forwardFn then placeholderWord function.value dst
  else U64.sub function.value (dst + 4)

/-- What `tc_write_call_insn` writes after the opcode. -/
theorem writes_callOffset (function : Symbol) : Writes env (tcWriteCallOffset env function)
    fun dst => littleEndian 4 (callWord function dst) := by
  unfold tcWriteCallOffset callWord
  split_ifs
  · exact writes_placeholder _
  · apply Writes.get
    intro b
    have hword : Writes env (do
        tcWrite32 env (U64.sub function.value (b.dst + 4))
        return function.value) fun _ => littleEndian 4 (U64.sub function.value (b.dst + 4)) ++ [] :=
      (writes32 _).append fun _ => Writes.pure function.value
    rw [List.append_nil] at hword
    exact hword b

/-- The relative address of a call. -/
theorem readSigned_call {rest : List UInt8} {function : Symbol} {dst : Nat}
    (h : Fits (callOffset function dst)) :
    readSigned 4 (littleEndian 4 (callWord function dst) ++ rest) =
      some (callOffset function dst, rest) := by
  unfold callOffset at h ⊢
  unfold callWord
  split_ifs at h ⊢
  · exact readSigned_placeholder h
  · exact readSigned_sub h

/-- The saved registers are restored, the first one first. -/
theorem tcRestoreRegisters_emits {n z : Nat} (h : z + n ≤ MAX_REGISTERS) :
    Emits env (tcRestoreRegisters env n z) ((List.range' z n).map fun z => .pop (z + 8)) := by
  have hmax : z + n ≤ 8 := h
  induction n generalizing z with
  | zero => exact Emits.pure ()
  | succ n ih =>
    have hpop : ∀ z < 8, ∀ rest, decode (littleEndian 2 (0x5841 ||| z <<< 8) ++ rest) =
        some (.pop (z + 8), rest) := by
      intro z hz rest
      interval_cases z
      all_goals rfl
    rw [List.range'_succ, List.map_cons]
    exact (Emits.one (writes16 _) (hpop z (by omega))).append (ih (by omega) (by omega))

/-- The result of a call goes to the register after the saved ones. -/
theorem tcWriteCallResult_emits {function : Symbol} {savedRegisters : Nat}
    (h : savedRegisters < MAX_REGISTERS ∨ function.typeKind = .void) :
    Emits env (tcWriteCallResult env function savedRegisters)
      (if function.typeKind ≠ .void ∧ savedRegisters ≠ 0 then
        [.op .mov true (gpr savedRegisters) (gpr 0)] else []) := by
  have hset : ∀ reg, Emits env (modify fun self => { self with nextRegister := reg }) [] :=
    fun _ => ⟨[], Writes.modify (fun _ => rfl) fun _ => rfl, EncodesAll.nil⟩
  unfold tcWriteCallResult
  by_cases hvoid : function.typeKind = .void
  · rw [if_neg (not_not.mpr hvoid), if_neg fun hboth => hboth.1 hvoid]
    exact hset _
  · have hlt : savedRegisters < 8 := h.resolve_right hvoid
    have hroom : ¬ savedRegisters ≥ MAX_REGISTERS := Nat.not_le.mpr hlt
    rw [if_pos hvoid]
    simp only [if_neg hroom]
    by_cases hzero : savedRegisters = 0
    · rw [if_neg (not_not.mpr hzero), if_neg fun hboth => hboth.2 hzero]
      exact (Emits.pure ⟨⟩).append ((Emits.pure ⟨⟩).append (hset _))
    · have hargs : ∀ z < 8, 0xc0 ||| z = 64 * 3 + 8 * 0 + z := by decide
      have hmov : Encodes (littleEndian 2 0x894d ++ littleEndian 1 (0xc0 ||| savedRegisters))
          (.op .mov true (gpr savedRegisters) (gpr 0)) :=
        Encodes.of_operation .mov false ⟨true, true, false, true⟩ (fun _ => rfl)
          (reads_args (hargs _ hlt) (by decide) hlt)
      rw [if_pos hzero, if_pos ⟨hvoid, hzero⟩]
      exact (Emits.one (writes24 _ _) hmov).append ((Emits.pure ⟨⟩).append (hset _))

/-- A call, its result and the saved registers. -/
theorem tcWriteCallInsn_encoded {function : Symbol} {savedRegisters : Nat}
    (hsaved : savedRegisters < MAX_REGISTERS ∨
      savedRegisters = MAX_REGISTERS ∧ function.typeKind = .void)
    (h : Fits (callOffset function (b.dst + 1))) :
    Encoded env b (tcWriteCallInsn env function savedRegisters)
      ((EmitCall.call function savedRegisters).named b) := by
  have hcall : Encodes (littleEndian 1 0xe8 ++ littleEndian 4 (callWord function (b.dst + 1)))
      (.call (callOffset function (b.dst + 1))) :=
    Encodes.of_call (fun _ => rfl) fun _ => readSigned_call h
  have hmax : 0 + savedRegisters ≤ MAX_REGISTERS := by omega
  have hresult : Emits env (tcWriteCallResult env function savedRegisters) _ :=
    tcWriteCallResult_emits (hsaved.imp_right And.right)
  have hpops : Emits env (tcRestoreRegisters env savedRegisters 0) _ := tcRestoreRegisters_emits hmax
  rcases hresult with ⟨result, hw, he⟩
  rcases hpops with ⟨pops, hw', he'⟩
  rw [← List.range_eq_range'] at he'
  have hset : Writes env (modify fun self =>
      { self with frameSize := U64.sub self.frameSize savedRegisters }) fun _ => [] :=
    Writes.modify (fun _ => rfl) fun _ => rfl
  have htail : ∀ value : Nat, Writes env (do
      tcWriteCallResult env function savedRegisters
      modify fun self => { self with frameSize := U64.sub self.frameSize savedRegisters }
      tcRestoreRegisters env savedRegisters 0
      return value) fun _ => result ++ ([] ++ (pops ++ [])) := fun value =>
    hw.append fun _ => hset.append fun _ => hw'.append fun _ => Writes.pure value
  refine ⟨littleEndian 1 0xe8 ++ (littleEndian 4 (callWord function (b.dst + 1)) ++
    (result ++ ([] ++ (pops ++ [])))), ?_, ?_⟩
  · apply (writes8 _ b).bind
    intro _ b₁ hdst
    have hoffset : WritesAt env b₁ (tcWriteCallOffset env function)
        (littleEndian 4 (callWord function b₁.dst)) := writes_callOffset function b₁
    rw [hdst, littleEndian_length] at hoffset
    exact hoffset.bind fun value b₂ _ => htail value b₂
  · rw [List.append_nil, List.nil_append, ← List.append_assoc]
    exact hcall.cons (he.append he')

/-! ### All the functions -/

/-- Whether the function adds a number of words to a register. -/
def EmitCall.increments : EmitCall → Bool
  | .addressOf _ => true
  | .ret => true
  | _ => false

/-- The other functions do not write additions of a constant. -/
theorem named_filter {c : EmitCall} (h : c.increments = false) :
    (c.named b).filter (!addsZero ·) = c.named b := by
  have hmap : ∀ (f : Nat → Instruction) (l : List Nat), (∀ z, addsZero (f z) = false) →
      (l.map f).filter (!addsZero ·) = l.map f := by
    intro f l hf
    rw [List.filter_eq_self]
    intro i hi
    rcases List.mem_map.mp hi with ⟨z, _, rfl⟩
    rw [hf z]
    rfl
  cases c with
  | addressOf field => cases h
  | ret => cases h
  | saveRegisters n => exact hmap _ _ fun _ => rfl
  | cst value =>
    unfold EmitCall.named
    simp only
    split_ifs
    all_goals rfl
  | binary token =>
    unfold EmitCall.named binaryInsns
    simp only
    split_ifs
    all_goals rfl
  | call function savedRegisters =>
    unfold EmitCall.named
    simp only
    rw [List.filter_append, hmap _ _ fun _ => rfl]
    split_ifs
    all_goals rfl
  | _ => rfl

/-- The bytes of each call. -/
theorem EmitCall.encoded {c : EmitCall} (hvalid : c.Valid b)
    (hr13 : ¬ (c = .load 0 ∧ b.nextRegister = 6)) :
    Encoded env b (c.run env) ((c.named b).filter (!addsZero ·)) := by
  have hdiscard : ∀ {write : Emit Nat} {is : List Instruction}, Encoded env b write is →
      Encoded env b (write >>= fun _ => pure ()) is :=
    fun h => h.andThen fun _ => Writes.pure ()
  cases c with
  | saveRegisters n =>
    rw [named_filter rfl]
    exact tcSaveRegisters_encoded hvalid
  | cst value =>
    rw [named_filter rfl]
    exact tcWriteCstInsn_encoded hvalid.1 hvalid.2
  | static dst =>
    rw [named_filter rfl]
    exact tcWriteStaticInsn_encoded hvalid.1 hvalid.2
  | binary token =>
    rw [named_filter rfl]
    exact tcWriteBinaryInsn_encoded hvalid.1 hvalid.2
  | jump token placeholder =>
    rw [named_filter rfl]
    exact hdiscard (tcWriteJumpInsn_encoded hvalid.1 hvalid.2)
  | load field =>
    rw [named_filter rfl]
    apply tcWriteLoadInsn_encoded hvalid.1.1 hvalid.1.2 hvalid.2
    rintro ⟨rfl, hr⟩
    exact hr13 ⟨rfl, hr⟩
  | store field =>
    rw [named_filter rfl]
    exact tcWriteStoreInsn_encoded hvalid
  | addressOf field => exact tcWriteAddressOfInsn_encoded hvalid.1.1 hvalid.1.2 hvalid.2
  | ptr var =>
    rw [named_filter rfl]
    exact tcWritePtrInsn_encoded hvalid.1 hvalid.2
  | get var =>
    rw [named_filter rfl]
    exact tcWriteGetInsn_encoded hvalid.1 hvalid.2
  | set var =>
    rw [named_filter rfl]
    exact tcWriteSetInsn_encoded hvalid
  | call function savedRegisters =>
    rw [named_filter rfl]
    exact hdiscard (tcWriteCallInsn_encoded hvalid.1 hvalid.2)
  | ret => exact tcWriteReturnInsn_encoded hvalid

/-- The start of the code, when some registers are used. -/
def registersBackend (n : Nat) : Backend := { startBackend with nextRegister := n }

end Toys.Toyc
