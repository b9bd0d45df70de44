import Mathlib
import Toys.Lib.ByteMemory
import Toys.Lib.Outcome
import Toys.Lib.U64
import Toys.Toyc.Scanner

namespace Toys.Toyc

open Toys.Lib

/-!
# The compiler — writing the code

The functions of the back end that write the bytes of the code, the slots of the jumps whose target is
not known yet, and the instructions.

* `Backend` — the fields of `Compiler` that these functions read and write;
* `tcWrite8`, …, `tcWritePlaceholder`, `tcFillPlaceholders` — the bytes of the code;
* `tcSaveRegisters`, `tcWriteCstInsn`, …, `tcWriteReturnInsn` — the instructions;
* `Wrote`, `Writes` — bytes are written at `dst`, and the code before it does not change.

An access outside of the code buffer stops with `fault`.
-/

/-! ### The state -/

/-- The kinds of symbols. -/
inductive SymbolKind where
  | fn
  | forwardFn
  | variable
  | const
  | static
  | struct
  | field
  | void
  deriving Repr, DecidableEq

/-- What a call reads of the symbol of a function: its kind and its value, and the kind of its type. -/
structure Symbol where
  kind : SymbolKind
  value : Nat
  typeKind : SymbolKind
  deriving Repr, DecidableEq

/-- The buffer of the code, the address of the next byte, and the other fields of `Compiler` that the
    instructions depend on. -/
structure Backend where
  code : ByteMem
  dst : Nat
  dstMark : Nat
  nextRegister : Nat
  frameSize : Nat

/-- Why a function of the back end does not return. -/
inductive Halt where
  | panic (errorCode : Nat)
  | fault
  deriving Repr, DecidableEq

/-- The functions of the back end change the state, and can stop. -/
abbrev Emit := EStateM Halt Backend

/-- What does not change: the limits of the code.  The buffer of the code is not at address 0. -/
structure Env where
  codeStart : Nat
  dstLimit : Nat
  codeStart_pos : 0 < codeStart
  dstLimit_lt : dstLimit < 2 ^ 64

/-! ### Bytes -/

section
variable (env : Env)

/-- `mem_allocate`.  The new value of the pointer is the sum of the result and of the size. -/
def memAllocate (size ptr limit : Nat) : Emit Nat := do
  if size > limit ∨ ptr > limit - size then throw (.panic 1)
  return ptr

/-- Some bytes at `dst`, which is advanced. -/
def tcAllocateCode (size : Nat) : Emit Nat := do
  let self ← get
  let ptr ← memAllocate size self.dst env.dstLimit
  set { self with dst := ptr + size }
  return ptr

/-- Some bytes are in the code buffer. -/
def inCode (ptr size : Nat) : Prop := env.codeStart ≤ ptr ∧ ptr + size ≤ env.dstLimit

/-- Whether an address is in the code can be decided. -/
instance (ptr size : Nat) : Decidable (inCode env ptr size) :=
  inferInstanceAs (Decidable (env.codeStart ≤ ptr ∧ ptr + size ≤ env.dstLimit))

/-- `store8`, `store16`, `store32`, and the store of a `u64`. -/
def storeCode (size ptr value : Nat) : Emit Unit := do
  if inCode env ptr size then
    modify fun self => { self with code := self.code.store size ptr value }
  else throw .fault

/-- `load32`. -/
def load32 (ptr : Nat) : Emit Nat := do
  if inCode env ptr 4 then
    let self ← get
    return self.code.load 4 ptr
  else throw .fault

/-- `tc_write8`. -/
def tcWrite8 (value : Nat) : Emit Unit := do
  let ptr ← tcAllocateCode env 1
  storeCode env 1 ptr value

/-- `tc_write16`. -/
def tcWrite16 (value : Nat) : Emit Unit := do
  let ptr ← tcAllocateCode env 2
  storeCode env 2 ptr value

/-- `tc_write24`. -/
def tcWrite24 (opcode args : Nat) : Emit Unit := do
  tcWrite16 env opcode
  tcWrite8 env args

/-- `tc_write32`. -/
def tcWrite32 (value : Nat) : Emit Unit := do
  let ptr ← tcAllocateCode env 4
  storeCode env 4 ptr value

/-- The 8 bytes of a constant. -/
def tcWrite64 (value : Nat) : Emit Unit := do
  let ptr ← tcAllocateCode env 8
  storeCode env 8 ptr value

/-- `tc_write_placeholder`.  The result is the new value of `*placeholder_p`. -/
def tcWritePlaceholder (placeholder : Nat) : Emit Nat := do
  let self ← get
  let newPlaceholder := self.dst
  let lastPlaceholder := if placeholder = 0 then newPlaceholder else placeholder
  tcWrite32 env (U64.sub newPlaceholder lastPlaceholder)
  return newPlaceholder

/-- The loop of `tc_fill_placeholders`.  The address decreases, or is outside of the code. -/
def tcFillPlaceholdersLoop (value : Nat) : Nat → Nat → Emit Unit
  | 0, _ => throw .fault
  | n + 1, placeholder => do
    if placeholder = 0 then return
    let offset ← load32 env placeholder
    storeCode env 4 placeholder (U64.sub value (placeholder + 4))
    if offset = 0 then return
    tcFillPlaceholdersLoop value n (U64.sub placeholder offset)

/-- `tc_fill_placeholders`. -/
def tcFillPlaceholders (placeholder value : Nat) : Emit Unit :=
  tcFillPlaceholdersLoop env value (placeholder + 2) placeholder

/-! ### Instructions -/

/-- The registers `r8` to `r15`, which have the numbers 0 to 7. -/
def MAX_REGISTERS : Nat := 8

/-- `tc_new_register`. -/
def tcNewRegister : Emit Nat := do
  let self ← get
  let reg := self.nextRegister
  if reg ≥ MAX_REGISTERS then throw (.panic 105)
  set { self with nextRegister := reg + 1 }
  return reg

/-- The loop of `tc_save_registers`. -/
def tcSaveRegistersLoop : Nat → Emit Unit
  | 0 => pure ()
  | n + 1 => do
    -- push r{n+8}
    tcWrite16 env (0x5041 ||| n <<< 8)
    tcSaveRegistersLoop n

/-- `tc_save_registers`. -/
def tcSaveRegisters (n : Nat) : Emit Unit := do
  modify fun self => { self with frameSize := U64.add self.frameSize n, nextRegister := 0 }
  tcSaveRegistersLoop env n

/-- `tc_write_cst_insn`. -/
def tcWriteCstInsn (value : Nat) : Emit Unit := do
  let z ← tcNewRegister
  if value = 0 then
    -- xor r{z+8},r{z+8}
    tcWrite24 env 0x314d (0xc0 ||| z <<< 3 ||| z)
  else if value ≤ 0xffffffff then
    -- mov r{z+8},value32
    tcWrite16 env (0xb841 ||| z <<< 8)
    tcWrite32 env value
  else
    -- movabs r{z+8},value64
    tcWrite16 env (0xb849 ||| z <<< 8)
    tcWrite64 env value

/-- `tc_write_static_insn`. -/
def tcWriteStaticInsn (dst : Nat) : Emit Unit := do
  let z ← tcNewRegister
  -- lea r{z+8},[rip+offset32]
  tcWrite24 env 0x8d4c (0x05 ||| z <<< 3)
  let self ← get
  tcWrite32 env (U64.sub dst (self.dst + 4))

/-- The bytes that `tc_write_binary_insn` writes. -/
def tcWriteBinary (token z y : Nat) : Emit Unit := do
  if token = TC_ADD then
    -- add r{z+8},r{y+8}
    tcWrite24 env 0x034d (0xc0 ||| z <<< 3 ||| y)
  else if token = TC_SUB then
    -- sub r{z+8},r{y+8}
    tcWrite24 env 0x2b4d (0xc0 ||| z <<< 3 ||| y)
  else if token = TC_MUL then
    -- imul r{z+8},r{y+8}
    tcWrite32 env (0xc0af0f4d ||| z <<< 27 ||| y <<< 24)
  else if token = TC_DIV then
    -- xor edx,edx; mov rax,r{z+8}; div r{y+8}; mov r{z+8},rax
    tcWrite16 env 0xd231
    tcWrite24 env 0x894c (0xc0 ||| z <<< 3)
    tcWrite24 env 0xf749 (0xf0 ||| y)
    tcWrite24 env 0x8949 (0xc0 ||| z)
  else if token = TC_BIT_AND then
    -- and r{z+8},r{y+8}
    tcWrite24 env 0x234d (0xc0 ||| z <<< 3 ||| y)
  else if token = TC_BIT_OR then
    -- or r{z+8},r{y+8}
    tcWrite24 env 0x0b4d (0xc0 ||| z <<< 3 ||| y)
  else if token = TC_SHIFT_LEFT then
    -- mov ecx,r{y+8}; shl r{z+8},cl
    tcWrite24 env 0x8944 (0xc1 ||| y <<< 3)
    tcWrite24 env 0xd349 (0xe0 ||| z)
  else
    -- mov ecx,r{y+8}; shr r{z+8},cl
    tcWrite24 env 0x8944 (0xc1 ||| y <<< 3)
    tcWrite24 env 0xd349 (0xe8 ||| z)

/-- `tc_write_binary_insn`. -/
def tcWriteBinaryInsn (token : Nat) : Emit Unit := do
  let self ← get
  let y := U64.sub self.nextRegister 1
  let z := U64.sub y 1
  tcWriteBinary env token z y
  modify fun self => { self with nextRegister := y }

/-- jb, je, ja, jbe, jne, jae -/
def JUMP_INSTRUCTIONS : List Nat := [0x82, 0x84, 0x87, 0x86, 0x85, 0x83]

/-- `tc_write_jump_insn`.  The result is the new value of `*placeholder_p`. -/
def tcWriteJumpInsn (token placeholder : Nat) : Emit Nat := do
  -- cmp r8,r9; j{xx} offset32
  tcWrite32 env 0x0fc8394d
  match JUMP_INSTRUCTIONS[U64.sub token TC_LT]? with
  | none => throw .fault
  | some opcode => tcWrite8 env opcode
  let newPlaceholder ← tcWritePlaceholder env placeholder
  modify fun self => { self with nextRegister := 0 }
  return newPlaceholder

/-- `tc_write_mem_insn`. -/
def tcWriteMemInsn (insn modrm sib slot : Nat) : Emit Unit := do
  tcWrite16 env insn
  let modrm := if slot ≠ 0 then modrm + 0x40 else modrm
  let modrm := if slot ≥ 16 then modrm + 0x40 else modrm
  tcWrite8 env modrm
  if sib ≠ 0 then
    tcWrite8 env sib
  if slot ≥ 16 then
    tcWrite32 env (slot * 8)
  else if slot ≠ 0 then
    tcWrite8 env (slot * 8)

/-- `tc_write_load_insn`. -/
def tcWriteLoadInsn (field : Nat) : Emit Unit := do
  let self ← get
  set { self with dstMark := self.dst }
  let z := U64.sub self.nextRegister 1
  let sib := if z = 4 then 0x24 else 0
  -- mov r{z+8},[r{z+8}+offset]
  tcWriteMemInsn env 0x8b4d (z <<< 3 ||| z) sib field

/-- `tc_write_store_insn`. -/
def tcWriteStoreInsn (field : Nat) : Emit Unit := do
  -- mov [r8+offset],r9
  tcWriteMemInsn env 0x894d 0x8 0 field
  modify fun self => { self with nextRegister := 0 }

/-- `tc_write_increment_insn`. -/
def tcWriteIncrementInsn (insn modrm slot : Nat) : Emit Unit := do
  if slot ≥ 16 then
    tcWrite24 env (insn - 512) modrm
    tcWrite32 env (slot * 8)
  else if slot ≠ 0 then
    tcWrite24 env insn modrm
    tcWrite8 env (slot * 8)

/-- `tc_write_address_of_insn`. -/
def tcWriteAddressOfInsn (field : Nat) : Emit Unit := do
  let self ← get
  let z := U64.sub self.nextRegister 1
  -- add r{z+8},offset
  tcWriteIncrementInsn env 0x8349 (0xc0 ||| z) field

/-- `tc_write_ptr_insn`. -/
def tcWritePtrInsn (var : Nat) : Emit Unit := do
  let z ← tcNewRegister
  let self ← get
  -- lea r{z+8},[rsp+offset]
  tcWriteMemInsn env 0x8d4c (0x04 ||| z <<< 3) 0x24 (U64.sub self.frameSize var)

/-- `tc_write_get_insn`. -/
def tcWriteGetInsn (var : Nat) : Emit Unit := do
  modify fun self => { self with dstMark := self.dst }
  let z ← tcNewRegister
  let self ← get
  -- mov r{z+8},[rsp+offset]
  tcWriteMemInsn env 0x8b4c (0x04 ||| z <<< 3) 0x24 (U64.sub self.frameSize var)

/-- `tc_write_set_insn`. -/
def tcWriteSetInsn (var : Nat) : Emit Unit := do
  let self ← get
  -- mov [rsp+offset],r8
  tcWriteMemInsn env 0x894c 0x04 0x24 (U64.sub self.frameSize var)
  modify fun self => { self with nextRegister := 0 }

/-- The relative address of a call.  The result is the new value of the symbol. -/
def tcWriteCallOffset (function : Symbol) : Emit Nat := do
  if function.kind = .forwardFn then
    tcWritePlaceholder env function.value
  else
    let self ← get
    tcWrite32 env (U64.sub function.value (self.dst + 4))
    return function.value

/-- What a call does with its result. -/
def tcWriteCallResult (function : Symbol) (savedRegisters : Nat) : Emit Unit := do
  if function.typeKind ≠ .void then
    if savedRegisters ≠ 0 then
      -- mov r{z+8},r8
      tcWrite24 env 0x894d (0xc0 ||| savedRegisters)
    if savedRegisters ≥ MAX_REGISTERS then throw (.panic 108)
    modify fun self => { self with nextRegister := savedRegisters + 1 }
  else
    modify fun self => { self with nextRegister := savedRegisters }

/-- The last loop of `tc_write_call_insn`, from the register `z` on. -/
def tcRestoreRegisters : Nat → Nat → Emit Unit
  | 0, _ => pure ()
  | n + 1, z => do
    -- pop r{z+8}
    tcWrite16 env (0x5841 ||| z <<< 8)
    tcRestoreRegisters n (z + 1)

/-- `tc_write_call_insn`.  The result is the new value of the symbol. -/
def tcWriteCallInsn (function : Symbol) (savedRegisters : Nat) : Emit Nat := do
  -- call offset32
  tcWrite8 env 0xe8
  let value ← tcWriteCallOffset env function
  tcWriteCallResult env function savedRegisters
  modify fun self => { self with frameSize := U64.sub self.frameSize savedRegisters }
  tcRestoreRegisters env savedRegisters 0
  return value

/-- `tc_write_return_insn`. -/
def tcWriteReturnInsn : Emit Unit := do
  let self ← get
  -- add rsp,offset
  tcWriteIncrementInsn env 0x8348 0xc4 self.frameSize
  -- ret
  tcWrite8 env 0xc3
  modify fun self => { self with nextRegister := 0 }

end

/-! ### What is written -/

variable {env : Env} {b b' b₁ b₂ : Backend} {α β : Type}

/-- Storing a word stores its bytes. -/
theorem slice_store_self (m : ByteMem) (n a v : Nat) :
    (m.store n a v).slice a n = littleEndian n v := by
  refine List.map_congr_left fun i hi => ?_
  have hlt := List.mem_range.mp hi
  rw [ByteMem.store, if_pos ⟨by omega, by omega⟩, Nat.add_sub_cancel_left]

/-- Two slices are equal byte by byte. -/
theorem eq_of_slice_eq {m m' : ByteMem} {a n : Nat} (h : m.slice a n = m'.slice a n) {i : Nat}
    (hle : a ≤ i) (hlt : i < a + n) : m i = m' i := by
  have hmem : i - a ∈ List.range n := List.mem_range.mpr (by omega)
  have heq := List.map_inj_left.mp h (i - a) hmem
  rwa [Nat.add_sub_cancel' hle] at heq

/-- Loading a word from its bytes. -/
theorem load_of_slice {m : ByteMem} {n a v : Nat} (h : m.slice a n = littleEndian n v) :
    m.load n a = v % 256 ^ n := by
  rw [← ByteMem.load_store_self m n a v]
  apply ByteMem.load_congr
  intro i hle hlt
  exact eq_of_slice_eq (h.trans (slice_store_self m n a v).symm) hle hlt

/-- A function that does not return has no room for some bytes at `dst`, or `dst` is not in the code. -/
def Fails (env : Env) (n : Nat) (b : Backend) (halt : Halt) (_ : Backend) : Prop :=
  env.codeStart ≤ b.dst → halt = .panic 1 ∧ env.dstLimit < b.dst + n

/-- Bytes were written at `dst`. -/
structure Wrote (env : Env) (bytes : List UInt8) (b b' : Backend) : Prop where
  dst : b'.dst = b.dst + bytes.length
  code : ∀ a < b.dst, b'.code a = b.code a
  slice : b'.code.slice b.dst bytes.length = bytes
  inCode : bytes ≠ [] → env.codeStart ≤ b.dst ∧ b'.dst ≤ env.dstLimit

/-- From this state, the function writes some bytes, or has no room for them. -/
def WritesAt (env : Env) (b : Backend) (write : Emit α) (bytes : List UInt8) : Prop :=
  Post write b (fun _ b' => Wrote env bytes b b') (Fails env bytes.length b)

/-- The function writes some bytes, which depend on their address. -/
def Writes (env : Env) (write : Emit α) (bytes : Nat → List UInt8) : Prop :=
  ∀ b, WritesAt env b write (bytes b.dst)

/-- Nothing is written if the code does not change. -/
theorem Wrote.nil (hcode : b'.code = b.code) (hdst : b'.dst = b.dst) : Wrote env [] b b' where
  dst := hdst
  code a _ := congrFun hcode a
  slice := rfl
  inCode h := absurd rfl h

/-- Bytes, and then other ones. -/
theorem Wrote.append {bytes bytes' : List UInt8} (h : Wrote env bytes b b₁)
    (h' : Wrote env bytes' b₁ b₂) : Wrote env (bytes ++ bytes') b b₂ where
  dst := by rw [h'.dst, h.dst, List.length_append, Nat.add_assoc]
  code a ha := by
    have hlt : a < b₁.dst := by
      rw [h.dst]
      omega
    rw [h'.code a hlt, h.code a ha]
  slice := by
    have hsame : b₂.code.slice b.dst bytes.length = b₁.code.slice b.dst bytes.length := by
      apply ByteMem.slice_congr
      intro i _ hi
      apply h'.code i
      rw [h.dst]
      exact hi
    rw [List.length_append, ByteMem.slice_add, hsame, h.slice, ← h.dst, h'.slice]
  inCode hne := by
    have hdst := h.dst
    have hdst' := h'.dst
    by_cases hbytes' : bytes' = []
    · rw [hbytes', List.length_nil] at hdst'
      rw [hbytes', List.append_nil] at hne
      have hin := h.inCode hne
      omega
    · by_cases hbytes : bytes = []
      · rw [hbytes, List.length_nil] at hdst
        have hin := h'.inCode hbytes'
        omega
      · have hin := h.inCode hbytes
        have hin' := h'.inCode hbytes'
        omega

/-- A function, and then another one. -/
theorem WritesAt.bind {write : Emit α} {next : α → Emit β} {bytes bytes' : List UInt8}
    (h : WritesAt env b write bytes)
    (h' : ∀ a b₁, b₁.dst = b.dst + bytes.length → WritesAt env b₁ (next a) bytes') :
    WritesAt env b (write >>= next) (bytes ++ bytes') := by
  have hfirst : Post write b (fun _ b' => Wrote env bytes b b')
      (Fails env (bytes ++ bytes').length b) := by
    apply h.mono (fun _ _ hw => hw)
    intro halt _ hfails hle
    rcases hfails hle with ⟨hhalt, hroom⟩
    refine ⟨hhalt, ?_⟩
    rw [List.length_append]
    omega
  apply Post.bind hfirst
  intro a b₁ hw
  apply (h' a b₁ hw.dst).mono (fun _ _ hw' => hw.append hw')
  intro halt _ hfails hle
  have hdst := hw.dst
  rcases hfails (by omega) with ⟨hhalt, hroom⟩
  refine ⟨hhalt, ?_⟩
  rw [List.length_append]
  omega

/-- A function, and then another one, which starts at the end of the bytes of the first one. -/
theorem Writes.bind {write : Emit α} {next : α → Emit β} {bytes bytes' : Nat → List UInt8}
    (h : Writes env write bytes) (h' : ∀ a, Writes env (next a) bytes') :
    Writes env (write >>= next) fun dst => bytes dst ++ bytes' (dst + (bytes dst).length) := by
  intro b
  apply (h b).bind
  intro a b₁ hdst
  rw [← hdst]
  exact h' a b₁

/-- The bytes do not depend on their address. -/
theorem Writes.append {write : Emit α} {next : α → Emit β} {bytes bytes' : List UInt8}
    (h : Writes env write fun _ => bytes) (h' : ∀ a, Writes env (next a) fun _ => bytes') :
    Writes env (write >>= next) fun _ => bytes ++ bytes' := h.bind h'

/-- A function that does not change the code. -/
theorem Writes.of_same {write : Emit α} (h : ∀ b, ∃ a b', write b = .ok a b' ∧ b'.code = b.code ∧
    b'.dst = b.dst) : Writes env write fun _ => [] := by
  intro b
  rcases h b with ⟨a, b', hwrite, hcode, hdst⟩
  rw [WritesAt, Post, hwrite]
  exact Wrote.nil hcode hdst

/-- Nothing is written. -/
theorem Writes.pure (a : α) : Writes env (pure a) fun _ => [] :=
  Writes.of_same fun b => ⟨a, b, rfl, rfl, rfl⟩

/-- The next register, the mark and the size of the frame do not count. -/
theorem Writes.modify {f : Backend → Backend} (hcode : ∀ b, (f b).code = b.code)
    (hdst : ∀ b, (f b).dst = b.dst) : Writes env (modify f) fun _ => [] :=
  Writes.of_same fun b => ⟨⟨⟩, f b, rfl, hcode b, hdst b⟩

/-- A function that reads the address of the next byte. -/
theorem Writes.get {next : Backend → Emit α} {bytes : Nat → List UInt8}
    (h : ∀ b, WritesAt env b (next b) (bytes b.dst)) : Writes env (get >>= next) bytes := h

/-- A step that does not change the code, and then a function. -/
theorem WritesAt.of_ok {step : Emit α} {next : α → Emit β} {bytes : List UInt8} {a : α}
    (hstep : step b = .ok a b₁) (hcode : b₁.code = b.code) (hdst : b₁.dst = b.dst)
    (h : WritesAt env b₁ (next a) bytes) : WritesAt env b (step >>= next) bytes := by
  unfold WritesAt Post at h ⊢
  rw [bind_ok hstep]
  revert h
  cases next a b₁ with
  | ok a' b' =>
    intro hw
    exact (Wrote.nil hcode hdst).append hw
  | error halt b' =>
    intro hfails hle
    rw [← hdst]
    exact hfails (hdst ▸ hle)

/-- The bytes are written if there is room for them. -/
theorem WritesAt.ok {write : Emit α} {bytes : List UInt8} (h : WritesAt env b write bytes)
    (hdst : env.codeStart ≤ b.dst) (hroom : b.dst + bytes.length ≤ env.dstLimit) :
    ∃ a b', write b = .ok a b' ∧ Wrote env bytes b b' := by
  cases hwrite : write b with
  | ok a b' => exact ⟨a, b', rfl, Post.of_ok (P := fun _ b' => Wrote env bytes b b') h hwrite⟩
  | error halt b' =>
    have hfails := Post.of_error h hwrite hdst
    omega

/-- The function stops if there is no room for the bytes. -/
theorem WritesAt.error {write : Emit α} {bytes : List UInt8} (h : WritesAt env b write bytes)
    (hdst : env.codeStart ≤ b.dst) (hlimit : b.dst ≤ env.dstLimit)
    (hroom : env.dstLimit < b.dst + bytes.length) : ∃ b', write b = .error (.panic 1) b' := by
  cases hwrite : write b with
  | ok a b' =>
    have hwrote := Post.of_ok h hwrite
    have hne : bytes ≠ [] := by
      rintro rfl
      exact absurd hroom (Nat.not_lt.mpr hlimit)
    have hend := (hwrote.inCode hne).2
    rw [hwrote.dst] at hend
    omega
  | error halt b' => exact ⟨b', by rw [(Post.of_error h hwrite hdst).1]⟩

/-- The limit of `mem_allocate`. -/
theorem memAllocate_post (size ptr limit : Nat) : Post (memAllocate size ptr limit) b
    (fun p b' => p = ptr ∧ b' = b ∧ ptr + size ≤ limit)
    (fun halt _ => halt = .panic 1 ∧ limit < ptr + size) := by
  unfold memAllocate
  apply Post.ite
  · intro h
    refine ⟨rfl, ?_⟩
    omega
  · intro h
    refine ⟨rfl, rfl, ?_⟩
    omega

/-- A word of some bytes is written. -/
theorem writes_word {n : Nat} (v : Nat) :
    Writes env (tcAllocateCode env n >>= fun ptr => storeCode env n ptr v)
      fun _ => littleEndian n v := by
  intro b
  rw [WritesAt, littleEndian_length]
  refine Post.bind (P := fun ptr b₁ => ptr = b.dst ∧ b₁ = { b with dst := b.dst + n } ∧
    b.dst + n ≤ env.dstLimit) ?_ ?_
  · apply post_get_bind
    refine Post.bind ((memAllocate_post n _ _).mono (fun _ _ h => h) ?_) ?_
    · rintro halt _ hroom
      exact fun _ => hroom
    · rintro _ _ ⟨rfl, rfl, hle⟩
      exact ⟨rfl, rfl, hle⟩
  · rintro _ _ ⟨rfl, rfl, hle⟩
    unfold storeCode
    apply Post.ite
    · intro hin
      refine ⟨by simp, ?_, ?_, fun _ => hin⟩
      · intro a ha
        exact ByteMem.store_of_not_mem (.inl ha)
      · rw [littleEndian_length]
        exact slice_store_self _ _ _ _
    · intro hout hin
      exact absurd ⟨hin, hle⟩ hout

/-- `tc_write8` writes the byte of its argument. -/
theorem writes8 (v : Nat) : Writes env (tcWrite8 env v) fun _ => littleEndian 1 v := writes_word v

/-- `tc_write16` writes the bytes of its argument. -/
theorem writes16 (v : Nat) : Writes env (tcWrite16 env v) fun _ => littleEndian 2 v := writes_word v

/-- `tc_write24` writes the bytes of its arguments. -/
theorem writes24 (opcode args : Nat) : Writes env (tcWrite24 env opcode args)
    fun _ => littleEndian 2 opcode ++ littleEndian 1 args :=
  (writes16 opcode).append fun _ => writes8 args

/-- `tc_write32` writes the bytes of its argument. -/
theorem writes32 (v : Nat) : Writes env (tcWrite32 env v) fun _ => littleEndian 4 v := writes_word v

/-- The bytes of a constant of 64 bits. -/
theorem writes64 (v : Nat) : Writes env (tcWrite64 env v) fun _ => littleEndian 8 v := writes_word v

/-- The word that `tc_write_placeholder` writes. -/
def placeholderWord (placeholder dst : Nat) : Nat :=
  U64.sub dst (if placeholder = 0 then dst else placeholder)

/-- A placeholder was written, and a function returns its address. -/
def Placeholder (env : Env) (placeholder : Nat) (b : Backend) (p : Nat) (b' : Backend) : Prop :=
  Wrote env (littleEndian 4 (placeholderWord placeholder b.dst)) b b' ∧ p = b.dst

/-- What `tc_write_placeholder` writes and returns. -/
theorem tcWritePlaceholder_post (placeholder : Nat) : Post (tcWritePlaceholder env placeholder) b
    (Placeholder env placeholder b) (Fails env 4 b) := by
  apply post_get_bind
  exact Post.bind (writes32 _ _) fun _ _ hw => ⟨hw, rfl⟩

/-- `tc_write_placeholder` writes one word. -/
theorem writes_placeholder (placeholder : Nat) : Writes env (tcWritePlaceholder env placeholder)
    fun dst => littleEndian 4 (placeholderWord placeholder dst) :=
  fun _ => (tcWritePlaceholder_post placeholder).mono (fun _ _ hplace => hplace.1) fun _ _ hfails =>
    hfails

end Toys.Toyc
