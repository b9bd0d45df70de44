import Mathlib

namespace Toys.Toyc

/-!
# The compiler — the scanner

The source code is the bytes of a text, at the addresses from 0 to its length; the scanner starts
before the byte at address 1.

* `tcReadChar` — the next character, and its type;
* `tcReadComment`, `tcReadOperator`, `tcGetKeyword` — the parts of a token;
* `tcReadToken` — the next token.

A function that reads a byte outside of the text stops with `fault`.  A loop is given one more
iteration than the text has bytes, and stops with `timeout` if it needs more.
-/

/-- Why a function of the compiler does not return. -/
inductive Stop where
  | panic (errorCode : Nat)
  | fault
  | timeout
  deriving Repr, DecidableEq

/-- The fields of `Compiler` that the scanner reads and writes. -/
structure Scanner where
  src : Nat
  nextChar : Nat
  nextCharType : Nat
  nextToken : Nat
  nextTokenData : Nat
  nextTokenLength : Nat
  deriving Repr, DecidableEq

/-- A function of the compiler changes a state, and stops or returns a value. -/
abbrev Scan := EStateM Stop Scanner

/-- `panic`: the compiler stops with an error code. -/
def panic {σ α : Type} (errorCode : Nat) : EStateM Stop σ α := throw (.panic errorCode)

/-! ### The tokens -/

/-- An integer or a character. -/
def TC_INTEGER : Nat := 2

/-- An identifier. -/
def TC_IDENTIFIER : Nat := 3

/-- The token `+`. -/
def TC_ADD : Nat := 4

/-- The token `-`. -/
def TC_SUB : Nat := 5

/-- The token `*`. -/
def TC_MUL : Nat := 6

/-- The token `/`. -/
def TC_DIV : Nat := 7

/-- The token `&`. -/
def TC_BIT_AND : Nat := 8

/-- The token `|`. -/
def TC_BIT_OR : Nat := 9

/-- The token `<<`. -/
def TC_SHIFT_LEFT : Nat := 10

/-- The token `>>`. -/
def TC_SHIFT_RIGHT : Nat := 11

/-- The token `<`. -/
def TC_LT : Nat := 12

/-- The token `>=`. -/
def TC_GE : Nat := 17

/-- The token `&&`. -/
def TC_AND : Nat := 18

/-- The token `||`. -/
def TC_OR : Nat := 19

/-- The token `->`. -/
def TC_ARROW : Nat := 20

/-- The keyword `as`. -/
def TC_AS : Nat := 138

/-- The keyword `break`. -/
def TC_BREAK : Nat := 128

/-- The keyword `const`. -/
def TC_CONST : Nat := 129

/-- The keyword `else`. -/
def TC_ELSE : Nat := 130

/-- The keyword `fn`. -/
def TC_FN : Nat := 131

/-- The keyword `if`. -/
def TC_IF : Nat := 132

/-- The keyword `let`. -/
def TC_LET : Nat := 133

/-- The keyword `loop`. -/
def TC_LOOP : Nat := 134

/-- The keyword `null`. -/
def TC_NULL : Nat := 139

/-- The keyword `return`. -/
def TC_RETURN : Nat := 135

/-- The keyword `sizeof`. -/
def TC_SIZEOF : Nat := 140

/-- The keyword `static`. -/
def TC_STATIC : Nat := 136

/-- The keyword `struct`. -/
def TC_STRUCT : Nat := 141

/-- The keyword `u32`. -/
def TC_U32 : Nat := 142

/-- The keyword `while`. -/
def TC_WHILE : Nat := 137

/-- The type of each character. -/
def TC_CHAR_TYPES : List Nat := [
  1,1,1,1,1,1,1,1,1,32,32,1,1,1,1,1,1,1,1,1,1,1,1,1,1,1,1,1,1,1,1,1,
  32,10,1,1,1,1,11,39,40,41,6,4,44,16,46,7,2,2,2,2,2,2,2,2,2,2,58,59,12,13,
  14,1,1,3,3,3,3,3,3,3,3,3,3,3,3,3,3,3,3,3,3,3,3,3,3,3,3,3,3,91,1,93,1,3,
  1,3,3,3,3,3,3,3,3,3,3,3,3,3,3,3,3,3,3,3,3,3,3,3,3,3,3,123,15,125,1,1,
  1,1,1,1,1,1,1,1,1,1,1,1,1,1,1,1,1,1,1,1,1,1,1,1,1,1,1,1,1,1,1,1,
  1,1,1,1,1,1,1,1,1,1,1,1,1,1,1,1,1,1,1,1,1,1,1,1,1,1,1,1,1,1,1,1,
  1,1,1,1,1,1,1,1,1,1,1,1,1,1,1,1,1,1,1,1,1,1,1,1,1,1,1,1,1,1,1,1,
  1,1,1,1,1,1,1,1,1,1,1,1,1,1,1,1,1,1,1,1,1,1,1,1,1,1,1,1,1,1,1,1]

/-- For each operator, its token alone, twice, and before `=` and `>`. -/
def TC_OPERATORS : List Nat := [
  1,1,16,1,8,18,1,1,12,10,15,1,61,13,13,1,14,11,17,11,9,19,1,1,5,1,1,20]

/-- The keywords: for each hash code the place of its keyword, then the keywords with their lengths
    and their tokens. -/
def TC_KEYWORDS : List Nat := [
  0,0,0,0,0,0,0,107,88,0,0,0,0,0,0,0,0,0,0,0,0,137,
  0,0,121,0,0,96,0,92,0,0,0,0,0,75,101,0,0,0,0,0,0,0,
  0,0,129,0,113,150,64,145,0,0,0,0,0,82,0,0,0,0,0,68,
  2,97,115,138,
  5,98,114,101,97,107,128,
  5,99,111,110,115,116,129,
  4,101,108,115,101,130,
  2,102,110,131,
  2,105,102,132,
  3,108,101,116,133,
  4,108,111,111,112,134,
  4,110,117,108,108,139,
  6,114,101,116,117,114,110,135,
  6,115,105,122,101,111,102,140,
  6,115,116,97,116,105,99,136,
  6,115,116,114,117,99,116,141,
  3,117,54,52,142,
  5,119,104,105,108,101,137]

/-! ### The functions -/

variable (text : List UInt8)

/-- `load8`, for an address in the text. -/
def load8 (ptr : Nat) : Scan Nat :=
  match text[ptr]? with
  | some c => pure c.toNat
  | none => throw .fault

/-- `mem_compare`, for a string in the text and one in the table of keywords.  The first argument
    is `size - i`. -/
def memCompare (ptr1 ptr2 : Nat) : Nat → Nat → Scan Nat
  | 0, _ => pure 0
  | size + 1, i => do
    let c ← load8 text (ptr1 + i)
    if c = TC_KEYWORDS.getD (ptr2 + i) 0 then memCompare ptr1 ptr2 size (i + 1) else pure (size + 1)

/-- `tc_get_keyword`. -/
def tcGetKeyword (start length hashcode : Nat) : Scan Nat := do
  let keyword := TC_KEYWORDS.getD hashcode 0
  if keyword ≠ 0 ∧ length = TC_KEYWORDS.getD keyword 0 then
    let difference ← memCompare text start (keyword + 1) length 0
    if difference = 0 then
      return TC_KEYWORDS.getD (keyword + length + 1) 0
  return TC_IDENTIFIER

/-- `tc_read_char`. -/
def tcReadChar : Scan Nat := do
  let self ← get
  if self.src ≥ text.length then panic 10
  let src := self.src + 1
  if src < text.length then
    let c ← load8 text src
    let type := TC_CHAR_TYPES.getD c 0
    set { self with src := src, nextChar := c, nextCharType := type }
    return type
  else
    set { self with src := src, nextChar := 0, nextCharType := 0 }
    return 0

/-- The loop of `tc_read_integer`. -/
def tcReadIntegerLoop : Nat → Nat → Nat → Scan Nat
  | 0, _, _ => throw .timeout
  | n + 1, type, v => do
    if type = TC_INTEGER then
      let self ← get
      let v := (v * 10 + (self.nextChar - 48)) % 2 ^ 64
      let type ← tcReadChar text
      tcReadIntegerLoop n type v
    else return v

/-- `tc_read_integer`. -/
def tcReadInteger : Scan Nat := do
  let self ← get
  let v ← tcReadIntegerLoop text (text.length + 1) self.nextCharType 0
  modify fun self => { self with nextTokenData := v }
  return TC_INTEGER

/-- `tc_read_quoted_char`. -/
def tcReadQuotedChar : Scan Nat := do
  let _ ← tcReadChar text
  let self ← get
  let value := self.nextChar
  if value < 32 ∨ value ≥ 127 then panic 11
  let type ← tcReadChar text
  if type ≠ 39 then panic 12
  let _ ← tcReadChar text
  modify fun self => { self with nextTokenData := value }
  return TC_INTEGER

/-- The loop of `tc_read_identifier`. -/
def tcReadIdentifierLoop : Nat → Nat → Nat → Scan Nat
  | 0, _, _ => throw .timeout
  | n + 1, type, hashcode => do
    if type = TC_IDENTIFIER ∨ type = TC_INTEGER then
      let self ← get
      let hashcode := (31 * hashcode + self.nextChar) % 2 ^ 64
      let type ← tcReadChar text
      tcReadIdentifierLoop n type hashcode
    else return hashcode

/-- `tc_read_identifier`. -/
def tcReadIdentifier : Scan Nat := do
  let self ← get
  let start := self.src
  let hashcode ← tcReadIdentifierLoop text (text.length + 1) self.nextCharType 0
  let self ← get
  let length := self.src - start
  set { self with nextTokenData := start, nextTokenLength := length }
  tcGetKeyword text start length (hashcode % 64)

/-- `tc_read_operator`. -/
def tcReadOperator (firstCharType : Nat) : Scan Nat := do
  let secondCharType ← tcReadChar text
  let self ← get
  let index := 4 * (firstCharType - 10)
  if secondCharType = firstCharType then
    let _ ← tcReadChar text
    return TC_OPERATORS.getD (index + 1) 0
  else if self.nextChar = 61 then
    let _ ← tcReadChar text
    return TC_OPERATORS.getD (index + 2) 0
  else if self.nextChar = 62 then
    let _ ← tcReadChar text
    return TC_OPERATORS.getD (index + 3) 0
  else return TC_OPERATORS.getD index 0

/-- The loop of `tc_read_comment`.  The constant is the word of 16 bits with the bytes `*` and `/`. -/
def tcReadCommentLoop : Nat → Nat → Scan Nat
  | 0, _ => throw .timeout
  | n + 1, src => do
    if src + 3 < text.length then
      let high ← load8 text (src + 3)
      let low ← load8 text (src + 2)
      if high * 256 + low ≠ 12074 then tcReadCommentLoop n (src + 1) else return src
    else return src

/-- `tc_read_comment`. -/
def tcReadComment (src : Nat) : Scan Nat := do
  if src + 1 ≥ text.length then return 0
  let c ← load8 text (src + 1)
  if c ≠ 42 then return 0
  let src ← tcReadCommentLoop text (text.length + 1) src
  modify fun self => { self with src := src + 3 }
  return 1

/-- The loop of `tc_read_token`. -/
def tcReadTokenLoop : Nat → Nat → Scan Nat
  | 0, _ => throw .timeout
  | n + 1, type => do
    if type = 32 then
      let type ← tcReadChar text
      tcReadTokenLoop n type
    else if type = TC_DIV then
      let self ← get
      let comment ← tcReadComment text self.src
      if comment = 0 then return type
      let type ← tcReadChar text
      tcReadTokenLoop n type
    else return type

/-- The end of `tc_read_token`: the token that starts with a character of the given type. -/
def tcReadTokenOfType (type : Nat) : Scan Nat :=
  if type = TC_INTEGER then tcReadInteger text
  else if type = 39 then tcReadQuotedChar text
  else if type = TC_IDENTIFIER then tcReadIdentifier text
  else if type ≥ 10 ∧ type < 20 then tcReadOperator text type
  else do
    if type ≠ 0 then
      let _ ← tcReadChar text
    return type

/-- `tc_read_token`. -/
def tcReadToken : Scan Unit := do
  let self ← get
  let type ← tcReadTokenLoop text (text.length + 1) self.nextCharType
  let token ← tcReadTokenOfType text type
  modify fun self => { self with nextToken := token }

/-- The scanner when its fields are zero. -/
def Scanner.init : Scanner := ⟨0, 0, 0, 0, 0, 0⟩

end Toys.Toyc
