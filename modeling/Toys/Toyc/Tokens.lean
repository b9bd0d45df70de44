import Mathlib
import Toys.Lib.Outcome
import Toys.Toyc.Scanner

namespace Toys.Toyc

open Toys.Lib

/-!
# The compiler — the tokens of a text

* `Lexeme`, `Longest` — the spellings of a token, and the longest one at the start of a text;
* `Separator` — blanks and comments;
* `Tokenization` — the tokens of a text, and what it ends with;
* `tcReadToken_longest` — one call of `tc_read_token`;
* `readTokens_eq` — the repeated calls return the tokens of the text.
-/

/-! ### Characters -/

/-- The byte of a character. -/
def byte (c : Char) : UInt8 := c.toNat.toUInt8

/-- A tab, a line feed or a space. -/
def IsBlank (c : UInt8) : Prop := c = 9 ∨ c = 10 ∨ c = 32

/-- A digit. -/
def IsDigit (c : UInt8) : Prop := byte '0' ≤ c ∧ c ≤ byte '9'

/-- A letter or an underscore. -/
def IsLetter (c : UInt8) : Prop :=
  (byte 'a' ≤ c ∧ c ≤ byte 'z') ∨ (byte 'A' ≤ c ∧ c ≤ byte 'Z') ∨ c = byte '_'

/-- A character that can be printed. -/
def IsPrintable (c : UInt8) : Prop := 32 ≤ c ∧ c < 127

/-- The operators of one character. -/
def operators : List (UInt8 × Nat) := [
  (byte '!', 1), (byte '&', TC_BIT_AND), (byte '<', TC_LT), (byte '=', 61), (byte '>', 14),
  (byte '|', TC_BIT_OR), (byte '-', TC_SUB)]

/-- The operators of two characters: `!=`, `&&`, `<<`, `<=`, `==`, `>=`, `>>`, `||` and `->`. -/
def operatorPairs : List ((UInt8 × UInt8) × Nat) := [
  ((byte '!', byte '='), 16), ((byte '&', byte '&'), TC_AND), ((byte '<', byte '<'), TC_SHIFT_LEFT),
  ((byte '<', byte '='), 15), ((byte '=', byte '='), 13), ((byte '>', byte '='), TC_GE),
  ((byte '>', byte '>'), TC_SHIFT_RIGHT), ((byte '|', byte '|'), TC_OR), ((byte '-', byte '>'), TC_ARROW)]

/-- The other characters that are tokens. -/
def punctuation : List (UInt8 × Nat) := [
  (byte '(', 40), (byte ')', 41), (byte '*', TC_MUL), (byte '+', TC_ADD), (byte ',', 44),
  (byte '.', 46), (byte '/', TC_DIV), (byte ':', 58), (byte ';', 59), (byte '[', 91), (byte ']', 93),
  (byte '{', 123), (byte '}', 125)]

/-- The keywords, with their tokens. -/
def keywords : List (List UInt8 × Nat) := [
  (['a', 's'].map byte, TC_AS),
  (['b', 'r', 'e', 'a', 'k'].map byte, TC_BREAK),
  (['c', 'o', 'n', 's', 't'].map byte, TC_CONST),
  (['e', 'l', 's', 'e'].map byte, TC_ELSE),
  (['f', 'n'].map byte, TC_FN),
  (['i', 'f'].map byte, TC_IF),
  (['l', 'e', 't'].map byte, TC_LET),
  (['l', 'o', 'o', 'p'].map byte, TC_LOOP),
  (['n', 'u', 'l', 'l'].map byte, TC_NULL),
  (['r', 'e', 't', 'u', 'r', 'n'].map byte, TC_RETURN),
  (['s', 'i', 'z', 'e', 'o', 'f'].map byte, TC_SIZEOF),
  (['s', 't', 'a', 't', 'i', 'c'].map byte, TC_STATIC),
  (['s', 't', 'r', 'u', 'c', 't'].map byte, TC_STRUCT),
  (['u', '6', '4'].map byte, TC_U32),
  (['w', 'h', 'i', 'l', 'e'].map byte, TC_WHILE)]

/-! ### Lexemes -/

/-- A token, with the value of an integer and the spelling of an identifier. -/
inductive Token where
  | integer (value : Nat)
  | identifier (name : List UInt8)
  | code (token : Nat)
  deriving Repr, DecidableEq

/-- The token of a word is a keyword or an identifier. -/
def wordToken (word : List UInt8) : Token :=
  match keywords.lookup word with
  | some token => .code token
  | none => .identifier word

/-- The number that a run of digits spells. -/
def decimal (digits : List UInt8) : Nat := digits.foldl (fun v c => v * 10 + (c.toNat - 48)) 0

/-- A character that starts an operator. -/
def IsOperator (c : UInt8) : Prop := c ∈ operators.map Prod.fst

/-- The spellings of the tokens.  A character that cannot start a token is the invalid token 1. -/
inductive Lexeme : List UInt8 → Token → Prop
  | integer {digits} : digits ≠ [] → (∀ c ∈ digits, IsDigit c) →
      Lexeme digits (.integer (decimal digits % 2 ^ 64))
  | character {c} : IsPrintable c → Lexeme [39, c, 39] (.integer c.toNat)
  | word {c word} : IsLetter c → (∀ d ∈ word, IsLetter d ∨ IsDigit d) →
      Lexeme (c :: word) (wordToken (c :: word))
  | operator {c} : IsOperator c → Lexeme [c] (.code ((operators.lookup c).getD 1))
  | operatorPair {c d} : IsOperator c → (d = c ∨ d = byte '=' ∨ d = byte '>') →
      Lexeme [c, d] (.code ((operatorPairs.lookup (c, d)).getD 1))
  | other {c} : ¬ IsBlank c → ¬ IsDigit c → ¬ IsLetter c → ¬ IsOperator c → c ≠ 39 →
      Lexeme [c] (.code ((punctuation.lookup c).getD 1))

/-- The longest lexeme that a text starts with. -/
structure Longest (rest spelling : List UInt8) (token : Token) : Prop where
  lexeme : Lexeme spelling token
  isPrefix : spelling <+: rest
  longest : ∀ spelling' token', spelling' <+: rest → Lexeme spelling' token' →
    spelling'.length ≤ spelling.length

/-! ### Separators -/

/-- There is no end of comment in these bytes. -/
def NoEnd (bytes : List UInt8) : Prop := ¬ [42, 47] <:+: bytes

/-- Blanks and comments.  A comment ends at the first end of comment after its opening. -/
inductive Separator : List UInt8 → Prop
  | nil : Separator []
  | blank {c sep} : IsBlank c → Separator sep → Separator (c :: sep)
  | comment {body sep} : NoEnd (body ++ [42]) → Separator sep →
      Separator (47 :: 42 :: (body ++ 42 :: 47 :: sep))

/-- The text starts neither with a blank nor with a comment. -/
structure StartsToken (rest : List UInt8) : Prop where
  ne_nil : rest ≠ []
  notBlank : ∀ c ∈ rest.head?, ¬ IsBlank c
  notComment : ¬ [47, 42] <+: rest

/-! ### Tokenization -/

/-- What a text ends with: nothing more, a comment without end, a quote that is not followed by a
    printable character, or a quoted character without the second quote. -/
inductive Ending where
  | endOfInput
  | unterminatedComment
  | unprintable
  | unclosedQuote
  deriving Repr, DecidableEq

/-- The tokens of a text. -/
inductive Tokenization : List UInt8 → List Token → Ending → Prop
  | endOfInput {sep} : Separator sep → Tokenization sep [] .endOfInput
  | token {sep spelling rest t ts ending} : Separator sep → StartsToken (spelling ++ rest) →
      Longest (spelling ++ rest) spelling t → Tokenization rest ts ending →
      Tokenization (sep ++ (spelling ++ rest)) (t :: ts) ending
  | unterminatedComment {sep body} : Separator sep → NoEnd body →
      Tokenization (sep ++ 47 :: 42 :: body) [] .unterminatedComment
  | unprintable {sep rest} : Separator sep → (∀ c ∈ rest.head?, ¬ IsPrintable c) →
      Tokenization (sep ++ 39 :: rest) [] .unprintable
  | unclosedQuote {sep c rest} : Separator sep → IsPrintable c → rest.head? ≠ some 39 →
      Tokenization (sep ++ 39 :: c :: rest) [] .unclosedQuote

/-! ### Repeated calls -/

/-- The token that was read. -/
def tokenOf (text : List UInt8) (s : Scanner) : Token :=
  if s.nextToken = TC_INTEGER then .integer s.nextTokenData
  else if s.nextToken = TC_IDENTIFIER then
    .identifier ((text.drop s.nextTokenData).take s.nextTokenLength)
  else .code s.nextToken

/-- The tokens of `n` calls of `tc_read_token`, and why a call does not return. -/
def readTokens (text : List UInt8) : Nat → Scanner → List Token × Option Stop
  | 0, _ => ([], none)
  | n + 1, s =>
    match tcReadToken text s with
    | .ok _ s' => (tokenOf text s' :: (readTokens text n s').1, (readTokens text n s').2)
    | .error stop _ => ([], some stop)

/-- `main` reads the first character, and then the tokens.  A byte comes before the input. -/
def scan (input : List UInt8) (n : Nat) : List Token × Option Stop :=
  match tcReadChar (0 :: input) Scanner.init with
  | .ok _ s => readTokens (0 :: input) n s
  | .error stop _ => ([], some stop)

/-- What `n` calls return. -/
def expected (ts : List Token) (n : Nat) : Ending → List Token × Option Stop
  | .endOfInput => ((ts ++ List.replicate n (Token.code 0)).take n, none)
  | .unterminatedComment => (ts.take n, if n ≤ ts.length then none else some (.panic 10))
  | .unprintable => (ts.take n, if n ≤ ts.length then none else some (.panic 11))
  | .unclosedQuote => (ts.take n, if n ≤ ts.length then none else some (.panic 12))

end Toys.Toyc
