import Mathlib
import Toys.Lib.Outcome
import Toys.Toyc.Tokens

namespace Toys.Toyc

open Toys.Lib

/-!
# The compiler — the parts of a token

What each function of the scanner reads, when it is at a position of the text:

* `charType_spec`, `operator_token`, … — the tables of types and operators;
* `tcReadChar_eq` — one character;
* `tcReadIntegerLoop_at`, `tcReadIdentifierLoop_at` — digits and letters;
* `tcGetKeyword_eq` — the table of keywords is that of the fifteen keywords;
* `tcReadOperator_one`, `tcReadOperator_two` — operators;
* `tcReadQuotedChar_closed` — quoted characters;
* `tcReadTokenLoop_eq` — blanks and comments.
-/

variable {text rest : List UInt8} {s : Scanner} {c d : UInt8} {n : Nat}

/-! ### Characters -/

/-- What holds of the 256 numbers holds of the bytes. -/
theorem forall_uint8 {P : UInt8 → Prop} (h : ∀ i : Fin 256, P (UInt8.ofFin i)) (c : UInt8) : P c :=
  h c.toFin

/-- The classes of characters can be decided. -/
instance : DecidablePred IsBlank := fun c => inferInstanceAs (Decidable (c = 9 ∨ c = 10 ∨ c = 32))

/-- The classes of characters can be decided. -/
instance : DecidablePred IsDigit := fun c =>
  inferInstanceAs (Decidable (byte '0' ≤ c ∧ c ≤ byte '9'))

/-- The classes of characters can be decided. -/
instance : DecidablePred IsLetter := fun c =>
  inferInstanceAs (Decidable
    ((byte 'a' ≤ c ∧ c ≤ byte 'z') ∨ (byte 'A' ≤ c ∧ c ≤ byte 'Z') ∨ c = byte '_'))

/-- The classes of characters can be decided. -/
instance : DecidablePred IsPrintable := fun c => inferInstanceAs (Decidable (32 ≤ c ∧ c < 127))

/-- The classes of characters can be decided. -/
instance : DecidablePred IsOperator := fun c =>
  inferInstanceAs (Decidable (c ∈ operators.map Prod.fst))

/-- The type of a character. -/
def charType (c : UInt8) : Nat := TC_CHAR_TYPES.getD c.toNat 0

/-- The types of the characters that the scanner distinguishes. -/
structure CharType (c : UInt8) : Prop where
  ne_zero : charType c ≠ 0
  blank : charType c = 32 ↔ IsBlank c
  digit : charType c = TC_INTEGER ↔ IsDigit c
  letter : charType c = TC_IDENTIFIER ↔ IsLetter c
  quote : charType c = 39 ↔ c = 39
  slash : charType c = TC_DIV ↔ c = 47
  operator : (charType c ≥ 10 ∧ charType c < 20) ↔ IsOperator c

/-- The type of each character. -/
theorem charType_spec (c : UInt8) : CharType c := by
  have h : ∀ c : UInt8, charType c ≠ 0 ∧ (charType c = 32 ↔ IsBlank c) ∧
      (charType c = TC_INTEGER ↔ IsDigit c) ∧ (charType c = TC_IDENTIFIER ↔ IsLetter c) ∧
      (charType c = 39 ↔ c = 39) ∧ (charType c = TC_DIV ↔ c = 47) ∧
      ((charType c ≥ 10 ∧ charType c < 20) ↔ IsOperator c) := forall_uint8 (by decide +kernel)
  obtain ⟨h1, h2, h3, h4, h5, h6, h7⟩ := h c
  exact ⟨h1, h2, h3, h4, h5, h6, h7⟩

/-- The token of a character that is read alone is its type. -/
theorem charType_other (hb : ¬ IsBlank c) (hd : ¬ IsDigit c) (hl : ¬ IsLetter c) (ho : ¬ IsOperator c)
    (hq : c ≠ 39) : charType c = (punctuation.lookup c).getD 1 := by
  have h : ∀ c : UInt8, ¬ IsBlank c → ¬ IsDigit c → ¬ IsLetter c → ¬ IsOperator c → c ≠ 39 →
      charType c = (punctuation.lookup c).getD 1 := forall_uint8 (by decide +kernel)
  exact h c hb hd hl ho hq

/-- The tokens of the operators of one character are in the table. -/
theorem operator_token (h : IsOperator c) :
    TC_OPERATORS.getD (4 * (charType c - 10)) 0 = (operators.lookup c).getD 1 := by
  have h' : ∀ c ∈ operators.map Prod.fst,
      TC_OPERATORS.getD (4 * (charType c - 10)) 0 = (operators.lookup c).getD 1 := by decide +kernel
  exact h' c h

/-- The token of an operator written twice. -/
theorem operator_twice (h : IsOperator c) :
    TC_OPERATORS.getD (4 * (charType c - 10) + 1) 0 = (operatorPairs.lookup (c, c)).getD 1 := by
  have h' : ∀ c ∈ operators.map Prod.fst,
      TC_OPERATORS.getD (4 * (charType c - 10) + 1) 0 = (operatorPairs.lookup (c, c)).getD 1 := by
    decide +kernel
  exact h' c h

/-- The token of an operator with an equal sign. -/
theorem operator_equal (h : IsOperator c) :
    TC_OPERATORS.getD (4 * (charType c - 10) + 2) 0 = (operatorPairs.lookup (c, byte '=')).getD 1 := by
  have h' : ∀ c ∈ operators.map Prod.fst, TC_OPERATORS.getD (4 * (charType c - 10) + 2) 0 =
      (operatorPairs.lookup (c, byte '=')).getD 1 := by decide +kernel
  exact h' c h

/-- The token of an operator with a greater sign. -/
theorem operator_greater (h : IsOperator c) :
    TC_OPERATORS.getD (4 * (charType c - 10) + 3) 0 = (operatorPairs.lookup (c, byte '>')).getD 1 := by
  have h' : ∀ c ∈ operators.map Prod.fst, TC_OPERATORS.getD (4 * (charType c - 10) + 3) 0 =
      (operatorPairs.lookup (c, byte '>')).getD 1 := by decide +kernel
  exact h' c h

/-- Operators are told apart by their types. -/
theorem charType_operator_inj (h : IsOperator c) : charType d = charType c ↔ d = c := by
  have h' : ∀ c ∈ operators.map Prod.fst, ∀ d : UInt8, charType d = charType c ↔ d = c := by
    intro c hc
    have hall : ∀ c ∈ operators.map Prod.fst, ∀ i : Fin 256,
        charType (UInt8.ofFin i) = charType c ↔ UInt8.ofFin i = c := by decide +kernel
    exact forall_uint8 (hall c hc)
  exact h' c h d

/-! ### The position in the text -/

/-- The next character, which is zero at the end of the text. -/
def nextCharOf : List UInt8 → Nat
  | [] => 0
  | c :: _ => c.toNat

/-- The type of the next character. -/
def nextTypeOf : List UInt8 → Nat
  | [] => 0
  | c :: _ => charType c

/-- The scanner has the rest of the text to read. -/
structure At (text rest : List UInt8) (s : Scanner) : Prop where
  drop_eq : text.drop s.src = rest
  src_le : s.src ≤ text.length
  nextChar_eq : s.nextChar = nextCharOf rest
  nextCharType_eq : s.nextCharType = nextTypeOf rest

/-- The scanner when it has read `n` more characters. -/
def Scanner.moveTo (s : Scanner) (n : Nat) (rest : List UInt8) : Scanner :=
  { s with src := s.src + n, nextChar := nextCharOf rest, nextCharType := nextTypeOf rest }

/-- Two moves are one. -/
theorem moveTo_moveTo (k : Nat) (rest' : List UInt8) :
    (s.moveTo n rest').moveTo k rest = s.moveTo (n + k) rest := by
  simp only [Scanner.moveTo, Nat.add_assoc]

/-- The length of the text. -/
theorem At.length_eq (h : At text rest s) : text.length = s.src + rest.length := by
  have hle := h.src_le
  rw [← h.drop_eq, List.length_drop]
  omega

/-- The scanner moves over what was read. -/
theorem At.moveTo {read : List UInt8} (h : At text (read ++ rest) s) :
    At text rest (s.moveTo read.length rest) where
  drop_eq := by
    show text.drop (s.src + read.length) = rest
    rw [← List.drop_drop, h.drop_eq, List.drop_left]
  src_le := by
    have hlength := h.length_eq
    rw [List.length_append] at hlength
    show s.src + read.length ≤ text.length
    omega
  nextChar_eq := rfl
  nextCharType_eq := rfl

theorem At.moveTo_zero (h : At text rest s) : s.moveTo 0 rest = s := by
  unfold Scanner.moveTo
  rw [← h.nextChar_eq, ← h.nextCharType_eq]
  rfl

/-- A character of the text, from the scanner. -/
theorem At.getElem? (h : At text rest s) (i : Nat) : text[s.src + i]? = rest[i]? := by
  rw [← h.drop_eq, List.getElem?_drop]

/-- A character of the text is loaded. -/
theorem load8_eq {ptr : Nat} (h : text[ptr]? = some c) : load8 text ptr s = .ok c.toNat s := by
  unfold load8
  rw [h]
  rfl

/-- One character is read, wherever the scanner is in the text. -/
theorem tcReadChar_eq (h : text.drop s.src = c :: rest) :
    tcReadChar text s = .ok (nextTypeOf rest) (s.moveTo 1 rest) := by
  have hlength := congrArg List.length h
  rw [List.length_drop, List.length_cons] at hlength
  have hnot : ¬ s.src ≥ text.length := by omega
  have hnext : text[s.src + 1]? = rest[0]? := by
    rw [← List.getElem?_drop, h]
    rfl
  simp only [tcReadChar, bind_apply, get_apply, if_neg hnot]
  cases rest with
  | nil =>
    rw [List.length_nil] at hlength
    have hend : ¬ s.src + 1 < text.length := by omega
    rw [if_neg hend]
    rfl
  | cons d rest =>
    rw [List.length_cons] at hlength
    have hlt : s.src + 1 < text.length := by omega
    rw [if_pos hlt, bind_ok (load8_eq hnext)]
    rfl

/-- At the end of the text, or after it, there is no character to read. -/
theorem tcReadChar_end (h : text.length ≤ s.src) : tcReadChar text s = .error (.panic 10) s := by
  simp only [tcReadChar, bind_apply, get_apply, if_pos h]
  rfl

/-- One character is read. -/
theorem At.readChar (h : At text (c :: rest) s) :
    tcReadChar text s = .ok (nextTypeOf rest) (s.moveTo 1 rest) := tcReadChar_eq h.drop_eq

theorem At.moveTo_one (h : At text (c :: rest) s) : At text rest (s.moveTo 1 rest) :=
  show At text rest (s.moveTo [c].length rest) from At.moveTo h

/-! ### Integers -/

/-- The value that `tc_read_integer` computes. -/
def integerValue (digits : List UInt8) (v : Nat) : Nat :=
  digits.foldl (fun v c => (v * 10 + (c.toNat - 48)) % 2 ^ 64) v

/-- The value of the digits, modulo `2 ^ 64`. -/
theorem integerValue_eq (digits : List UInt8) (v : Nat) :
    integerValue digits (v % 2 ^ 64) =
      digits.foldl (fun v c => v * 10 + (c.toNat - 48)) v % 2 ^ 64 := by
  induction digits generalizing v with
  | nil => rfl
  | cons c digits ih =>
    have hstep : (v % 2 ^ 64 * 10 + (c.toNat - 48)) % 2 ^ 64 =
        (v * 10 + (c.toNat - 48)) % 2 ^ 64 := by omega
    show integerValue digits ((v % 2 ^ 64 * 10 + (c.toNat - 48)) % 2 ^ 64) = _
    rw [hstep, ih]
    rfl

/-- The value of a number, modulo `2 ^ 64`. -/
theorem integerValue_zero (digits : List UInt8) :
    integerValue digits 0 = decimal digits % 2 ^ 64 := integerValue_eq digits 0

/-- The loop of `tc_read_integer` reads the digits. -/
theorem tcReadIntegerLoop_at {digits : List UInt8} {v : Nat} (h : At text (digits ++ rest) s)
    (hdigits : ∀ c ∈ digits, IsDigit c) (hrest : ∀ c ∈ rest.head?, ¬ IsDigit c)
    (hn : digits.length < n) :
    tcReadIntegerLoop text n (nextTypeOf (digits ++ rest)) v s =
      .ok (integerValue digits v) (s.moveTo digits.length rest) := by
  induction digits generalizing n v s with
  | nil =>
    obtain ⟨n, rfl⟩ : ∃ k, n = k + 1 := ⟨n - 1, by simp at hn; omega⟩
    have hnot : ¬ nextTypeOf rest = TC_INTEGER := by
      cases rest with
      | nil => decide
      | cons c rest =>
        intro htype
        exact hrest c rfl ((charType_spec c).digit.mp htype)
    rw [List.nil_append] at h ⊢
    rw [tcReadIntegerLoop, if_neg hnot, List.length_nil, h.moveTo_zero]
    rfl
  | cons c digits ih =>
    obtain ⟨n, rfl⟩ : ∃ k, n = k + 1 := ⟨n - 1, by simp at hn; omega⟩
    have htype : nextTypeOf (c :: (digits ++ rest)) = TC_INTEGER :=
      (charType_spec c).digit.mpr (hdigits c List.mem_cons_self)
    have hchar : s.nextChar = c.toNat := h.nextChar_eq
    rw [List.length_cons] at hn
    rw [List.cons_append] at h ⊢
    rw [tcReadIntegerLoop, if_pos htype, bind_ok (get_apply s)]
    rw [bind_ok h.readChar, hchar,
      ih h.moveTo_one (fun d hd => hdigits d (List.mem_cons_of_mem _ hd)) (by omega), moveTo_moveTo,
      Nat.add_comm 1, List.length_cons]
    rfl

/-! ### Identifiers and keywords -/

/-- The hash code that `tc_read_identifier` computes. -/
def hashcode (word : List UInt8) (h : Nat) : Nat :=
  word.foldl (fun h c => (31 * h + c.toNat) % 2 ^ 64) h

/-- The loop of `tc_read_identifier` reads the word. -/
theorem tcReadIdentifierLoop_at {word : List UInt8} {v : Nat} (h : At text (word ++ rest) s)
    (hword : ∀ c ∈ word, IsLetter c ∨ IsDigit c)
    (hrest : ∀ c ∈ rest.head?, ¬ (IsLetter c ∨ IsDigit c)) (hn : word.length < n) :
    tcReadIdentifierLoop text n (nextTypeOf (word ++ rest)) v s =
      .ok (hashcode word v) (s.moveTo word.length rest) := by
  induction word generalizing n v s with
  | nil =>
    obtain ⟨n, rfl⟩ : ∃ k, n = k + 1 := ⟨n - 1, by simp at hn; omega⟩
    have hnot : ¬ (nextTypeOf rest = TC_IDENTIFIER ∨ nextTypeOf rest = TC_INTEGER) := by
      cases rest with
      | nil => decide
      | cons c rest =>
        intro htype
        exact hrest c rfl (htype.imp (charType_spec c).letter.mp (charType_spec c).digit.mp)
    rw [List.nil_append] at h ⊢
    rw [tcReadIdentifierLoop, if_neg hnot, List.length_nil, h.moveTo_zero]
    rfl
  | cons c word ih =>
    obtain ⟨n, rfl⟩ : ∃ k, n = k + 1 := ⟨n - 1, by simp at hn; omega⟩
    have htype : nextTypeOf (c :: (word ++ rest)) = TC_IDENTIFIER ∨
        nextTypeOf (c :: (word ++ rest)) = TC_INTEGER :=
      (hword c List.mem_cons_self).imp (charType_spec c).letter.mpr (charType_spec c).digit.mpr
    have hchar : s.nextChar = c.toNat := h.nextChar_eq
    rw [List.length_cons] at hn
    rw [List.cons_append] at h ⊢
    rw [tcReadIdentifierLoop, if_pos htype, bind_ok (get_apply s)]
    rw [bind_ok h.readChar, hchar,
      ih h.moveTo_one (fun d hd => hword d (List.mem_cons_of_mem _ hd)) (by omega), moveTo_moveTo,
      Nat.add_comm 1, List.length_cons]
    rfl

/-- The bytes of the table of keywords from an address on. -/
def tableWord : Nat → Nat → List Nat
  | _, 0 => []
  | ptr, n + 1 => TC_KEYWORDS.getD ptr 0 :: tableWord (ptr + 1) n

/-- `mem_compare` compares a word of the text with one of the table. -/
theorem memCompare_eq {word : List UInt8} {ptr1 i : Nat}
    (h : text.drop (ptr1 + i) = word ++ rest) (ptr2 : Nat) :
    ∃ difference, memCompare text ptr1 ptr2 word.length i s = .ok difference s ∧
      (difference = 0 ↔ word.map UInt8.toNat = tableWord (ptr2 + i) word.length) := by
  induction word generalizing i with
  | nil => exact ⟨0, rfl, by simp [tableWord]⟩
  | cons c word ih =>
    have hload : text[ptr1 + i]? = some c := by
      rw [← Nat.add_zero (ptr1 + i), ← List.getElem?_drop, h]
      rfl
    have hdrop : text.drop (ptr1 + (i + 1)) = word ++ rest := by
      rw [← Nat.add_assoc, ← List.drop_drop, h]
      rfl
    obtain ⟨difference, heq, hzero⟩ := ih hdrop
    rw [List.length_cons, memCompare, bind_ok (load8_eq hload)]
    split_ifs with hc
    · refine ⟨difference, heq, ?_⟩
      rw [hzero, List.map_cons, tableWord, ← hc, List.cons.injEq]
      simp [Nat.add_assoc]
    · refine ⟨word.length + 1, rfl, ?_⟩
      rw [List.map_cons, tableWord, List.cons.injEq]
      exact ⟨fun hzero => absurd hzero (Nat.succ_ne_zero _), fun heq => absurd heq.1 hc⟩

/-- The keyword at an address of the table. -/
structure TableEntry (keyword : Nat) (entry : List UInt8 × Nat) : Prop where
  ne_zero : keyword ≠ 0
  length : entry.1.length = TC_KEYWORDS.getD keyword 0
  spelling : entry.1.map UInt8.toNat = tableWord (keyword + 1) entry.1.length
  token : TC_KEYWORDS.getD (keyword + entry.1.length + 1) 0 = entry.2

/-- Whether the entry of a keyword is in the table can be decided. -/
instance (keyword : Nat) (entry : List UInt8 × Nat) : Decidable (TableEntry keyword entry) :=
  decidable_of_iff (keyword ≠ 0 ∧ entry.1.length = TC_KEYWORDS.getD keyword 0 ∧
    entry.1.map UInt8.toNat = tableWord (keyword + 1) entry.1.length ∧
    TC_KEYWORDS.getD (keyword + entry.1.length + 1) 0 = entry.2)
    ⟨fun ⟨h1, h2, h3, h4⟩ => ⟨h1, h2, h3, h4⟩, fun ⟨h1, h2, h3, h4⟩ => ⟨h1, h2, h3, h4⟩⟩

/-- Each bucket that is not empty has a keyword. -/
theorem bucket_entry : ∀ b < 64, TC_KEYWORDS.getD b 0 ≠ 0 →
    ∃ entry ∈ keywords, TableEntry (TC_KEYWORDS.getD b 0) entry := by decide +kernel

/-- Each keyword is in the bucket of its hash code. -/
theorem keyword_entry : ∀ entry ∈ keywords,
    TableEntry (TC_KEYWORDS.getD (hashcode entry.1 0 % 64) 0) entry ∧
      keywords.lookup entry.1 = some entry.2 := by decide +kernel

/-- The token of a word. -/
def wordCode (word : List UInt8) : Nat := (keywords.lookup word).getD TC_IDENTIFIER

/-- A word is a keyword if and only if it is spelled as one. -/
theorem tcGetKeyword_eq {word : List UInt8} {start : Nat} (h : text.drop start = word ++ rest) :
    tcGetKeyword text start word.length (hashcode word 0 % 64) s = .ok (wordCode word) s := by
  have hdrop : text.drop (start + 0) = word ++ rest := h
  obtain ⟨difference, hcompare, hzero⟩ :=
    memCompare_eq (s := s) hdrop (TC_KEYWORDS.getD (hashcode word 0 % 64) 0 + 1)
  rw [Nat.add_zero] at hzero
  unfold tcGetKeyword
  by_cases hmem : ∃ entry ∈ keywords, entry.1 = word
  · obtain ⟨entry, hentry, rfl⟩ := hmem
    obtain ⟨htable, hlookup⟩ := keyword_entry entry hentry
    simp only [if_pos (And.intro htable.ne_zero htable.length)]
    rw [bind_ok hcompare, if_pos (hzero.mpr htable.spelling), htable.token, wordCode, hlookup]
    rfl
  · have hlookup : keywords.lookup word = none := by
      rw [List.lookup_eq_none_iff]
      intro entry hentry
      exact bne_iff_ne.mpr fun heq => hmem ⟨entry, hentry, heq.symm⟩
    rw [wordCode, hlookup, Option.getD_none]
    by_cases hbucket : TC_KEYWORDS.getD (hashcode word 0 % 64) 0 ≠ 0 ∧
        word.length = TC_KEYWORDS.getD (TC_KEYWORDS.getD (hashcode word 0 % 64) 0) 0
    · -- the keyword of the bucket has the same length, but not the same spelling
      obtain ⟨entry, hentry, htable⟩ := bucket_entry _ (Nat.mod_lt _ (by decide)) hbucket.1
      have hlength : entry.1.length = word.length := htable.length.trans hbucket.2.symm
      have hne : ¬ difference = 0 := by
        intro hdifference
        have hspelling := hzero.mp hdifference
        rw [← hlength, ← htable.spelling] at hspelling
        have hinj := List.map_injective_iff.mpr (fun _ _ => UInt8.toNat_inj.mp) hspelling
        exact hmem ⟨entry, hentry, hinj.symm⟩
      simp only [if_pos hbucket]
      rw [bind_ok hcompare, if_neg hne]
      rfl
    · simp only [if_neg hbucket]
      rfl

/-! ### Operators -/

/-- The operator is followed neither by itself, nor by an equal sign or a greater sign. -/
theorem tcReadOperator_one (h : At text (c :: rest) s) (hc : IsOperator c)
    (hrest : ∀ d ∈ rest.head?, ¬ (d = c ∨ d = byte '=' ∨ d = byte '>')) :
    tcReadOperator text (charType c) s =
      .ok ((operators.lookup c).getD 1) (s.moveTo 1 rest) := by
  have hsame : ¬ nextTypeOf rest = charType c := by
    cases rest with
    | nil => exact (charType_spec c).ne_zero.symm
    | cons d rest =>
      intro htype
      exact hrest d rfl (.inl ((charType_operator_inj hc).mp htype))
  have hequal : ¬ nextCharOf rest = 61 := by
    cases rest with
    | nil => decide
    | cons d rest =>
      intro hd
      exact hrest d rfl (.inr (.inl (UInt8.toNat_inj.mp hd)))
  have hgreater : ¬ nextCharOf rest = 62 := by
    cases rest with
    | nil => decide
    | cons d rest =>
      intro hd
      exact hrest d rfl (.inr (.inr (UInt8.toNat_inj.mp hd)))
  rw [tcReadOperator, bind_ok h.readChar, bind_ok (get_apply _)]
  show (if _ then _ else if nextCharOf rest = 61 then _ else if nextCharOf rest = 62 then _ else _ :
    Scan Nat) _ = _
  rw [if_neg hsame, if_neg hequal, if_neg hgreater, operator_token hc]
  rfl

/-- The operator is followed by itself, by an equal sign or by a greater sign. -/
theorem tcReadOperator_two (h : At text (c :: d :: rest) s) (hc : IsOperator c)
    (hd : d = c ∨ d = byte '=' ∨ d = byte '>') :
    tcReadOperator text (charType c) s =
      .ok ((operatorPairs.lookup (c, d)).getD 1) (s.moveTo 2 rest) := by
  have h₁ : At text (d :: rest) (s.moveTo 1 (d :: rest)) := h.moveTo_one
  rw [tcReadOperator, bind_ok h.readChar, bind_ok (get_apply _)]
  show (if charType d = charType c then _ else if d.toNat = 61 then _ else if d.toNat = 62 then _
    else _ : Scan Nat) _ = _
  by_cases hsame : d = c
  · rw [if_pos ((charType_operator_inj hc).mpr hsame), bind_ok h₁.readChar, moveTo_moveTo, hsame,
      operator_twice hc]
    rfl
  rw [if_neg fun htype => hsame ((charType_operator_inj hc).mp htype)]
  by_cases hequal : d = byte '='
  · have heq : d.toNat = 61 := congrArg UInt8.toNat hequal
    rw [if_pos heq, bind_ok h₁.readChar, moveTo_moveTo, hequal, operator_equal hc]
    rfl
  have hne : ¬ d.toNat = 61 := fun heq => hequal (UInt8.toNat_inj.mp heq)
  have hgreater : d = byte '>' := (hd.resolve_left hsame).resolve_left hequal
  have heq : d.toNat = 62 := congrArg UInt8.toNat hgreater
  rw [if_neg hne, if_pos heq, bind_ok h₁.readChar, moveTo_moveTo, hgreater, operator_greater hc]
  rfl

/-! ### Quoted characters -/

/-- The check of a quoted character. -/
theorem printable_iff : IsPrintable c ↔ ¬ (c.toNat < 32 ∨ c.toNat ≥ 127) := by
  unfold IsPrintable
  rw [UInt8.le_iff_toNat_le, UInt8.lt_iff_toNat_lt]
  show 32 ≤ c.toNat ∧ c.toNat < 127 ↔ _
  omega

/-- A quote before a character that can't be printed is an error. -/
theorem tcReadQuotedChar_unprintable (h : At text (39 :: rest) s)
    (hrest : ∀ c ∈ rest.head?, ¬ IsPrintable c) :
    tcReadQuotedChar text s = .error (.panic 11) (s.moveTo 1 rest) := by
  have hvalue : nextCharOf rest < 32 ∨ nextCharOf rest ≥ 127 := by
    cases rest with
    | nil => exact .inl (by decide)
    | cons c rest => exact not_not.mp fun hnot => hrest c rfl (printable_iff.mpr hnot)
  rw [tcReadQuotedChar, bind_ok h.readChar, bind_ok (get_apply _)]
  have hpanic : (s.moveTo 1 rest).nextChar < 32 ∨ (s.moveTo 1 rest).nextChar ≥ 127 := hvalue
  simp only [if_pos hpanic]
  rfl

/-- A quoted character without a second quote is an error. -/
theorem tcReadQuotedChar_unclosed (h : At text (39 :: c :: rest) s) (hc : IsPrintable c)
    (hrest : rest.head? ≠ some 39) :
    tcReadQuotedChar text s = .error (.panic 12) (s.moveTo 2 rest) := by
  have h₁ : At text (c :: rest) (s.moveTo 1 (c :: rest)) := h.moveTo_one
  have hquote : nextTypeOf rest ≠ 39 := by
    cases rest with
    | nil => decide
    | cons d rest =>
      intro htype
      exact hrest (congrArg some ((charType_spec d).quote.mp htype))
  rw [tcReadQuotedChar, bind_ok h.readChar, bind_ok (get_apply _)]
  have hvalue : ¬ ((s.moveTo 1 (c :: rest)).nextChar < 32 ∨ (s.moveTo 1 (c :: rest)).nextChar ≥ 127) :=
    printable_iff.mp hc
  simp only [if_neg hvalue]
  rw [bind_ok h₁.readChar, if_pos hquote, moveTo_moveTo]
  rfl

/-- A character between two quotes is an integer. -/
theorem tcReadQuotedChar_closed (h : At text (39 :: c :: 39 :: rest) s) (hc : IsPrintable c) :
    tcReadQuotedChar text s =
      .ok TC_INTEGER { s.moveTo 3 rest with nextTokenData := c.toNat } := by
  have h₁ : At text (c :: 39 :: rest) (s.moveTo 1 (c :: 39 :: rest)) := h.moveTo_one
  have h₂ : At text (39 :: rest) (s.moveTo 2 (39 :: rest)) := h₁.moveTo_one
  have hquote : ¬ nextTypeOf (39 :: rest) ≠ 39 := not_not.mpr ((charType_spec 39).quote.mpr rfl)
  rw [tcReadQuotedChar, bind_ok h.readChar, bind_ok (get_apply _)]
  have hvalue : ¬ ((s.moveTo 1 (c :: 39 :: rest)).nextChar < 32 ∨
      (s.moveTo 1 (c :: 39 :: rest)).nextChar ≥ 127) := printable_iff.mp hc
  simp only [if_neg hvalue]
  rw [bind_ok h₁.readChar, if_neg hquote,
    moveTo_moveTo, bind_ok h₂.readChar, moveTo_moveTo]
  rfl

/-! ### Comments -/

theorem NoEnd.tail {l : List UInt8} (h : NoEnd (c :: l)) : NoEnd l := fun hl =>
  h (hl.trans (List.suffix_cons c l).isInfix)

/-- The end of a comment. -/
theorem not_noEnd {l : List UInt8} : ¬ NoEnd (42 :: 47 :: l) := fun h =>
  h (List.prefix_append [42, 47] l).isInfix

/-- The word of 16 bits of two bytes is that of an end of comment. -/
theorem word_eq_iff : d.toNat * 256 + c.toNat = 12074 ↔ c = 42 ∧ d = 47 := by
  have hc : c.toNat < 256 := UInt8.toNat_lt c
  rw [← UInt8.toNat_inj (a := c), ← UInt8.toNat_inj (a := d)]
  show _ ↔ c.toNat = 42 ∧ d.toNat = 47
  omega

/-- A character of the rest of the text. -/
theorem getElem?_of_drop {p i : Nat} {l : List UInt8} (h : text.drop p = l) :
    text[p + i]? = l[i]? := by
  rw [← h, List.getElem?_drop]

/-- The loop stops at the first end of comment. -/
theorem tcReadCommentLoop_at {body : List UInt8} {src : Nat}
    (h : text.drop (src + 2) = body ++ 42 :: 47 :: rest) (hno : NoEnd (body ++ [42]))
    (hn : body.length < n) :
    tcReadCommentLoop text n src s = .ok (src + body.length) s := by
  induction body generalizing n src with
  | nil =>
    obtain ⟨n, rfl⟩ : ∃ k, n = k + 1 := ⟨n - 1, by simp at hn; omega⟩
    have hlength := congrArg List.length h
    simp only [List.length_drop, List.nil_append, List.length_cons] at hlength
    have hlt : src + 3 < text.length := by omega
    have hhigh : text[src + 3]? = some 47 := getElem?_of_drop (i := 1) h
    have hlow : text[src + 2]? = some 42 := getElem?_of_drop (i := 0) h
    have heq : (47 : UInt8).toNat * 256 + (42 : UInt8).toNat = 12074 := by decide
    rw [tcReadCommentLoop, if_pos hlt, bind_ok (load8_eq hhigh), bind_ok (load8_eq hlow),
      if_neg (not_not.mpr heq)]
    rfl
  | cons c body ih =>
    obtain ⟨n, rfl⟩ : ∃ k, n = k + 1 := ⟨n - 1, by simp at hn; omega⟩
    rw [List.length_cons] at hn
    -- the two bytes that are read are not an end of comment, even if the second one ends the body
    obtain ⟨d, l, hl, hd⟩ : ∃ d l, body ++ 42 :: 47 :: rest = d :: l ∧ ¬ (c = 42 ∧ d = 47) := by
      cases body with
      | nil => exact ⟨42, 47 :: rest, rfl, fun hd => absurd hd.2 (by decide)⟩
      | cons d body =>
        refine ⟨d, body ++ 42 :: 47 :: rest, rfl, ?_⟩
        rintro ⟨rfl, rfl⟩
        exact not_noEnd hno
    have hlength := congrArg List.length h
    simp only [List.length_drop, List.length_append, List.length_cons] at hlength
    have hlt : src + 3 < text.length := by omega
    have hdrop : text.drop (src + 2) = c :: d :: l := by rw [h, List.cons_append, hl]
    have hhigh : text[src + 3]? = some d := getElem?_of_drop (i := 1) hdrop
    have hlow : text[src + 2]? = some c := getElem?_of_drop (i := 0) hdrop
    have hnext : text.drop (src + 1 + 2) = body ++ 42 :: 47 :: rest := by
      rw [Nat.add_right_comm, ← List.drop_drop, h]
      rfl
    have hne : d.toNat * 256 + c.toNat ≠ 12074 := fun heq => hd (word_eq_iff.mp heq)
    rw [tcReadCommentLoop, if_pos hlt, bind_ok (load8_eq hhigh), bind_ok (load8_eq hlow), if_pos hne,
      ih hnext hno.tail (by omega), List.length_cons]
    congr 1
    omega

/-- Without an end of comment, the loop stops at the end of the text. -/
theorem tcReadCommentLoop_end {src : Nat} (h : NoEnd (text.drop (src + 2)))
    (hpos : 0 < n) (hn : text.length ≤ src + n) :
    ∃ src', tcReadCommentLoop text n src s = .ok src' s ∧ text.length ≤ src' + 3 := by
  -- the induction is on the bound, since the text after the comment is not known
  induction n generalizing src with
  | zero => exact absurd hpos (lt_irrefl 0)
  | succ n ih =>
    by_cases hlt : src + 3 < text.length
    · obtain ⟨c, d, l, hdrop⟩ : ∃ c d l, text.drop (src + 2) = c :: d :: l := by
        have hlength : 2 ≤ (text.drop (src + 2)).length := by
          rw [List.length_drop]
          omega
        match hl : text.drop (src + 2), hlength with
        | c :: d :: l, _ => exact ⟨c, d, l, rfl⟩
      have hhigh : text[src + 3]? = some d := getElem?_of_drop (i := 1) hdrop
      have hlow : text[src + 2]? = some c := getElem?_of_drop (i := 0) hdrop
      rw [hdrop] at h
      have hne : d.toNat * 256 + c.toNat ≠ 12074 := by
        intro heq
        obtain ⟨rfl, rfl⟩ := word_eq_iff.mp heq
        exact not_noEnd h
      have hnext : text.drop (src + 1 + 2) = d :: l := by
        rw [Nat.add_right_comm, ← List.drop_drop, hdrop]
        rfl
      obtain ⟨src', heq, hend⟩ := ih (hnext ▸ h.tail) (by omega) (by omega)
      refine ⟨src', ?_, hend⟩
      rw [tcReadCommentLoop, if_pos hlt, bind_ok (load8_eq hhigh), bind_ok (load8_eq hlow), if_pos hne,
        heq]
    · refine ⟨src, ?_, not_lt.mp hlt⟩
      rw [tcReadCommentLoop, if_neg hlt]
      rfl

/-- A comment is read up to its first end. -/
theorem tcReadComment_at {body : List UInt8} (h : At text (47 :: 42 :: (body ++ 42 :: 47 :: rest)) s)
    (hno : NoEnd (body ++ [42])) :
    tcReadComment text s.src s = .ok 1 { s with src := s.src + body.length + 3 } := by
  have hlength := h.length_eq
  simp only [List.length_cons, List.length_append] at hlength
  have hnot : ¬ s.src + 1 ≥ text.length := by omega
  have hstar : text[s.src + 1]? = some 42 := h.getElem? 1
  have hdrop : text.drop (s.src + 2) = body ++ 42 :: 47 :: rest := by
    rw [← List.drop_drop, h.drop_eq]
    rfl
  have hchar : ¬ (42 : UInt8).toNat ≠ 42 := by decide
  simp only [tcReadComment, if_neg hnot]
  rw [bind_ok (load8_eq hstar), if_neg hchar,
    bind_ok (tcReadCommentLoop_at hdrop hno (by omega))]
  rfl

/-- A comment without an end is read up to the end of the text. -/
theorem tcReadComment_end {body : List UInt8} (h : At text (47 :: 42 :: body) s) (hno : NoEnd body) :
    ∃ src, tcReadComment text s.src s = .ok 1 { s with src := src } ∧ text.length ≤ src := by
  have hlength := h.length_eq
  simp only [List.length_cons] at hlength
  have hnot : ¬ s.src + 1 ≥ text.length := by omega
  have hstar : text[s.src + 1]? = some 42 := h.getElem? 1
  have hdrop : text.drop (s.src + 2) = body := by
    rw [← List.drop_drop, h.drop_eq]
    rfl
  have hchar : ¬ (42 : UInt8).toNat ≠ 42 := by decide
  obtain ⟨src, heq, hend⟩ := tcReadCommentLoop_end (s := s) (hdrop.symm ▸ hno)
    (Nat.succ_pos text.length) (by omega)
  refine ⟨src + 3, ?_, hend⟩
  simp only [tcReadComment, if_neg hnot]
  rw [bind_ok (load8_eq hstar), if_neg hchar, bind_ok heq]
  rfl

/-- A slash that does not start a comment. -/
theorem tcReadComment_slash (h : At text (47 :: rest) s) (hrest : rest.head? ≠ some 42) :
    tcReadComment text s.src s = .ok 0 s := by
  have hlength := h.length_eq
  rw [List.length_cons] at hlength
  unfold tcReadComment
  cases rest with
  | nil =>
    have hend : s.src + 1 ≥ text.length := by rw [List.length_nil] at hlength; omega
    rw [if_pos hend]
    rfl
  | cons c rest =>
    have hnot : ¬ s.src + 1 ≥ text.length := by rw [List.length_cons] at hlength; omega
    have hload : text[s.src + 1]? = some c := h.getElem? 1
    have hchar : c.toNat ≠ 42 := by
      intro heq
      exact hrest (congrArg some (UInt8.toNat_inj.mp heq))
    simp only [if_neg hnot]
    rw [bind_ok (load8_eq hload), if_pos hchar]
    rfl

/-! ### Blanks and comments -/

/-- The type of a slash. -/
theorem nextTypeOf_slash (l : List UInt8) : nextTypeOf (47 :: l) = TC_DIV :=
  (charType_spec 47).slash.mpr rfl

/-- The loop of `tc_read_token` skips the separators. -/
theorem tcReadTokenLoop_separator {sep : List UInt8} (hsep : Separator sep)
    (h : At text (sep ++ rest) s) (hn : sep.length ≤ n) :
    ∃ n', n ≤ n' + sep.length ∧ tcReadTokenLoop text n (nextTypeOf (sep ++ rest)) s =
      tcReadTokenLoop text n' (nextTypeOf rest) (s.moveTo sep.length rest) := by
  induction hsep generalizing n s with
  | nil =>
    refine ⟨n, Nat.le_refl _, ?_⟩
    rw [List.nil_append] at h ⊢
    rw [List.length_nil, h.moveTo_zero]
  | @blank c sep hblank _ ih =>
    rw [List.length_cons] at hn
    obtain ⟨n, rfl⟩ : ∃ k, n = k + 1 := ⟨n - 1, by omega⟩
    rw [List.cons_append] at h
    obtain ⟨n', hn', heq⟩ := ih h.moveTo_one (show sep.length ≤ n by omega)
    refine ⟨n', by rw [List.length_cons]; omega, ?_⟩
    have htype : nextTypeOf (c :: (sep ++ rest)) = 32 := (charType_spec c).blank.mpr hblank
    rw [List.cons_append, tcReadTokenLoop, if_pos htype, bind_ok h.readChar, heq, moveTo_moveTo,
      List.length_cons, Nat.add_comm 1]
  | @comment body sep hno _ ih =>
    simp only [List.length_cons, List.length_append] at hn
    obtain ⟨n, rfl⟩ : ∃ k, n = k + 1 := ⟨n - 1, by omega⟩
    simp only [List.cons_append, List.append_assoc] at h ⊢
    -- two characters before the body of the comment, and two after it
    have hat : At text (sep ++ rest) (s.moveTo (body.length + 4) (sep ++ rest)) := by
      have hlength : (47 :: 42 :: (body ++ [42, 47])).length = body.length + 4 := by simp
      rw [← hlength]
      apply At.moveTo
      simpa using h
    obtain ⟨n', hn', heq⟩ := ih hat (show sep.length ≤ n by omega)
    refine ⟨n', by simp only [List.length_cons, List.length_append]; omega, ?_⟩
    have hblank : ¬ nextTypeOf (47 :: 42 :: (body ++ 42 :: 47 :: (sep ++ rest))) = 32 := by
      rw [nextTypeOf_slash]
      decide
    have hdrop : text.drop (s.src + body.length + 3) = 47 :: (sep ++ rest) := by
      rw [Nat.add_assoc, ← List.drop_drop, h.drop_eq]
      simp [List.drop_append]
    have hchar := tcReadChar_eq (s := { s with src := s.src + body.length + 3 }) hdrop
    rw [tcReadTokenLoop, if_neg hblank, if_pos (nextTypeOf_slash _), bind_ok (get_apply _),
      bind_ok (tcReadComment_at h hno), if_neg Nat.one_ne_zero, bind_ok hchar]
    have hstate : ({ s with src := s.src + body.length + 3 } : Scanner).moveTo 1 (sep ++ rest) =
        s.moveTo (body.length + 4) (sep ++ rest) := rfl
    rw [hstate, heq, moveTo_moveTo]
    simp only [List.length_cons, List.length_append]
    congr 2
    omega

/-- The loop of `tc_read_token` stops at a token, or at the end of the text. -/
theorem tcReadTokenLoop_start (h : At text rest s) (hrest : rest = [] ∨ StartsToken rest)
    (hpos : 0 < n) :
    tcReadTokenLoop text n (nextTypeOf rest) s = .ok (nextTypeOf rest) s := by
  obtain ⟨n, rfl⟩ : ∃ k, n = k + 1 := ⟨n - 1, by omega⟩
  cases rest with
  | nil =>
    have hblank : ¬ nextTypeOf [] = 32 := by decide
    have hslash : ¬ nextTypeOf [] = TC_DIV := by decide
    rw [tcReadTokenLoop, if_neg hblank, if_neg hslash]
    rfl
  | cons c rest =>
    have hstart := hrest.resolve_left (List.cons_ne_nil c rest)
    have hblank : ¬ nextTypeOf (c :: rest) = 32 := fun htype =>
      hstart.notBlank c rfl ((charType_spec c).blank.mp htype)
    rw [tcReadTokenLoop, if_neg hblank]
    split_ifs with hslash
    · obtain rfl := (charType_spec c).slash.mp hslash
      have hstar : rest.head? ≠ some 42 := by
        intro hhead
        cases rest with
        | nil => cases hhead
        | cons d rest =>
          obtain rfl := Option.some_inj.mp hhead
          exact hstart.notComment (List.prefix_append [47, 42] rest)
      rw [bind_ok (get_apply _), bind_ok (tcReadComment_slash h hstar), if_pos rfl]
      rfl
    · rfl

/-- The loop of `tc_read_token` skips the blanks and the comments. -/
theorem tcReadTokenLoop_eq {sep : List UInt8} (hsep : Separator sep) (h : At text (sep ++ rest) s)
    (hrest : rest = [] ∨ StartsToken rest) :
    tcReadTokenLoop text (text.length + 1) s.nextCharType s =
      .ok (nextTypeOf rest) (s.moveTo sep.length rest) := by
  have hlength := h.length_eq
  rw [List.length_append] at hlength
  obtain ⟨n', hn', heq⟩ := tcReadTokenLoop_separator hsep h
    (show sep.length ≤ text.length + 1 by omega)
  rw [h.nextCharType_eq, heq]
  exact tcReadTokenLoop_start h.moveTo hrest (by omega)

end Toys.Toyc
