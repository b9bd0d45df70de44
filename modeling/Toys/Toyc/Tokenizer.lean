import Mathlib
import Toys.Lib.Outcome
import Toys.Toyc.Tokens
import Toys.Toyc.Characters

namespace Toys.Toyc

open Toys.Lib

/-!
# The compiler — the scanner reads the tokens of the text

* `reads_longest` — the longest lexeme is read, whatever its kind;
* `tcReadToken_longest` — one call of `tc_read_token`;
* `readTokens_eq` — the repeated calls;
* `exists_tokenization`, `tokenization_unique` — each text has tokens, which are unique;
* `scan_tokenization` — the tokens of an input.
-/

variable {text rest : List UInt8} {s : Scanner} {c d : UInt8} {n : Nat}

/-! ### Tokens -/

variable {spelling sep : List UInt8} {t : Token} {s₁ : Scanner}

/-- The position in the text depends on three of the fields. -/
theorem At.of_eq (h : At text rest s) (hsrc : s₁.src = s.src) (hchar : s₁.nextChar = s.nextChar)
    (htype : s₁.nextCharType = s.nextCharType) : At text rest s₁ where
  drop_eq := by rw [hsrc, h.drop_eq]
  src_le := by rw [hsrc]; exact h.src_le
  nextChar_eq := hchar.trans h.nextChar_eq
  nextCharType_eq := htype.trans h.nextCharType_eq

/-- A token that is neither the end of the text, nor an integer, nor an identifier. -/
def IsCode (k : Nat) : Prop := k ≠ 0 ∧ k ≠ TC_INTEGER ∧ k ≠ TC_IDENTIFIER

/-- Whether a number is the code of a token can be decided. -/
instance : DecidablePred IsCode := fun k =>
  inferInstanceAs (Decidable (k ≠ 0 ∧ k ≠ TC_INTEGER ∧ k ≠ TC_IDENTIFIER))

/-- A table of codes gives codes, or the code of an error. -/
theorem lookup_isCode {α : Type} [BEq α] [LawfulBEq α] {table : List (α × Nat)} (a : α)
    (h : ∀ entry ∈ table, IsCode entry.2) : IsCode ((table.lookup a).getD 1) := by
  cases hlookup : table.lookup a with
  | none => decide
  | some k =>
    obtain ⟨l₁, l₂, rfl, -⟩ := List.lookup_eq_some_iff.mp hlookup
    exact h (a, k) (by simp)

/-- The token of a code. -/
theorem tokenOf_code {k : Nat} (hk : s.nextToken = k) (h : IsCode k) : tokenOf text s = .code k := by
  rw [tokenOf, hk, if_neg h.2.1, if_neg h.2.2]

theorem operators_isCode (c : UInt8) : IsCode ((operators.lookup c).getD 1) :=
  lookup_isCode c (by decide)

theorem operatorPairs_isCode (c d : UInt8) : IsCode ((operatorPairs.lookup (c, d)).getD 1) :=
  lookup_isCode (c, d) (by decide)

theorem punctuation_isCode (c : UInt8) : IsCode ((punctuation.lookup c).getD 1) :=
  lookup_isCode c (by decide)

theorem keyword_isCode {word : List UInt8} {k : Nat} (h : keywords.lookup word = some k) :
    IsCode k := by
  have hk := lookup_isCode word (show ∀ entry ∈ keywords, IsCode entry.2 by decide)
  rwa [h] at hk

/-- The function reads a token, and the scanner has the rest of the text to read. -/
def Reads (text : List UInt8) (x : Scan Nat) (s : Scanner) (rest : List UInt8) (t : Token) : Prop :=
  ∃ token s', x s = .ok token s' ∧ At text rest s' ∧ tokenOf text { s' with nextToken := token } = t

/-- A lexeme that takes one more character would be longer. -/
theorem Longest.not_append (h : Longest (spelling ++ rest) spelling t) (hd : d ∈ rest.head?)
    (t' : Token) : ¬ Lexeme (spelling ++ [d]) t' := by
  intro hlexeme
  obtain ⟨l, rfl⟩ : ∃ l, rest = d :: l := by
    cases rest with
    | nil => cases hd
    | cons d' l => exact ⟨l, by rw [Option.some_inj.mp hd]⟩
  have hle := h.longest _ t' ⟨l, by simp⟩ hlexeme
  rw [List.length_append, List.length_singleton] at hle
  omega

/-- Digits are read as an integer. -/
theorem reads_integer (h : At text (spelling ++ rest) s) (hne : spelling ≠ [])
    (hdigits : ∀ c ∈ spelling, IsDigit c) (hrest : ∀ c ∈ rest.head?, ¬ IsDigit c) :
    Reads text (tcReadTokenOfType text (nextTypeOf (spelling ++ rest))) s rest
      (.integer (decimal spelling % 2 ^ 64)) := by
  have hlength := h.length_eq
  rw [List.length_append] at hlength
  have hloop := tcReadIntegerLoop_at (n := text.length + 1) (v := 0) h hdigits hrest (by omega)
  have htype : nextTypeOf (spelling ++ rest) = TC_INTEGER := by
    cases spelling with
    | nil => exact absurd rfl hne
    | cons c l => exact (charType_spec c).digit.mpr (hdigits c List.mem_cons_self)
  refine ⟨TC_INTEGER, { s.moveTo spelling.length rest with nextTokenData := integerValue spelling 0 },
    ?_, h.moveTo.of_eq rfl rfl rfl, ?_⟩
  · rw [tcReadTokenOfType, if_pos htype, tcReadInteger, bind_ok (get_apply _), h.nextCharType_eq,
      bind_ok hloop]
    rfl
  · rw [tokenOf, if_pos rfl, integerValue_zero]

/-- A quoted character is read as an integer. -/
theorem reads_character (h : At text (39 :: c :: 39 :: rest) s) (hc : IsPrintable c) :
    Reads text (tcReadTokenOfType text (nextTypeOf (39 :: c :: 39 :: rest))) s rest
      (.integer c.toNat) := by
  have htype : nextTypeOf (39 :: c :: 39 :: rest) = 39 := (charType_spec 39).quote.mpr rfl
  have hat : At text rest (s.moveTo [39, c, 39].length rest) := At.moveTo h
  refine ⟨TC_INTEGER, { s.moveTo 3 rest with nextTokenData := c.toNat }, ?_, hat.of_eq rfl rfl rfl, ?_⟩
  · rw [tcReadTokenOfType, htype, if_neg (by decide), if_pos rfl]
    exact tcReadQuotedChar_closed h hc
  · rw [tokenOf, if_pos rfl]

/-- A word is read as a keyword or an identifier. -/
theorem reads_word {word : List UInt8} (h : At text (c :: word ++ rest) s) (hc : IsLetter c)
    (hword : ∀ d ∈ word, IsLetter d ∨ IsDigit d)
    (hrest : ∀ d ∈ rest.head?, ¬ (IsLetter d ∨ IsDigit d)) :
    Reads text (tcReadTokenOfType text (nextTypeOf (c :: word ++ rest))) s rest
      (wordToken (c :: word)) := by
  have hlength := h.length_eq
  rw [List.length_append] at hlength
  have hall : ∀ d ∈ c :: word, IsLetter d ∨ IsDigit d := by
    intro d hd
    rcases List.mem_cons.mp hd with rfl | hd
    · exact .inl hc
    · exact hword d hd
  have hloop := tcReadIdentifierLoop_at (n := text.length + 1) (v := 0) h hall hrest (by omega)
  have htype : nextTypeOf (c :: word ++ rest) = TC_IDENTIFIER := (charType_spec c).letter.mpr hc
  refine ⟨wordCode (c :: word), { s.moveTo (c :: word).length rest with
      nextTokenData := s.src, nextTokenLength := (c :: word).length },
    ?_, h.moveTo.of_eq rfl rfl rfl, ?_⟩
  · rw [tcReadTokenOfType, htype, if_neg (by decide), if_neg (by decide), if_pos rfl,
      tcReadIdentifier, bind_ok (get_apply _), h.nextCharType_eq, bind_ok hloop,
      bind_ok (get_apply _)]
    have hsrc : (s.moveTo (c :: word).length rest).src - s.src = (c :: word).length :=
      Nat.add_sub_cancel_left _ _
    rw [hsrc, bind_ok (set_apply _ _)]
    exact tcGetKeyword_eq h.drop_eq
  · rw [wordToken]
    cases hlookup : keywords.lookup (c :: word) with
    | some k =>
      exact tokenOf_code (by rw [wordCode, hlookup, Option.getD_some]) (keyword_isCode hlookup)
    | none =>
      simp only [tokenOf, wordCode, hlookup, Option.getD_none]
      rw [if_neg (by decide), if_pos trivial, h.drop_eq, List.take_left]

/-- The type of an operator is that of no other token. -/
theorem charType_operator (hc : IsOperator c) : ¬ charType c = TC_INTEGER ∧ ¬ charType c = 39 ∧
    ¬ charType c = TC_IDENTIFIER ∧ charType c ≥ 10 ∧ charType c < 20 := by
  have htype := (charType_spec c).operator.mpr hc
  unfold TC_INTEGER TC_IDENTIFIER
  omega

/-- An operator of one character. -/
theorem reads_operator (h : At text (c :: rest) s) (hc : IsOperator c)
    (hrest : ∀ d ∈ rest.head?, ¬ (d = c ∨ d = byte '=' ∨ d = byte '>')) :
    Reads text (tcReadTokenOfType text (nextTypeOf (c :: rest))) s rest
      (.code ((operators.lookup c).getD 1)) := by
  obtain ⟨h1, h2, h3, h4⟩ := charType_operator hc
  refine ⟨_, _, ?_, h.moveTo_one, tokenOf_code rfl (operators_isCode c)⟩
  rw [nextTypeOf, tcReadTokenOfType, if_neg h1, if_neg h2, if_neg h3, if_pos h4]
  exact tcReadOperator_one h hc hrest

/-- An operator of two characters. -/
theorem reads_operatorPair (h : At text (c :: d :: rest) s) (hc : IsOperator c)
    (hd : d = c ∨ d = byte '=' ∨ d = byte '>') :
    Reads text (tcReadTokenOfType text (nextTypeOf (c :: d :: rest))) s rest
      (.code ((operatorPairs.lookup (c, d)).getD 1)) := by
  obtain ⟨h1, h2, h3, h4⟩ := charType_operator hc
  have hat : At text rest (s.moveTo [c, d].length rest) := At.moveTo h
  refine ⟨_, _, ?_, hat, tokenOf_code rfl (operatorPairs_isCode c d)⟩
  rw [nextTypeOf, tcReadTokenOfType, if_neg h1, if_neg h2, if_neg h3, if_pos h4]
  exact tcReadOperator_two h hc hd

/-- Any other character. -/
theorem reads_other (h : At text (c :: rest) s) (hb : ¬ IsBlank c) (hd : ¬ IsDigit c)
    (hl : ¬ IsLetter c) (ho : ¬ IsOperator c) (hq : c ≠ 39) :
    Reads text (tcReadTokenOfType text (nextTypeOf (c :: rest))) s rest
      (.code ((punctuation.lookup c).getD 1)) := by
  have htype := charType_spec c
  refine ⟨charType c, _, ?_, h.moveTo_one,
    tokenOf_code (charType_other hb hd hl ho hq) (punctuation_isCode c)⟩
  rw [nextTypeOf, tcReadTokenOfType, if_neg (hd ∘ htype.digit.mp), if_neg (hq ∘ htype.quote.mp),
    if_neg (hl ∘ htype.letter.mp), if_neg (ho ∘ htype.operator.mp)]
  simp only [if_pos htype.ne_zero]
  rw [bind_ok h.readChar]
  rfl

/-- The longest lexeme is read, whatever its kind. -/
theorem reads_longest (h : At text (spelling ++ rest) s)
    (hlong : Longest (spelling ++ rest) spelling t) :
    Reads text (tcReadTokenOfType text (nextTypeOf (spelling ++ rest))) s rest t := by
  cases hlong.lexeme with
  | integer hne hdigits =>
    apply reads_integer h hne hdigits
    intro c hc hdigit
    apply hlong.not_append hc _ (.integer (by simp) _)
    intro d hd
    rcases List.mem_append.mp hd with hd | hd
    · exact hdigits d hd
    · exact List.mem_singleton.mp hd ▸ hdigit
  | character hc => exact reads_character h hc
  | @word c word hc hword =>
    apply reads_word h hc hword
    intro d hd hletter
    apply hlong.not_append hd _ (show Lexeme (c :: (word ++ [d])) _ from .word hc _)
    intro e he
    rcases List.mem_append.mp he with he | he
    · exact hword e he
    · exact List.mem_singleton.mp he ▸ hletter
  | operator hc =>
    apply reads_operator h hc
    intro d hd hpair
    exact hlong.not_append hd _ (.operatorPair hc hpair)
  | operatorPair hc hd => exact reads_operatorPair h hc hd
  | other hb hd hl ho hq => exact reads_other h hb hd hl ho hq

/-! ### Calls -/

/-- One call reads the separators and the longest lexeme after them. -/
theorem tcReadToken_longest (hsep : Separator sep) (hstart : StartsToken (spelling ++ rest))
    (hlong : Longest (spelling ++ rest) spelling t) (h : At text (sep ++ (spelling ++ rest)) s) :
    ∃ s', tcReadToken text s = .ok ⟨⟩ s' ∧ At text rest s' ∧ tokenOf text s' = t := by
  have hloop := tcReadTokenLoop_eq hsep h (.inr hstart)
  obtain ⟨token, s', heq, hat, htoken⟩ := reads_longest h.moveTo hlong
  refine ⟨{ s' with nextToken := token }, ?_, hat.of_eq rfl rfl rfl, htoken⟩
  rw [tcReadToken, bind_ok (get_apply _), bind_ok hloop, bind_ok heq]
  rfl

/-- At the end of the text the token is 0. -/
theorem tcReadToken_end (hsep : Separator sep) (h : At text sep s) :
    ∃ s', tcReadToken text s = .ok ⟨⟩ s' ∧ At text [] s' ∧ tokenOf text s' = .code 0 := by
  rw [← List.append_nil sep] at h
  have hloop := tcReadTokenLoop_eq hsep h (.inl rfl)
  refine ⟨{ s.moveTo sep.length [] with nextToken := 0 }, ?_, h.moveTo.of_eq rfl rfl rfl, rfl⟩
  rw [tcReadToken, bind_ok (get_apply _), bind_ok hloop]
  rfl

/-- A quote starts a token. -/
theorem startsToken_quote : StartsToken (39 :: rest) where
  ne_nil := List.cons_ne_nil _ _
  notBlank := by
    intro c hc
    obtain rfl := Option.some_inj.mp hc
    decide
  notComment := by
    rintro ⟨l, hl⟩
    exact absurd (List.cons.inj hl).1 (by decide)

/-- A token that starts with a quote. -/
theorem tcReadToken_quote (hsep : Separator sep) (h : At text (sep ++ 39 :: rest) s) :
    tcReadToken text s = (tcReadQuotedChar text >>= fun token =>
      modify fun self => { self with nextToken := token }) (s.moveTo sep.length (39 :: rest)) := by
  have hloop := tcReadTokenLoop_eq hsep h (.inr startsToken_quote)
  have htype : nextTypeOf (39 :: rest) = 39 := (charType_spec 39).quote.mpr rfl
  rw [tcReadToken, bind_ok (get_apply _), bind_ok hloop, htype, tcReadTokenOfType, if_neg (by decide),
    if_pos rfl]

/-- The error of a quote before a character that can't be printed. -/
theorem tcReadToken_unprintable (hsep : Separator sep) (h : At text (sep ++ 39 :: rest) s)
    (hrest : ∀ c ∈ rest.head?, ¬ IsPrintable c) :
    ∃ s', tcReadToken text s = .error (.panic 11) s' := by
  rw [tcReadToken_quote hsep h]
  exact ⟨_, bind_error (tcReadQuotedChar_unprintable h.moveTo hrest)⟩

/-- The error of a quoted character without a second quote. -/
theorem tcReadToken_unclosed (hsep : Separator sep) (h : At text (sep ++ 39 :: c :: rest) s)
    (hc : IsPrintable c) (hrest : rest.head? ≠ some 39) :
    ∃ s', tcReadToken text s = .error (.panic 12) s' := by
  rw [tcReadToken_quote hsep h]
  exact ⟨_, bind_error (tcReadQuotedChar_unclosed h.moveTo hc hrest)⟩

/-- The error of a comment without an end. -/
theorem tcReadToken_unterminated {body : List UInt8} (hsep : Separator sep)
    (h : At text (sep ++ 47 :: 42 :: body) s) (hno : NoEnd body) :
    ∃ s', tcReadToken text s = .error (.panic 10) s' := by
  have hlength := h.length_eq
  rw [List.length_append] at hlength
  obtain ⟨n, hn, heq⟩ := tcReadTokenLoop_separator hsep h (show sep.length ≤ text.length + 1 by omega)
  obtain ⟨n, rfl⟩ : ∃ k, n = k + 1 := ⟨n - 1, by omega⟩
  obtain ⟨src, hcomment, hend⟩ := tcReadComment_end h.moveTo hno
  have hblank : ¬ nextTypeOf (47 :: 42 :: body) = 32 := by
    rw [nextTypeOf_slash]
    decide
  refine ⟨{ s.moveTo sep.length (47 :: 42 :: body) with src := src }, ?_⟩
  rw [tcReadToken, bind_ok (get_apply _), h.nextCharType_eq, bind_error]
  rw [heq, tcReadTokenLoop, if_neg hblank, if_pos (nextTypeOf_slash _), bind_ok (get_apply _),
    bind_ok hcomment, if_neg Nat.one_ne_zero]
  exact bind_error (tcReadChar_end hend)

/-! ### Repeated calls -/

variable {ts ts' : List Token} {ending ending' : Ending}

/-- One more token is read. -/
theorem readTokens_ok (h : tcReadToken text s = .ok ⟨⟩ s₁) :
    readTokens text (n + 1) s = (tokenOf text s₁ :: (readTokens text n s₁).1, (readTokens text n s₁).2) := by
  rw [readTokens, h]

/-- The scanner stops at an error. -/
theorem readTokens_error {stop : Stop} (h : tcReadToken text s = .error stop s₁) :
    readTokens text (n + 1) s = ([], some stop) := by
  rw [readTokens, h]

/-- At the end of the text the token is 0 forever. -/
theorem readTokens_end (hsep : Separator sep) (h : At text sep s) :
    readTokens text n s = (List.replicate n (Token.code 0), none) := by
  induction n generalizing s sep with
  | zero => rfl
  | succ n ih =>
    obtain ⟨s', heq, hat, htoken⟩ := tcReadToken_end hsep h
    rw [readTokens_ok heq, ih .nil hat, htoken]
    rfl

/-- The repeated calls return the tokens of the text. -/
theorem readTokens_eq (ht : Tokenization rest ts ending) (h : At text rest s) (n : Nat) :
    readTokens text n s = expected ts n ending := by
  induction ht generalizing n s with
  | endOfInput hsep =>
    rw [readTokens_end hsep h, expected, List.nil_append, List.take_replicate, min_self]
  | @token sep spelling rest t ts ending hsep hstart hlong _ ih =>
    obtain ⟨s', heq, hat, htoken⟩ := tcReadToken_longest hsep hstart hlong h
    cases n with
    | zero => cases ending <;> rfl
    | succ n =>
      rw [readTokens_ok heq, htoken, ih hat]
      cases ending
      · have htake : (ts ++ List.replicate n (Token.code 0) ++ [Token.code 0]).take n =
            (ts ++ List.replicate n (Token.code 0)).take n :=
          List.take_append_of_le_length (by simp)
        simp only [expected, List.cons_append, List.take_succ_cons, List.replicate_succ']
        rw [← List.append_assoc, htake]
      all_goals simp [expected]
  | unterminatedComment hsep hno =>
    obtain ⟨s', heq⟩ := tcReadToken_unterminated hsep h hno
    cases n with
    | zero => rfl
    | succ n => exact readTokens_error heq
  | unprintable hsep hrest =>
    obtain ⟨s', heq⟩ := tcReadToken_unprintable hsep h hrest
    cases n with
    | zero => rfl
    | succ n => exact readTokens_error heq
  | unclosedQuote hsep hc hrest =>
    obtain ⟨s', heq⟩ := tcReadToken_unclosed hsep h hc hrest
    cases n with
    | zero => rfl
    | succ n => exact readTokens_error heq

/-! ### Each text has tokens -/

/-- The first end of comment. -/
theorem exists_end {l : List UInt8} (h : ¬ NoEnd l) :
    ∃ body rest, l = body ++ 42 :: 47 :: rest ∧ NoEnd (body ++ [42]) := by
  induction l with
  | nil => exact absurd (fun hl => by simp at hl) h
  | cons c l ih =>
    by_cases hfirst : [42, 47] <+: c :: l
    · obtain ⟨rest, hrest⟩ := hfirst
      exact ⟨[], rest, hrest.symm, fun hl => absurd hl.length_le (by decide)⟩
    · have htail : ¬ NoEnd l := fun hno =>
        h fun hl => (List.infix_cons_iff.mp hl).elim hfirst hno
      obtain ⟨body, rest, rfl, hno⟩ := ih htail
      refine ⟨c :: body, rest, rfl, fun hl => ?_⟩
      rcases List.infix_cons_iff.mp hl with hl | hl
      · -- the two bytes would be the first ones of the text
        apply hfirst
        cases body with
        | nil => exact absurd (List.cons_prefix_cons.mp (List.cons_prefix_cons.mp hl).2).1 (by decide)
        | cons d body =>
          obtain ⟨rfl, hd⟩ := List.cons_prefix_cons.mp hl
          obtain ⟨rfl, -⟩ := List.cons_prefix_cons.mp hd
          exact List.prefix_append [42, 47] _
      · exact hno hl

/-- What comes after the separators at the start of a text. -/
theorem exists_separator (l : List UInt8) : ∃ sep rest, l = sep ++ rest ∧ Separator sep ∧
    (rest = [] ∨ StartsToken rest ∨ ∃ body, rest = 47 :: 42 :: body ∧ NoEnd body) := by
  induction hn : l.length using Nat.strong_induction_on generalizing l with
  | _ n ih =>
    subst hn
    cases l with
    | nil => exact ⟨[], [], rfl, .nil, .inl rfl⟩
    | cons c l =>
      by_cases hblank : IsBlank c
      · obtain ⟨sep, rest, rfl, hsep, hrest⟩ := ih l.length (by simp) l rfl
        exact ⟨c :: sep, rest, rfl, .blank hblank hsep, hrest⟩
      by_cases hcomment : [47, 42] <+: c :: l
      · obtain ⟨m, hm⟩ := hcomment
        obtain ⟨rfl, rfl⟩ := List.cons.inj hm
        by_cases hno : NoEnd m
        · exact ⟨[], 47 :: 42 :: m, rfl, .nil, .inr (.inr ⟨m, rfl, hno⟩)⟩
        · obtain ⟨body, l', rfl, hbody⟩ := exists_end hno
          obtain ⟨sep, rest, rfl, hsep, hrest⟩ := ih l'.length (by simp; omega) l' rfl
          exact ⟨47 :: 42 :: (body ++ 42 :: 47 :: sep), rest, by simp, .comment hbody hsep, hrest⟩
      · refine ⟨[], c :: l, rfl, .nil, .inr (.inl ⟨List.cons_ne_nil c l, ?_, hcomment⟩)⟩
        intro d hd
        obtain rfl := Option.some_inj.mp hd
        exact hblank

/-- A lexeme is not empty. -/
theorem Lexeme.ne_nil (h : Lexeme spelling t) : spelling ≠ [] := by
  cases h with
  | integer hne _ => exact hne
  | character _ => exact List.cons_ne_nil _ _
  | word _ _ => exact List.cons_ne_nil _ _
  | operator _ => exact List.cons_ne_nil _ _
  | operatorPair _ _ => exact List.cons_ne_nil _ _
  | other _ _ _ _ _ => exact List.cons_ne_nil _ _

/-- A text that starts with a lexeme starts with a longest one. -/
theorem exists_longest (hpre : spelling <+: rest) (h : Lexeme spelling t) :
    ∃ spelling t, Longest rest spelling t := by
  classical
  have hspec := Nat.findGreatest_spec (n := rest.length)
    (P := fun k => ∃ l t, l <+: rest ∧ Lexeme l t ∧ l.length = k) hpre.length_le
    ⟨spelling, t, hpre, h, rfl⟩
  obtain ⟨l, t', hl, hlexeme, hlength⟩ := hspec
  refine ⟨l, t', hlexeme, hl, fun l' t'' hl' hlexeme' => ?_⟩
  rw [hlength]
  exact Nat.le_findGreatest hl'.length_le ⟨l', t'', hl', hlexeme', rfl⟩

/-- Each character but a quote is a lexeme, or its start. -/
theorem exists_lexeme (hblank : ¬ IsBlank c) (hquote : c ≠ 39) : ∃ t, Lexeme [c] t := by
  by_cases hd : IsDigit c
  · exact ⟨_, .integer (List.cons_ne_nil _ _) fun e he => List.mem_singleton.mp he ▸ hd⟩
  by_cases hl : IsLetter c
  · exact ⟨_, .word hl fun e he => absurd he List.not_mem_nil⟩
  by_cases ho : IsOperator c
  · exact ⟨_, .operator ho⟩
  · exact ⟨_, .other hblank hd hl ho hquote⟩

/-- Each text has a tokenization. -/
theorem exists_tokenization (l : List UInt8) : ∃ ts ending, Tokenization l ts ending := by
  induction hn : l.length using Nat.strong_induction_on generalizing l with
  | _ n ih =>
    subst hn
    obtain ⟨sep, rest, rfl, hsep, hrest⟩ := exists_separator l
    rcases hrest with rfl | hstart | ⟨body, rfl, hno⟩
    · exact ⟨[], .endOfInput, by rw [List.append_nil]; exact .endOfInput hsep⟩
    · by_cases hlexeme : ∃ spelling t, spelling <+: rest ∧ Lexeme spelling t
      · obtain ⟨_, _, hpre, hlexeme⟩ := hlexeme
        obtain ⟨spelling, t, hlong⟩ := exists_longest hpre hlexeme
        obtain ⟨rest, rfl⟩ := hlong.isPrefix
        have hpos := List.length_pos_iff.mpr hlong.lexeme.ne_nil
        obtain ⟨ts, ending, ht⟩ := ih rest.length (by simp; omega) rest rfl
        exact ⟨t :: ts, ending, .token hsep hstart hlong ht⟩
      · -- no character but a quote can be there
        cases rest with
        | nil => exact absurd rfl hstart.ne_nil
        | cons c rest =>
          obtain rfl : c = 39 := by
            by_contra hquote
            obtain ⟨t, ht⟩ := exists_lexeme (hstart.notBlank c rfl) hquote
            exact hlexeme ⟨[c], t, List.prefix_append [c] rest, ht⟩
          cases rest with
          | nil => exact ⟨[], .unprintable, .unprintable hsep fun c hc => by cases hc⟩
          | cons c rest =>
            by_cases hc : IsPrintable c
            · refine ⟨[], .unclosedQuote, .unclosedQuote hsep hc fun hhead => ?_⟩
              cases rest with
              | nil => cases hhead
              | cons d rest =>
                obtain rfl := Option.some_inj.mp hhead
                exact hlexeme ⟨[39, c, 39], _, List.prefix_append [39, c, 39] rest, .character hc⟩
            · refine ⟨[], .unprintable, .unprintable hsep fun d hd => ?_⟩
              exact Option.some_inj.mp hd ▸ hc
    · exact ⟨[], .unterminatedComment, .unterminatedComment hsep hno⟩

/-! ### The tokens of a text are unique -/

/-- No lexeme is the end of the text. -/
theorem Lexeme.ne_zero (h : Lexeme spelling t) : t ≠ .code 0 := by
  have hcode : ∀ k, IsCode k → Token.code k ≠ .code 0 := fun k hk heq =>
    hk.1 (Token.code.inj heq)
  cases h with
  | integer _ _ => exact Token.noConfusion
  | character _ => exact Token.noConfusion
  | @word c word _ _ =>
    rw [wordToken]
    cases hlookup : keywords.lookup (c :: word) with
    | none => exact Token.noConfusion
    | some k => exact hcode k (keyword_isCode hlookup)
  | operator _ => exact hcode _ (operators_isCode _)
  | operatorPair _ _ => exact hcode _ (operatorPairs_isCode _ _)
  | other _ _ _ _ _ => exact hcode _ (punctuation_isCode _)

/-- The tokens are not the end of the text. -/
theorem Tokenization.ne_zero (h : Tokenization rest ts ending) : ∀ t ∈ ts, t ≠ .code 0 := by
  induction h with
  | token _ _ hlong _ ih =>
    intro t ht
    rcases List.mem_cons.mp ht with rfl | ht
    · exact hlong.lexeme.ne_zero
    · exact ih t ht
  | endOfInput _ => exact fun t ht => absurd ht List.not_mem_nil
  | unterminatedComment _ _ => exact fun t ht => absurd ht List.not_mem_nil
  | unprintable _ _ => exact fun t ht => absurd ht List.not_mem_nil
  | unclosedQuote _ _ _ => exact fun t ht => absurd ht List.not_mem_nil

/-- The tokens are those of the list that are not 0. -/
theorem filter_expected (h : ∀ t ∈ ts, t ≠ .code 0) (hn : ts.length ≤ n) (ending : Ending) :
    (expected ts n ending).1.filter (fun t => t ≠ .code 0) = ts := by
  have hfilter : ts.filter (fun t => t ≠ .code 0) = ts := by
    rw [List.filter_eq_self]
    intro t ht
    exact decide_eq_true (h t ht)
  have hzeros : ∀ k, (List.replicate k (Token.code 0)).filter (fun t => t ≠ .code 0) = [] := by
    intro k
    rw [List.filter_replicate, if_neg (by decide)]
  cases ending with
  | endOfInput =>
    rw [expected, List.take_append, List.filter_append, List.take_of_length_le hn, hfilter,
      List.take_replicate, hzeros, List.append_nil]
  | _ => rw [expected, List.take_of_length_le hn, hfilter]

/-- What the calls return tells the end of the text. -/
theorem ending_of_expected (hn : ts.length < n) (hn' : ts'.length < n)
    (h : (expected ts n ending).2 = (expected ts' n ending').2) : ending = ending' := by
  have hle : ¬ n ≤ ts.length := not_le.mpr hn
  have hle' : ¬ n ≤ ts'.length := not_le.mpr hn'
  cases ending
  all_goals cases ending'
  all_goals simp [expected, hle, hle'] at h ⊢

/-- A text has one tokenization only: the scanner reads it. -/
theorem tokenization_unique (h : Tokenization rest ts ending) (h' : Tokenization rest ts' ending')
    (hat : At text rest s) : ts' = ts ∧ ending' = ending := by
  have heq := (readTokens_eq h' hat (ts.length + ts'.length + 1)).symm.trans
    (readTokens_eq h hat (ts.length + ts'.length + 1))
  constructor
  · rw [← filter_expected h'.ne_zero (show ts'.length ≤ ts.length + ts'.length + 1 by omega) ending',
      heq, filter_expected h.ne_zero (by omega)]
  · exact ending_of_expected (n := ts.length + ts'.length + 1) (by omega) (by omega)
      (congrArg Prod.snd heq)

/-! ### The whole input -/

/-- The first character of the input is read before its tokens. -/
theorem scan_start (input : List UInt8) : ∃ s, At (0 :: input) input s ∧
    ∀ n, scan input n = readTokens (0 :: input) n s := by
  have hchar := tcReadChar_eq (show (0 :: input).drop Scanner.init.src = 0 :: input from rfl)
  refine ⟨Scanner.init.moveTo 1 input, ⟨rfl, ?_, rfl, rfl⟩, fun n => ?_⟩
  · show 0 + 1 ≤ (0 :: input).length
    rw [List.length_cons]
    omega
  · rw [scan, hchar]

/-- The repeated calls of `tc_read_token` return the tokens of the input, which are unique.  They
    read no byte outside of the text. -/
theorem scan_tokenization (input : List UInt8) : ∃ ts ending,
    (∀ ts' ending', Tokenization input ts' ending' ↔ ts' = ts ∧ ending' = ending) ∧
    ∀ n, scan input n = expected ts n ending ∧ (scan input n).2 ≠ some .fault ∧
      (scan input n).2 ≠ some .timeout := by
  obtain ⟨ts, ending, ht⟩ := exists_tokenization input
  obtain ⟨s, hat, hscan⟩ := scan_start input
  refine ⟨ts, ending, fun ts' ending' => ⟨fun ht' => tokenization_unique ht ht' hat, ?_⟩, fun n => ?_⟩
  · rintro ⟨rfl, rfl⟩
    exact ht
  · have heq : scan input n = expected ts n ending := (hscan n).trans (readTokens_eq ht hat n)
    rw [heq]
    refine ⟨rfl, ?_, ?_⟩
    all_goals cases ending
    all_goals simp [expected]

end Toys.Toyc
