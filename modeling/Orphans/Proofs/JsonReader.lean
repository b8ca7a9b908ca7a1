import Mathlib
import Orphans.Proofs.JsonParser

/-!
# The reader reads the grammar

`read?_eq_some_iff`: a text is read as a value exactly if it is a spelling of the value. So no text
spells two values, whatever reads it (`IsSpelling.eq`).

1. Inside a string, reading and spelling are the same (`unescape?_eq_some_iff`). The units of a
   character from U+10000 on cannot be taken for characters, as no character has their numbers.
2. `Scanner.Follows` says which texts lead to a state of the scanner: spellings of the tokens that
   have been found, with what has been read of the next token after them. A step adds one character
   (`Scanner.Follows.step`).
3. In the other direction the scanner is run along a spelling (`foldlM_step_tokensSpelling`). A
   number ends only where something else begins, so this asks that no two numbers stand next to each
   other, which is so for the tokens of a value (`isChain_apart_tokens`).
-/

namespace Orphans.Json

/-! ### Characters inside strings -/

/-- A digit of base sixteen is below 16. -/
theorem hexValue?_lt {c : Char} {n : Nat} (h : hexValue? c = some n) : n < 16 := by
  unfold hexValue? at h
  split_ifs at h with digit lower upper
  · cases h
    have le : c.toNat ≤ 57 := digit.2
    show c.toNat - 48 < 16
    omega
  · cases h
    have le : c.toNat ≤ 102 := lower.2
    show c.toNat - 97 + 10 < 16
    omega
  · cases h
    have le : c.toNat ≤ 70 := upper.2
    show c.toNat - 65 + 10 < 16
    omega

/-- So four of them are below 65536. -/
theorem unit?_lt {a b c d : Char} {n : Nat} (h : unit? a b c d = some n) : n < 0x10000 := by
  simp only [unit?, Option.bind_eq_bind, Option.bind_eq_some_iff] at h
  obtain ⟨na, ha, nb, hb, nc, hc, nd, hd, hn⟩ := h
  have := hexValue?_lt ha
  have := hexValue?_lt hb
  have := hexValue?_lt hc
  have := hexValue?_lt hd
  cases hn
  omega

/-- A unit that is not one of two is the number of a character. -/
theorem toNat_ofNat_unit {n : Nat} (lt : n < 0x10000) (notHigh : ¬ isHigh n = true)
    (notLow : ¬ isLow n = true) : (Char.ofNat n).toNat = n := by
  rw [Char.toNat_ofNat, if_pos]
  simp only [isHigh, isLow, Bool.and_eq_true, decide_eq_true_eq] at notHigh notLow
  show n < 0xD800 ∨ 0xDFFF < n ∧ n < 0x110000
  omega

/-- Two units together are the number of a character. -/
theorem toNat_ofNat_scalarOf {high low : Nat} (hhigh : isHigh high = true)
    (hlow : isLow low = true) : (Char.ofNat (scalarOf high low)).toNat = scalarOf high low := by
  rw [Char.toNat_ofNat, if_pos]
  simp only [isHigh, isLow, Bool.and_eq_true, decide_eq_true_eq] at hhigh hlow
  unfold scalarOf
  show _ < 0xD800 ∨ 0xDFFF < _ ∧ _ < 0x110000
  omega

/-- No character has the number of the first of two units. -/
theorem not_isHigh_toNat (c : Char) : ¬ isHigh c.toNat = true := by
  have valid : c.toNat < 0xD800 ∨ 0xDFFF < c.toNat ∧ c.toNat < 0x110000 := c.valid
  simp only [isHigh, Bool.and_eq_true, decide_eq_true_eq]
  omega

/-- Nor that of the second. -/
theorem not_isLow_toNat (c : Char) : ¬ isLow c.toNat = true := by
  have valid : c.toNat < 0xD800 ∨ 0xDFFF < c.toNat ∧ c.toNat < 0x110000 := c.valid
  simp only [isLow, Bool.and_eq_true, decide_eq_true_eq]
  omega

/-- A text that is one character longer is read. -/
theorem map_cons_eq_some_iff {c : Char} {read : Option Text} {text : Text} :
    (c :: ·) <$> read = some text ↔ ∃ rest, read = some rest ∧ text = c :: rest := by
  simp [eq_comm]

/-- What is read is spelled by what it is read from. The cases are those of `unescape?`. -/
theorem textSpelling_of_unescape? {inside text : Text} (h : unescape? inside = some text) :
    TextSpelling text inside := by
  fun_induction unescape? inside generalizing text with
  | case1 =>
    cases h
    exact .nil
  | case2 a b c d rest ih₂ ih =>
    obtain ⟨unit, hunit, h⟩ := Option.bind_eq_some_iff.mp h
    -- a unit is the first of two, the second of two without a first, or a character by itself
    split_ifs at h with high low
    · split at h
      · next a' b' c' d' rest =>
        obtain ⟨second, hsecond, h⟩ := Option.bind_eq_some_iff.mp h
        split_ifs at h with low
        obtain ⟨text, htext, rfl⟩ := map_cons_eq_some_iff.mp h
        exact .cons (.units hunit hsecond high low (toNat_ofNat_scalarOf high low)) (ih₂ htext)
      · cases h
    · obtain ⟨text, htext, rfl⟩ := map_cons_eq_some_iff.mp h
      have value := toNat_ofNat_unit (unit?_lt hunit) high low
      exact .cons (.unit (by rw [value, hunit])) (ih htext)
  | case3 e rest _ ih =>
    obtain ⟨c, hc, h⟩ := Option.bind_eq_some_iff.mp h
    obtain ⟨text, htext, rfl⟩ := map_cons_eq_some_iff.mp h
    exact .cons (.letter hc) (ih htext)
  | case4 c rest _ _ plain ih =>
    obtain ⟨text, htext, rfl⟩ := map_cons_eq_some_iff.mp h
    exact .cons (.plain plain.1 plain.2.1 plain.2.2) (ih htext)
  | case5 => cases h

/-- A spelling of a character is read as the character, whatever comes after it. -/
theorem unescape?_append {c : Char} {spelling : Text} (h : CharSpelling c spelling) (rest : Text) :
    unescape? (spelling ++ rest) = (c :: ·) <$> unescape? rest := by
  cases h with
  | plain printable notMark notBackslash =>
    simp [unescape?, printable, notMark, notBackslash]
  | @letter e h =>
    -- the letter u stands for no character by itself, digits follow it
    have notUnit : e ≠ 'u' := by
      rintro rfl
      cases h
    simp [unescape?, notUnit, h]
  | unit h =>
    simp [unescape?, h, not_isHigh_toNat, not_isLow_toNat]
  | units hhigh hlow isHigh isLow h =>
    simp [unescape?, hhigh, hlow, isHigh, isLow, ← h]

/-- What is inside a string is read as a text exactly if it is a spelling of the text. -/
theorem unescape?_eq_some_iff {inside text : Text} :
    unescape? inside = some text ↔ TextSpelling text inside := by
  refine ⟨textSpelling_of_unescape?, fun h => ?_⟩
  induction h with
  | nil => rfl
  | cons head _ ih => rw [unescape?_append head, ih, Option.map_eq_map, Option.map_some]

/-! ### Numbers -/

namespace Scanner

variable {scanner scanner' : Scanner} {found : List Token} {front text : Text} {c : Char}

/-- A digit stands for a number below 10. -/
theorem digitValue_lt (h : c.isDigit = true) : digitValue c < 10 := by
  have le : c.toNat ≤ 57 := (Char.isDigit_iff_toNat.mp h).2
  show c.toNat - 48 < 10
  omega

/-- A digit is the digit of its value. -/
theorem digitChar_digitValue (h : c.isDigit = true) : (digitValue c).digitChar = c := by
  have le : 48 ≤ c.toNat := (Char.isDigit_iff_toNat.mp h).1
  apply Char.toNat_inj.mp
  rw [Nat.toNat_digitChar_of_lt_ten (digitValue_lt h)]
  show 48 + (c.toNat - 48) = c.toNat
  omega

/-- A number below 10 is the value of its digit. -/
theorem digitValue_digitChar {n : Nat} (h : n < 10) : digitValue n.digitChar = n := by
  rw [digitValue, Nat.toNat_digitChar_of_lt_ten h]
  simp

/-- So a digit is written as itself. -/
theorem toDigits_digitValue (h : c.isDigit = true) : Nat.toDigits 10 (digitValue c) = [c] := by
  rw [Nat.toDigits_of_lt_base (digitValue_lt h), digitChar_digitValue h]

/-- A digit after a number that is not 0. -/
theorem toDigits_concat {n : Nat} (nonzero : n ≠ 0) (h : c.isDigit = true) :
    Nat.toDigits 10 n ++ [c] = Nat.toDigits 10 (10 * n + digitValue c) := by
  rw [← Nat.toDigits_append_toDigits (by decide) (Nat.pos_of_ne_zero nonzero) (digitValue_lt h),
    toDigits_digitValue h]

/-! ### The scanner reads spellings -/

/-- What has been read of the token that a scanner is in the middle of. -/
def begun (scanner : Scanner) : Text :=
  match scanner.mode with
  | .between => []
  | .number n => Nat.toDigits 10 n
  | .string inside => '\x22' :: inside
  | .escape inside => '\x22' :: inside ++ ['\\']

/-- A scanner has read a text: a spelling of the tokens it has found, and what it is in the middle
of. -/
def Follows (scanner : Scanner) (text : Text) : Prop :=
  ∃ front, TokensSpelling scanner.found front ∧ text = front ++ scanner.begun

/-- A character that is not part of the token before it begins a token, is one, or is a blank. -/
theorem Follows.begin? (before : TokensSpelling found front)
    (h : begin? found c = some scanner) : scanner.Follows (front ++ [c]) := by
  unfold Scanner.begin? at h
  split_ifs at h with blank digit quote
  · cases h
    exact ⟨front ++ [c], .blank before blank, (List.append_nil _).symm⟩
  · cases h
    exact ⟨front, before, congrArg (front ++ ·) (toDigits_digitValue digit).symm⟩
  · cases h
    exact ⟨front, before, by rw [quote]; rfl⟩
  · obtain ⟨token, hmark, rfl⟩ := Option.map_eq_some_iff.mp h
    exact ⟨front ++ [c], .token before (.mark hmark), (List.append_nil _).symm⟩

/-- A step reads one character. The cases are what the scanner is in the middle of, and in each of
them the character goes on with that, or ends it and begins anew. -/
theorem Follows.step (follows : scanner.Follows text) (h : scanner.step c = some scanner') :
    scanner'.Follows (text ++ [c]) := by
  obtain ⟨front, before, rfl⟩ := follows
  obtain ⟨found, mode⟩ := scanner
  cases mode with
  | between =>
    rw [begun, List.append_nil]
    exact Follows.begin? before h
  -- a digit belongs to the number, and anything else ends it
  | number n =>
    unfold Scanner.step at h
    dsimp only at h
    split_ifs at h with digit zero
    · cases h
      refine ⟨front, before, ?_⟩
      rw [List.append_assoc]
      exact congrArg (front ++ ·) (toDigits_concat zero digit)
    · exact Follows.begin? (before.token (.number n)) h
  | string inside =>
    unfold Scanner.step at h
    dsimp only at h
    split_ifs at h with quote backslash
    · obtain ⟨text, htext, rfl⟩ := Option.map_eq_some_iff.mp h
      refine ⟨_, before.token (.text (unescape?_eq_some_iff.mp htext)), ?_⟩
      simp [begun, quote]
    · cases h
      exact ⟨front, before, by simp [begun, backslash]⟩
    · cases h
      exact ⟨front, before, by simp [begun]⟩
  | escape inside =>
    cases h
    exact ⟨front, before, by simp [begun]⟩

/-- So many characters are read by many steps. -/
theorem follows_foldlM_step {read : Text} (follows : scanner.Follows text)
    (h : read.foldlM Scanner.step scanner = some scanner') : scanner'.Follows (text ++ read) := by
  induction read generalizing scanner text with
  | nil =>
    cases h
    rwa [List.append_nil]
  | cons c read ih =>
    rw [List.foldlM_cons] at h
    obtain ⟨next, hstep, hrest⟩ := Option.bind_eq_some_iff.mp h
    rw [List.append_cons]
    exact ih (follows.step hstep) hrest

/-- In the beginning nothing has been read. -/
theorem follows_start : start.Follows [] :=
  ⟨[], .nil, rfl⟩

/-- A number that has been read to its end is one of the tokens. -/
theorem Follows.settle (follows : scanner.Follows text) : scanner.settle.Follows text := by
  obtain ⟨front, before, rfl⟩ := follows
  obtain ⟨found, mode⟩ := scanner
  cases mode with
  | number n => exact ⟨_, before.token (.number n), (List.append_nil _).symm⟩
  | between => exact ⟨front, before, rfl⟩
  | string inside => exact ⟨front, before, rfl⟩
  | escape inside => exact ⟨front, before, rfl⟩

/-- All tokens have been found when nothing is left in the middle. -/
theorem finish?_eq_some_iff :
    scanner.finish? = some found ↔ scanner.settle = ⟨found, .between⟩ := by
  unfold finish?
  constructor
  · intro h
    split at h
    · next settled => cases h; exact settled
    · cases h
  · intro h
    rw [h]

end Scanner

/-- The tokens that are found are spelled by the text that they are found in. -/
theorem tokensSpelling_of_scan? {text : Text} {tokens : List Token} (h : scan? text = some tokens) :
    TokensSpelling tokens text := by
  obtain ⟨scanner, hrun, hfinish⟩ := Option.bind_eq_some_iff.mp h
  have follows := (Scanner.follows_foldlM_step Scanner.follows_start hrun).settle
  rw [Scanner.finish?_eq_some_iff.mp hfinish] at follows
  obtain ⟨front, before, htext⟩ := follows
  rw [Scanner.begun, List.append_nil, List.nil_append] at htext
  rwa [htext]

/-! ### Spellings are scanned -/

namespace Scanner

variable {scanner scanner' : Scanner} {found : List Token} {front text : Text} {c : Char}

/-- What is no digit begins anew, also after a number. -/
theorem step_eq_begin? (settled : scanner.settle = ⟨found, .between⟩) (h : c.isDigit = false) :
    scanner.step c = begin? found c := by
  obtain ⟨before, mode⟩ := scanner
  cases mode with
  | between =>
    cases settled
    rfl
  | number n =>
    cases settled
    simp [step, h]
  | string inside => cases settled
  | escape inside => cases settled

/-- A character that is no digit leads on from where nothing is left in the middle. -/
theorem foldlM_step_cons (settled : scanner.settle = ⟨found, .between⟩) (h : c.isDigit = false)
    {next : Scanner} (hnext : begin? found c = some next) (rest : Text) :
    (c :: rest).foldlM step scanner = rest.foldlM step next := by
  rw [List.foldlM_cons, step_eq_begin? settled h, hnext]
  rfl

/-- A scanner that is not in the middle of a number. -/
theorem eq_of_settle (settled : scanner.settle = ⟨found, .between⟩)
    (h : ∀ n, found.getLast? ≠ some (.number n)) : scanner = ⟨found, .between⟩ := by
  obtain ⟨before, mode⟩ := scanner
  cases mode with
  | between => exact settled
  | number n =>
    cases settled
    exact absurd List.getLast?_concat (h n)
  | string inside => cases settled
  | escape inside => cases settled

/-- A blank is passed over. -/
theorem begin?_of_isBlank (h : isBlank c = true) : begin? found c = some ⟨found, .between⟩ :=
  if_pos h

/-- No blank is a digit. -/
theorem isDigit_of_isBlank (h : isBlank c = true) : c.isDigit = false := by
  simp only [isBlank, Bool.or_eq_true, decide_eq_true_eq] at h
  rcases h with ((rfl | rfl) | rfl) | rfl <;> rfl

/-- No mark is a digit. -/
theorem isDigit_of_mark? {token : Token} (h : mark? c = some token) : c.isDigit = false := by
  unfold mark? at h
  split at h <;> first | rfl | cases h

/-- A mark is a token of its own. -/
theorem begin?_of_mark? {token : Token} (h : mark? c = some token) :
    begin? found c = some ⟨found ++ [token], .between⟩ := by
  have plain : isBlank c = false ∧ c ≠ '\x22' := by
    unfold mark? at h
    split at h <;> first | decide | cases h
  rw [begin?, if_neg (by simp [plain.1]), if_neg (by simp [isDigit_of_mark? h]), if_neg plain.2, h]
  rfl

/-- A digit begins a number. -/
theorem begin?_of_isDigit (h : c.isDigit = true) :
    begin? found c = some ⟨found, .number (digitValue c)⟩ := by
  have notBlank : ¬ isBlank c = true := fun blank => by
    rw [isDigit_of_isBlank blank] at h
    cases h
  rw [begin?, if_neg notBlank, if_pos h]

/-- All digits of a number are read. The induction takes the last digit away, as the scanner adds it
last; the digit 0 in front of others never comes up, for no number is written so. -/
theorem foldlM_step_toDigits (found : List Token) (n : Nat) :
    (Nat.toDigits 10 n).foldlM step ⟨found, .between⟩ = some ⟨found, .number n⟩ := by
  induction n using Nat.strongRecOn with
  | ind n ih =>
    -- the first digit begins the number, and every other one is added to the number before it
    by_cases small : n < 10
    · have digit : n.digitChar.isDigit = true := by simp [small]
      rw [Nat.toDigits_of_lt_base small, List.foldlM_cons, step, begin?_of_isDigit digit,
        digitValue_digitChar small]
      rfl
    · have last : n % 10 < 10 := Nat.mod_lt n (by decide)
      have digit : (n % 10).digitChar.isDigit = true := by simp [last]
      have nonzero : n / 10 ≠ 0 := by omega
      have whole : 10 * (n / 10) + n % 10 = n := Nat.div_add_mod n 10
      rw [Nat.toDigits_of_base_le (by decide) (by omega), List.foldlM_append, ih _ (by omega)]
      simp [step, last, small, digitValue_digitChar last, whole]

/-- Characters that neither end a string nor begin an escape are read one by one. -/
theorem foldlM_step_inside {text : Text} (h : ∀ c ∈ text, c ≠ '\x22' ∧ c ≠ '\\')
    (found : List Token) (inside : Text) :
    text.foldlM step ⟨found, .string inside⟩ = some ⟨found, .string (inside ++ text)⟩ := by
  induction text generalizing inside with
  | nil => rw [List.append_nil]; rfl
  | cons c text ih =>
    obtain ⟨notQuote, notBackslash⟩ := h c List.mem_cons_self
    have next : step ⟨found, .string inside⟩ c = some ⟨found, .string (inside ++ [c])⟩ := by
      simp [step, notQuote, notBackslash]
    have rest := ih (fun d hd => h d (List.mem_cons_of_mem c hd)) (inside ++ [c])
    rw [← List.append_cons] at rest
    rw [List.foldlM_cons, next]
    exact rest

/-- A digit of base sixteen neither ends a string nor begins an escape. -/
theorem ne_of_hexValue? {c : Char} {n : Nat} (h : hexValue? c = some n) :
    c ≠ '\x22' ∧ c ≠ '\\' := by
  constructor <;> (rintro rfl; cases h)

/-- Nor do the four digits of a unit. -/
theorem ne_of_unit? {a b c d : Char} {n : Nat} (h : unit? a b c d = some n) :
    ∀ x ∈ [a, b, c, d], x ≠ '\x22' ∧ x ≠ '\\' := by
  simp only [unit?, Option.bind_eq_bind, Option.bind_eq_some_iff] at h
  obtain ⟨_, ha, _, hb, _, hc, _, hd, -⟩ := h
  simp only [List.forall_mem_cons]
  exact ⟨ne_of_hexValue? ha, ne_of_hexValue? hb, ne_of_hexValue? hc, ne_of_hexValue? hd, by simp⟩

/-- An escape with the units of a character is read to its end. -/
theorem foldlM_step_unit {a b c d : Char} {n : Nat} (h : unit? a b c d = some n)
    (found : List Token) (inside : Text) :
    ['\\', 'u', a, b, c, d].foldlM step ⟨found, .string inside⟩ =
      some ⟨found, .string (inside ++ ['\\', 'u', a, b, c, d])⟩ := by
  have digits := foldlM_step_inside (ne_of_unit? h) found (inside ++ ['\\', 'u'])
  rw [List.append_assoc] at digits
  exact digits

/-- Every spelling of a character stays inside the string. -/
theorem foldlM_step_charSpelling {spelling : Text} (h : CharSpelling c spelling)
    (found : List Token) (inside : Text) :
    spelling.foldlM step ⟨found, .string inside⟩ = some ⟨found, .string (inside ++ spelling)⟩ := by
  cases h with
  | plain _ notMark notBackslash => exact foldlM_step_inside (by simp [notMark, notBackslash]) _ _
  | letter h => rfl
  | unit h => exact foldlM_step_unit h found inside
  | @units a b c d a' b' c' d' high low hhigh hlow _ _ _ =>
    have first := foldlM_step_unit hhigh found inside
    have second := foldlM_step_unit hlow found (inside ++ ['\\', 'u', a, b, c, d])
    show (['\\', 'u', a, b, c, d] ++ ['\\', 'u', a', b', c', d']).foldlM _ _ = _
    rw [List.append_assoc] at second
    rw [List.foldlM_append, first]
    exact second

/-- So does every spelling of a text. -/
theorem foldlM_step_textSpelling {inside : Text} (h : TextSpelling text inside)
    (found : List Token) (before : Text) :
    inside.foldlM step ⟨found, .string before⟩ = some ⟨found, .string (before ++ inside)⟩ := by
  induction h generalizing before with
  | nil => rw [List.append_nil]; rfl
  | cons head _ ih =>
    rw [List.foldlM_append, foldlM_step_charSpelling head, ← List.append_assoc]
    exact ih _

/-- The quotation mark after it closes the string, and the text is the token. -/
theorem foldlM_step_quoted {inside : Text} (h : TextSpelling text inside) (found : List Token) :
    (inside ++ ['\x22']).foldlM step ⟨found, .string []⟩ =
      some ⟨found ++ [.text text], .between⟩ := by
  rw [List.foldlM_append, foldlM_step_textSpelling h]
  simp [step, unescape?_eq_some_iff.mpr h]

/-- The scanner finds the tokens of a spelling, if no two numbers stand next to each other. At the
end it may be in the middle of a number, so what is told is the state after it has been settled. -/
theorem foldlM_step_tokensSpelling {tokens : List Token} (h : TokensSpelling tokens text)
    (apart : tokens.IsChain Token.Apart) :
    ∃ scanner, text.foldlM step start = some scanner ∧ scanner.settle = ⟨tokens, .between⟩ := by
  induction h with
  | nil => exact ⟨start, rfl, rfl⟩
  | blank _ blank ih =>
    obtain ⟨scanner, hrun, settled⟩ := ih apart
    refine ⟨⟨_, .between⟩, ?_, rfl⟩
    rw [List.foldlM_append, hrun]
    exact foldlM_step_cons settled (isDigit_of_isBlank blank) (begin?_of_isBlank blank) []
  | @token tokens front token spelling _ spelled ih =>
    obtain ⟨before, -, seam⟩ := List.isChain_append.mp apart
    obtain ⟨scanner, hrun, settled⟩ := ih before
    rw [List.foldlM_append, hrun]
    cases spelled with
    | mark h =>
      exact ⟨_, foldlM_step_cons settled (isDigit_of_mark? h) (begin?_of_mark? h) [], rfl⟩
    | text h =>
      have opened := foldlM_step_cons (c := '\x22') settled rfl rfl
      exact ⟨_, (opened _).trans (foldlM_step_quoted h tokens), rfl⟩
    -- a number before it would go on with these digits, so there must be none
    | number n =>
      have notNumber (m : Nat) : tokens.getLast? ≠ some (.number m) := fun h =>
        seam _ h _ rfl m n ⟨rfl, rfl⟩
      obtain rfl := eq_of_settle settled notNumber
      exact ⟨_, foldlM_step_toDigits tokens n, rfl⟩

end Scanner

/-- A text is scanned as the tokens that it spells, as long as no two numbers are neighbours. -/
theorem scan?_of_tokensSpelling {text : Text} {tokens : List Token} (h : TokensSpelling tokens text)
    (apart : tokens.IsChain Token.Apart) : scan? text = some tokens := by
  obtain ⟨scanner, hrun, settled⟩ := Scanner.foldlM_step_tokensSpelling h apart
  unfold scan?
  rw [hrun]
  exact Scanner.finish?_eq_some_iff.mpr settled

/-- A text is read as a value exactly if it is a spelling of the value. -/
theorem read?_eq_some_iff {text : Text} {value : Json} :
    read? text = some value ↔ value.IsSpelling text := by
  constructor
  · intro h
    obtain ⟨tokens, hscan, hparse⟩ := Option.bind_eq_some_iff.mp h
    obtain rfl := parse?_eq_some_iff.mp hparse
    exact tokensSpelling_of_scan? hscan
  · intro h
    unfold read?
    rw [scan?_of_tokensSpelling h (isChain_apart_tokens value)]
    exact parse?_eq_some_iff.mpr rfl

/-- A blank before the closing bracket, a character by its number, and a backslash. -/
example : read? "[1, \"\\u00e9\\\\\" ]".toList = some (.list [.number 1, .text ['é', '\\']]) := by
  cbv

/-- A text spells one value at most. -/
theorem IsSpelling.eq {text : Text} {value value' : Json} (h : value.IsSpelling text)
    (h' : value'.IsSpelling text) : value = value' :=
  Option.some_inj.mp ((read?_eq_some_iff.mpr h).symm.trans (read?_eq_some_iff.mpr h'))

end Orphans.Json
