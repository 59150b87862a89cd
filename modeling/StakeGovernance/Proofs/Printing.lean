import StakeGovernance.Json.Parser
import StakeGovernance.Json.Printer
import StakeGovernance.Proofs.Texts

/-!
# JSON is read as it was printed

The two layouts of a text differ in blanks only, and the reader passes blanks over. So one
argument serves both: a value is read back from its text in any layout, whatever follows the
text, as long as it could not be taken for a part of a number. The number that bounds the steps
of the reader is never reached, because each step down leaves a character behind.

A number with a fraction or an exponent is kept as it was written, and some literals denote
nothing. Nothing of that kind is ever stored, so both are left out here.

* `StakeGovernance.Json.parseLiteral_quote` – a **string literal**;
* `StakeGovernance.Json.parseNumber_intChars` – an **integer**;
* `StakeGovernance.Json.Layout` – a **layout**, with the compact and the indented one;
* `StakeGovernance.Json.Plain` – the values that are **read as they were printed**:
  `StakeGovernance.Json.Plain.parseText?_compact` and
  `StakeGovernance.Json.Plain.parse?_pretty`.
-/

namespace StakeGovernance.Json

/-! ### String literals -/

/-- Whether a character is escaped in a literal. -/
def isEscaped (c : Char) : Bool := escape c ≠ [c]

theorem parseLiteral_letter {letter c : Char} (hletter : letter ≠ 'u')
    (hc : unescape? letter = some c) (l : Literal) (cs : List Char) :
    parseLiteral l ('\\' :: letter :: cs) = parseLiteral ⟨c.toNat :: l.codes, true⟩ cs := by
  rw [parseLiteral.eq_def]
  split
  · simp_all
  · simp_all
  · simp_all
  · rename_i h
    obtain ⟨rfl, rfl⟩ : letter = _ ∧ cs = _ := by simpa using h
    simp [hc]
  · rename_i hnot h
    obtain ⟨rfl, rfl⟩ := List.cons.inj h
    exact absurd rfl (hnot _ _ rfl)

theorem parseLiteral_unit {a b c d : Char} {code : Nat} (h : escapeUnit? a b c d = some code)
    (l : Literal) (cs : List Char) :
    parseLiteral l ('\\' :: 'u' :: a :: b :: c :: d :: cs)
      = parseLiteral ⟨code :: l.codes, true⟩ cs := by
  rw [parseLiteral]
  simp [h]

theorem parseLiteral_plain {c : Char} (hquote : c ≠ '"') (hslash : c ≠ '\\')
    (hcontrol : ¬ c.toNat < 32) (l : Literal) (cs : List Char) :
    parseLiteral l (c :: cs) = parseLiteral ⟨c.toNat :: l.codes, l.escaped⟩ cs := by
  rw [parseLiteral.eq_def]
  split
  · simp_all
  · simp_all
  · simp_all
  · simp_all
  · rename_i h
    obtain ⟨rfl, rfl⟩ := List.cons.inj h
    rw [if_neg (not_or.2 ⟨hcontrol, hslash⟩)]

theorem escapeUnit?_digits (n : Fin 32) :
    escapeUnit? '0' '0' (Hex.digit (n.val / 16)) (Hex.digit (n.val % 16)) = some n.val := by
  revert n
  decide

/-- **The three ways of writing a character**: by a letter, by its code, and as it is. -/
theorem escape_cases (c : Char) :
    (∃ letter, letter ≠ 'u' ∧ unescape? letter = some c ∧ escape c = ['\\', letter]) ∨
      (∃ a b, escapeUnit? '0' '0' a b = some c.toNat ∧ escape c = ['\\', 'u', '0', '0', a, b]) ∨
      (c ≠ '"' ∧ c ≠ '\\' ∧ ¬ c.toNat < 32 ∧ escape c = [c]) := by
  by_cases hquote : c = '"'
  · exact .inl ⟨'"', by decide, by subst hquote; rfl, by subst hquote; rfl⟩
  by_cases hslash : c = '\\'
  · exact .inl ⟨'\\', by decide, by subst hslash; rfl, by subst hslash; rfl⟩
  by_cases hb : c = '\x08'
  · exact .inl ⟨'b', by decide, by subst hb; rfl, by subst hb; rfl⟩
  by_cases hf : c = '\x0c'
  · exact .inl ⟨'f', by decide, by subst hf; rfl, by subst hf; rfl⟩
  by_cases hn : c = '\n'
  · exact .inl ⟨'n', by decide, by subst hn; rfl, by subst hn; rfl⟩
  by_cases hr : c = '\r'
  · exact .inl ⟨'r', by decide, by subst hr; rfl, by subst hr; rfl⟩
  by_cases ht : c = '\t'
  · exact .inl ⟨'t', by decide, by subst ht; rfl, by subst ht; rfl⟩
  have hescape : escape c = if c.toNat < 32 then
      ['\\', 'u', '0', '0', Hex.digit (c.toNat / 16), Hex.digit (c.toNat % 16)] else [c] := by
    simp only [escape, hquote, hslash, hb, hf, hn, hr, ht, if_false]
  rw [hescape]
  by_cases hcontrol : c.toNat < 32
  · exact .inr (.inl ⟨_, _, escapeUnit?_digits ⟨c.toNat, hcontrol⟩, if_pos hcontrol⟩)
  · exact .inr (.inr ⟨hquote, hslash, hcontrol, if_neg hcontrol⟩)

/-- **A character is read as it was written.** -/
theorem parseLiteral_escape (l : Literal) (c : Char) (cs : List Char) :
    parseLiteral l (escape c ++ cs)
      = parseLiteral ⟨c.toNat :: l.codes, l.escaped || isEscaped c⟩ cs := by
  have hescaped : ∀ first second rest, escape c = first :: second :: rest →
      (l.escaped || isEscaped c) = true := fun _ _ _ h => by
    rw [isEscaped, h]
    simp
  rcases escape_cases c with ⟨letter, hu, hc, h⟩ | ⟨a, b, hc, h⟩ | ⟨hquote, hslash, hcontrol, h⟩
  · rw [hescaped _ _ _ h, h]
    exact parseLiteral_letter hu hc l cs
  · rw [hescaped _ _ _ h, h]
    exact parseLiteral_unit hc l cs
  · rw [isEscaped, h]
    simpa using parseLiteral_plain hquote hslash hcontrol l cs

/-- **A literal is read as it was written.** -/
theorem parseLiteral_escaped (l : Literal) (s rest : List Char) :
    parseLiteral l (s.flatMap escape ++ '"' :: rest)
      = some (⟨(s.map Char.toNat).reverse ++ l.codes, l.escaped || s.any isEscaped⟩, rest) := by
  induction s generalizing l with
  | nil => simp [parseLiteral]
  | cons c s ih =>
    rw [List.flatMap_cons, List.append_assoc, parseLiteral_escape, ih]
    simp [Bool.or_assoc]

/-- A character is no half of a pair of surrogates. -/
theorem not_surrogate (c : Char) : (isLowSurrogate c.toNat || isHighSurrogate c.toNat) = false := by
  have hvalid : c.toNat < 0xd800 ∨ 0xdfff < c.toNat ∧ c.toNat < 0x110000 := c.valid
  simp only [isLowSurrogate, isHighSurrogate, Bool.or_eq_false_iff, Bool.and_eq_false_iff,
    decide_eq_false_iff_not]
  omega

theorem charsOfCodes_toNat (acc cs : List Char) :
    charsOfCodes acc (cs.map Char.toNat) = some (cs.reverse ++ acc) := by
  induction cs generalizing acc with
  | nil => rfl
  | cons c rest ih =>
    have hc := not_surrogate c
    obtain ⟨hlow, hhigh⟩ := Bool.or_eq_false_iff.1 hc
    cases rest with
    | nil =>
      rw [List.map_cons, List.map_nil, charsOfCodes, hc, Char.ofNat_toNat]
      rfl
    | cons d rest =>
      rw [List.map_cons, List.map_cons, charsOfCodes, hlow, hhigh, Char.ofNat_toNat,
        ← List.map_cons]
      exact (ih (c :: acc)).trans (by simp)

/-- **The text of a literal** is the text that was written. -/
theorem text?_reverse (s : String) (escaped : Bool) :
    Literal.text? ⟨(s.toList.map Char.toNat).reverse, escaped⟩ = some s := by
  unfold Literal.text?
  rw [← List.map_reverse, charsOfCodes_toNat]
  simp

/-- Digits are not escaped. -/
theorem isEscaped_of_isDigit {c : Char} (h : isDigit c = true) : isEscaped c = false := by
  have hne : ∀ d, isDigit d = false → c ≠ d := by
    rintro d hd rfl
    cases hd.symm.trans h
  have hbounds : '0' ≤ c ∧ c ≤ '9' := by simpa [isDigit] using h
  have hcontrol : ¬ c.toNat < 32 := by
    have hzero : 48 ≤ c.toNat := hbounds.1
    omega
  have hescape : escape c = [c] := by
    unfold escape
    rw [if_neg (hne _ rfl), if_neg (hne _ rfl), if_neg (hne _ rfl), if_neg (hne _ rfl),
      if_neg (hne _ rfl), if_neg (hne _ rfl), if_neg (hne _ rfl), if_neg hcontrol]
  simp [isEscaped, hescape]

/-- A value stays what it is also where keys are numbers: a key with an escape is no number. -/
theorem fieldValue_key (tables : Bool) (key : String) (v : Json) :
    fieldValue tables ⟨(key.toList.map Char.toNat).reverse, key.toList.any isEscaped⟩ v = v := by
  have hnumeral : isNumeral key = true → key.toList.any isEscaped = false := by
    intro h
    simp only [isNumeral, Bool.and_eq_true] at h
    refine List.any_eq_false.2 fun c hc => ?_
    rw [isEscaped_of_isDigit (List.all_eq_true.1 h.1.1.2 c hc)]
    exact Bool.false_ne_true
  unfold fieldValue
  rw [text?_reverse, Option.any_some]
  cases hkey : isNumeral key with
  | false => rw [Bool.and_false, if_neg Bool.false_ne_true]
  | true => rw [hnumeral hkey, Bool.and_false, Bool.false_and, if_neg Bool.false_ne_true]

/-! ### Numbers -/

/-- **What can follow a number** without being taken for a part of it. -/
def Ends (rest : List Char) : Prop :=
  ∀ c ∈ rest.head?, isDigit c = false ∧ c ≠ '.' ∧ c ≠ 'e' ∧ c ≠ 'E'

theorem isDigit_of_mem_digits {n : Nat} {c : Char} (h : c ∈ Decimal.digits n) :
    isDigit c = true := by
  have hc : c.isDigit = true := Decimal.isDigit_of_mem_digits h
  simpa [Char.isDigit, isDigit, Char.le_def] using hc

theorem Ends.takeWhile {rest : List Char} (h : Ends rest) : rest.takeWhile isDigit = [] := by
  cases rest with
  | nil => rfl
  | cons c rest => exact List.takeWhile_cons_of_neg (by rw [(h c rfl).1]; exact Bool.false_ne_true)

theorem Ends.dropWhile {rest : List Char} (h : Ends rest) : rest.dropWhile isDigit = rest := by
  cases rest with
  | nil => rfl
  | cons c rest => exact List.dropWhile_cons_of_neg (by rw [(h c rfl).1]; exact Bool.false_ne_true)

theorem Ends.parseFraction {rest : List Char} (h : Ends rest) :
    parseFraction rest = some ([], rest) := by
  unfold Json.parseFraction
  split
  · exact absurd rfl (h '.' rfl).2.1
  · rfl

theorem Ends.parseExponent {rest : List Char} (h : Ends rest) :
    parseExponent rest = some ([], rest) := by
  cases rest with
  | nil => rfl
  | cons c rest =>
    obtain ⟨-, -, he, hE⟩ := h c rfl
    exact if_neg (not_or.2 ⟨he, hE⟩)

theorem digitsValue_digits (n : Nat) : digitsValue (Decimal.digits n) = n :=
  @Nat.ofDigitChars_toDigits 10 n (by decide) (by decide)

theorem parseSign_digits (negative : Bool) (n : Nat) (rest : List Char) :
    parseSign ((if negative then ['-'] else []) ++ Decimal.digits n ++ rest)
      = (negative, Decimal.digits n ++ rest) := by
  cases negative with
  | true => rfl
  | false =>
    -- a digit is no sign
    cases hd : Decimal.digits n with
    | nil => exact absurd hd (Decimal.digits_ne_nil n)
    | cons first others =>
      unfold parseSign
      split
      · rename_i h
        obtain ⟨rfl, -⟩ := List.cons.inj h
        cases isDigit_of_mem_digits (hd ▸ List.mem_cons_self)
      · rfl

/-- **Digits are read as their number**, with a minus sign if there is one in front of digits that
are not zero. -/
theorem parseNumber_digits (negative : Bool) {n : Nat} (hzero : negative = true → n ≠ 0)
    {rest : List Char} (h : Ends rest) :
    parseNumber ((if negative then ['-'] else []) ++ Decimal.digits n ++ rest)
      = some (.int (if negative then -(n : Int) else n), rest) := by
  have hall : ∀ c ∈ Decimal.digits n, isDigit c = true := fun _ => isDigit_of_mem_digits
  have htake : (Decimal.digits n ++ rest).takeWhile isDigit = Decimal.digits n := by
    rw [List.takeWhile_append_of_pos hall, h.takeWhile, List.append_nil]
  have hdrop : (Decimal.digits n ++ rest).dropWhile isDigit = rest := by
    rw [List.dropWhile_append_of_pos hall, h.dropWhile]
  have hrow : ((Decimal.digits n).isEmpty
      || ((Decimal.digits n).head? = some '0' && (Decimal.digits n).length ≠ 1)) = false := by
    cases hd : Decimal.digits n with
    | nil => exact absurd hd (Decimal.digits_ne_nil n)
    | cons first others =>
      by_cases hfirst : first = '0'
      · subst hfirst
        simp [Decimal.eq_nil_of_digits hd]
      · simp [hfirst]
  unfold parseNumber
  simp only [parseSign_digits, htake, hdrop, hrow, h.parseFraction, digitsValue_digits]
  cases negative with
  | false => simp [h.parseExponent]
  | true => simp [h.parseExponent, hzero rfl]

/-- **A decimal integer is read as it was written.** -/
theorem parseNumber_intChars (n : Int) {rest : List Char} (h : Ends rest) :
    parseNumber (intChars n ++ rest) = some (.int n, rest) := by
  cases n with
  | ofNat n => exact parseNumber_digits false (fun h => absurd h Bool.false_ne_true) h
  | negSucc n => exact parseNumber_digits true (fun _ => Nat.succ_ne_zero n) h

/-- Whether a number can begin with a character. -/
def startsNumber (c : Char) : Bool := c = '-' || isDigit c

theorem ne_of_startsNumber {c d : Char} (h : startsNumber c = true) (hd : startsNumber d = false) :
    c ≠ d := by
  rintro rfl
  cases hd.symm.trans h

theorem exists_intChars (n : Int) :
    ∃ c cs, intChars n = c :: cs ∧ startsNumber c = true := by
  cases n with
  | ofNat n =>
    cases hd : Decimal.digits n with
    | nil => exact absurd hd (Decimal.digits_ne_nil n)
    | cons c cs =>
      have hc : isDigit c = true := isDigit_of_mem_digits (hd ▸ List.mem_cons_self)
      exact ⟨c, cs, hd, by rw [startsNumber, hc, Bool.or_true]⟩
  | negSucc n => exact ⟨_, _, rfl, rfl⟩

theorem isBlank_of_startsNumber {c : Char} (h : startsNumber c = true) : isBlank c = false := by
  have hne := fun {d} => ne_of_startsNumber (d := d) h
  simp only [isBlank, Bool.or_eq_false_iff, decide_eq_false_iff_not]
  exact ⟨⟨⟨hne rfl, hne rfl⟩, hne rfl⟩, hne rfl⟩

/-! ### Layouts -/

/-- **A layout** of a text: the blanks before an item on a level, and those after a colon. -/
structure Layout where
  gap : Nat → List Char
  space : List Char
  gap_blank : ∀ level, ∀ c ∈ gap level, isBlank c = true
  space_blank : ∀ c ∈ space, isBlank c = true

/-- Without any blank. -/
def Layout.tight : Layout := ⟨fun _ => [], [], by simp, by simp⟩

/-- With a line for each item. -/
def Layout.lines : Layout where
  gap := newline
  space := [' ']
  gap_blank level c hc := by
    rcases List.mem_cons.1 hc with rfl | hc
    · rfl
    · rw [(List.mem_replicate.1 hc).2]
      rfl
  space_blank c hc := by
    rw [List.mem_singleton.1 hc]
    rfl

namespace Layout

variable (l : Layout)

mutual

/-- The text of a value on a level. -/
def text (level : Nat) : Json → List Char
  | .array (x :: xs) => '[' :: (l.gap (level + 1) ++ text (level + 1) x ++ items level xs)
  | .object ((k, v) :: fs) =>
    '\x7b' :: (l.gap (level + 1) ++ (quote k ++ ':' :: (l.space ++ text (level + 1) v))
      ++ fields level fs)
  | v => compactChars v

/-- The items after the first one, and the closing bracket. -/
def items (level : Nat) : List Json → List Char
  | [] => l.gap level ++ [']']
  | x :: xs => ',' :: (l.gap (level + 1) ++ text (level + 1) x ++ items level xs)

/-- The fields after the first one, and the closing brace. -/
def fields (level : Nat) : List (String × Json) → List Char
  | [] => l.gap level ++ ['\x7d']
  | (k, v) :: fs =>
    ',' :: (l.gap (level + 1) ++ (quote k ++ ':' :: (l.space ++ text (level + 1) v))
      ++ fields level fs)

end

end Layout

mutual

theorem text_tight (level : Nat) (v : Json) : Layout.tight.text level v = compactChars v := by
  match v with
  | .array (x :: xs) =>
    rw [Layout.text, compactChars, text_tight (level + 1) x, items_tight level xs]
    rfl
  | .object ((k, v) :: fs) =>
    rw [Layout.text, compactChars, text_tight (level + 1) v, fields_tight level fs]
    simp [Layout.tight]
  | .array [] | .object [] | .null | .bool _ | .int _ | .decimal _ | .string _ | .unreadable => rfl

theorem items_tight (level : Nat) (xs : List Json) :
    Layout.tight.items level xs = compactItems xs := by
  match xs with
  | [] => rfl
  | x :: xs =>
    rw [Layout.items, compactItems, text_tight (level + 1) x, items_tight level xs]
    rfl

theorem fields_tight (level : Nat) (fs : List (String × Json)) :
    Layout.tight.fields level fs = compactFields fs := by
  match fs with
  | [] => rfl
  | (k, v) :: fs =>
    rw [Layout.fields, compactFields, text_tight (level + 1) v, fields_tight level fs]
    simp [Layout.tight]

end

mutual

theorem text_lines (level : Nat) (v : Json) : Layout.lines.text level v = prettyChars level v := by
  match v with
  | .array (x :: xs) =>
    rw [Layout.text, prettyChars, text_lines (level + 1) x, items_lines level xs]
    rfl
  | .object ((k, v) :: fs) =>
    rw [Layout.text, prettyChars, text_lines (level + 1) v, fields_lines level fs]
    simp [Layout.lines]
  | .array [] | .object [] | .null | .bool _ | .int _ | .decimal _ | .string _ | .unreadable => rfl

theorem items_lines (level : Nat) (xs : List Json) :
    Layout.lines.items level xs = prettyItems level xs := by
  match xs with
  | [] => rfl
  | x :: xs =>
    rw [Layout.items, prettyItems, text_lines (level + 1) x, items_lines level xs]
    rfl

theorem fields_lines (level : Nat) (fs : List (String × Json)) :
    Layout.lines.fields level fs = prettyFields level fs := by
  match fs with
  | [] => rfl
  | (k, v) :: fs =>
    rw [Layout.fields, prettyFields, text_lines (level + 1) v, fields_lines level fs]
    simp [Layout.lines]

end

/-! ### Reading -/

/-- **A value without numbers other than integers**, and without what denotes nothing. -/
inductive Plain : Json → Prop where
  | null : Plain .null
  | bool (b : Bool) : Plain (.bool b)
  | int (n : Int) : Plain (.int n)
  | string (s : String) : Plain (.string s)
  | array {items : List Json} (h : ∀ x ∈ items, Plain x) : Plain (.array items)
  | object {fields : List (String × Json)} (h : ∀ f ∈ fields, Plain f.2) : Plain (.object fields)

theorem skipBlanks_append {bs : List Char} (h : ∀ c ∈ bs, isBlank c = true) (cs : List Char) :
    skipBlanks (bs ++ cs) = skipBlanks cs := List.dropWhile_append_of_pos h

theorem skipBlanks_cons {c : Char} (h : isBlank c = false) (cs : List Char) :
    skipBlanks (c :: cs) = c :: cs :=
  List.dropWhile_cons_of_neg (by rw [h]; exact Bool.false_ne_true)

/-- Blanks in front of a value are passed over. -/
theorem parseValue_append {bs : List Char} (h : ∀ c ∈ bs, isBlank c = true) (tables : Bool)
    (fuel : Nat) (cs : List Char) :
    parseValue tables fuel (bs ++ cs) = parseValue tables fuel cs := by
  cases fuel with
  | zero => rfl
  | succ fuel => rw [parseValue, parseValue, skipBlanks_append h]

theorem quote_append (s : String) (rest : List Char) :
    quote s ++ rest = '"' :: (s.toList.flatMap escape ++ '"' :: rest) := by simp [quote]

/-- **A string literal is read as the text that was written.** -/
theorem parseLiteral_quote (s : String) (rest : List Char) :
    parseLiteral ⟨[], false⟩ (s.toList.flatMap escape ++ '"' :: rest)
      = some (⟨(s.toList.map Char.toNat).reverse, s.toList.any isEscaped⟩, rest) := by
  rw [parseLiteral_escaped, List.append_nil, Bool.false_or]

section Reading

variable (l : Layout) (tables : Bool)

/-- **A value that is read as it was written**, whatever follows it. -/
def Reads (v : Json) : Prop :=
  ∀ level fuel rest, Ends rest → (l.text level v).length ≤ fuel →
    parseValue tables fuel (l.text level v ++ rest) = some (v, rest)

theorem parseField_text {k : String} {v : Json} (h : Reads l tables v) (level fuel : Nat)
    {rest : List Char} (hrest : Ends rest)
    (hfuel : (quote k ++ ':' :: (l.space ++ l.text level v)).length ≤ fuel) :
    parseField tables fuel (quote k ++ ':' :: (l.space ++ l.text level v) ++ rest)
      = some ((some k, v), rest) := by
  cases fuel with
  | zero => simp at hfuel
  | succ fuel =>
    have hv : (l.text level v).length ≤ fuel := by
      simp only [List.length_append, List.length_cons] at hfuel
      omega
    rw [List.append_assoc, quote_append, parseField, skipBlanks_cons rfl]
    simp only
    rw [parseLiteral_quote]
    simp only
    rw [List.cons_append, skipBlanks_cons rfl]
    simp only
    rw [List.append_assoc, parseValue_append l.space_blank, h level fuel rest hrest hv,
      text?_reverse, Option.map_some, fieldValue_key]

theorem parseField_append {bs : List Char} (h : ∀ c ∈ bs, isBlank c = true) (fuel : Nat)
    (cs : List Char) : parseField tables fuel (bs ++ cs) = parseField tables fuel cs := by
  cases fuel with
  | zero => rfl
  | succ fuel => rw [parseField, parseField, skipBlanks_append h]

theorem Ends.of_blanks {bs : List Char} (h : ∀ c ∈ bs, isBlank c = true) {mark : Char}
    (hmark : mark = ',' ∨ mark = ']' ∨ mark = '\x7d') (cs : List Char) :
    Ends (bs ++ mark :: cs) := by
  intro c hc
  cases bs with
  | nil =>
    cases hc
    rcases hmark with rfl | rfl | rfl <;> decide
  | cons b bs =>
    cases hc
    have hb : ((c = ' ' ∨ c = '\n') ∨ c = '\r') ∨ c = '\t' := by
      simpa [isBlank] using h c List.mem_cons_self
    rcases hb with ((rfl | rfl) | rfl) | rfl <;> decide

theorem ends_items (level : Nat) (xs : List Json) (rest : List Char) :
    Ends (l.items level xs ++ rest) := by
  cases xs with
  | nil =>
    rw [Layout.items, List.append_assoc]
    exact .of_blanks (l.gap_blank level) (by simp) rest
  | cons x xs => exact .of_blanks (fun _ h => absurd h List.not_mem_nil) (.inl rfl) _

theorem ends_fields (level : Nat) (fs : List (String × Json)) (rest : List Char) :
    Ends (l.fields level fs ++ rest) := by
  cases fs with
  | nil =>
    rw [Layout.fields, List.append_assoc]
    exact .of_blanks (l.gap_blank level) (by simp) rest
  | cons f fs => exact .of_blanks (fun _ h => absurd h List.not_mem_nil) (.inl rfl) _

/-- **Items are read as they were written**, up to the closing bracket. -/
theorem parseItems_text {xs : List Json} (h : ∀ x ∈ xs, Reads l tables x)
    (level fuel : Nat) (rest : List Char) (hfuel : (l.items level xs).length ≤ fuel) :
    parseItems tables fuel (l.items level xs ++ rest) = some (xs, rest) := by
  induction xs generalizing fuel with
  | nil =>
    cases fuel with
    | zero => simp [Layout.items] at hfuel
    | succ fuel =>
      rw [Layout.items, List.append_assoc, parseItems, skipBlanks_append (l.gap_blank level)]
      rfl
  | cons x xs ih =>
    cases fuel with
    | zero => simp [Layout.items] at hfuel
    | succ fuel =>
      rw [Layout.items] at hfuel ⊢
      simp only [List.length_cons, List.length_append] at hfuel
      have hx := h x List.mem_cons_self (level + 1) fuel (l.items level xs ++ rest)
        (ends_items l level xs rest) (by omega)
      have hxs : parseItems tables fuel (l.items level xs ++ rest) = some (xs, rest) :=
        ih (fun y hy => h y (List.mem_cons_of_mem _ hy)) fuel (by omega)
      rw [List.cons_append, parseItems, skipBlanks_cons rfl]
      simp only
      rw [List.append_assoc, List.append_assoc, parseValue_append (l.gap_blank _), hx]
      simp only
      rw [hxs]
      rfl

/-- **Fields are read as they were written**, up to the closing brace. -/
theorem parseFields_text {fs : List (String × Json)} (h : ∀ f ∈ fs, Reads l tables f.2)
    (level fuel : Nat) (rest : List Char) (hfuel : (l.fields level fs).length ≤ fuel) :
    parseFields tables fuel (l.fields level fs ++ rest)
      = some (fs.map fun f => (some f.1, f.2), rest) := by
  induction fs generalizing fuel with
  | nil =>
    cases fuel with
    | zero => simp [Layout.fields] at hfuel
    | succ fuel =>
      rw [Layout.fields, List.append_assoc, parseFields, skipBlanks_append (l.gap_blank level)]
      rfl
  | cons f fs ih =>
    cases fuel with
    | zero => simp [Layout.fields] at hfuel
    | succ fuel =>
      rw [Layout.fields] at hfuel ⊢
      simp only [List.length_cons, List.length_append] at hfuel
      have hf := parseField_text l tables (k := f.1) (h f List.mem_cons_self) (level + 1) fuel
        (ends_fields l level fs rest) (by simp only [List.length_append, List.length_cons]; omega)
      have hfs : parseFields tables fuel (l.fields level fs ++ rest)
          = some (fs.map fun f => (some f.1, f.2), rest) :=
        ih (fun g hg => h g (List.mem_cons_of_mem _ hg)) fuel (by omega)
      rw [List.cons_append, parseFields, skipBlanks_cons rfl]
      simp only
      rw [List.append_assoc, List.append_assoc, parseField_append tables (l.gap_blank _), hf]
      simp only
      rw [hfs]
      rfl

/-- Where each of a list is read, all of them are. -/
theorem mapM_map_of_read {α β γ : Type} {read : β → Option γ} {write : α → β} {value : α → γ}
    {items : List α} (h : ∀ a ∈ items, read (write a) = some (value a)) :
    (items.map write).mapM read = some (items.map value) := by
  induction items with
  | nil => rfl
  | cons a rest ih =>
    rw [List.map_cons, List.mapM_cons, h a List.mem_cons_self,
      ih fun b hb => h b (List.mem_cons_of_mem _ hb)]
    rfl

/-- **What is read as it was written**, one by one, is so as a whole. -/
theorem mapM_map_self {α β : Type} {read : β → Option α} {write : α → β} {items : List α}
    (h : ∀ a ∈ items, read (write a) = some a) : (items.map write).mapM read = some items := by
  have hall : (items.map write).mapM read = some (items.map id) := mapM_map_of_read h
  rwa [List.map_id] at hall

theorem ofFields_some (fs : List (String × Json)) :
    ofFields (fs.map fun f => (some f.1, f.2)) = .object fs := by
  unfold ofFields
  rw [mapM_map_self]
  exact fun _ _ => rfl

/-- A text begins with a character that is no blank and closes nothing. -/
theorem exists_text {v : Json} (h : Plain v) (level : Nat) :
    ∃ c cs, l.text level v = c :: cs ∧ isBlank c = false ∧ c ≠ ']' := by
  cases h with
  | null => exact ⟨_, _, rfl, rfl, by decide⟩
  | bool b => cases b <;> exact ⟨_, _, rfl, rfl, by decide⟩
  | int n =>
    obtain ⟨c, cs, hc, hstart⟩ := exists_intChars n
    exact ⟨c, cs, hc, isBlank_of_startsNumber hstart, ne_of_startsNumber hstart rfl⟩
  | string s => exact ⟨_, _, rfl, rfl, by decide⟩
  | @array xs _ => cases xs <;> exact ⟨_, _, rfl, rfl, by decide⟩
  | @object fs _ => cases fs <;> exact ⟨_, _, rfl, rfl, by decide⟩

/-- What begins as a number is one. -/
theorem parseValue_number (fuel : Nat) {c : Char} (h : startsNumber c = true) (cs : List Char) :
    parseValue tables (fuel + 1) (c :: cs) = parseNumber (c :: cs) := by
  rw [parseValue, skipBlanks_cons (isBlank_of_startsNumber h)]
  split
  · exact absurd (List.cons.inj ‹_›).1 (ne_of_startsNumber h rfl)
  · exact absurd (List.cons.inj ‹_›).1 (ne_of_startsNumber h rfl)
  · exact absurd (List.cons.inj ‹_›).1 (ne_of_startsNumber h rfl)
  · exact absurd (List.cons.inj ‹_›).1 (ne_of_startsNumber h rfl)
  · exact absurd (List.cons.inj ‹_›).1 (ne_of_startsNumber h rfl)
  · exact absurd (List.cons.inj ‹_›).1 (ne_of_startsNumber h rfl)
  · rfl

theorem reads_int (n : Int) : Reads l tables (.int n) := by
  intro level fuel rest hrest hfuel
  obtain ⟨c, cs, hc, hstart⟩ := exists_intChars n
  have htext : l.text level (.int n) = c :: cs := hc
  cases fuel with
  | zero => simp [htext] at hfuel
  | succ fuel =>
    rw [htext, List.cons_append, parseValue_number tables fuel hstart, ← List.cons_append, ← hc]
    exact parseNumber_intChars n hrest

theorem reads_string (s : String) : Reads l tables (.string s) := by
  intro level fuel rest _ hfuel
  cases fuel with
  | zero => simp [Layout.text, compactChars, quote] at hfuel
  | succ fuel =>
    show parseValue tables (fuel + 1) (quote s ++ rest) = _
    rw [quote_append, parseValue, skipBlanks_cons rfl]
    simp only
    rw [parseLiteral_quote, Option.map_some, Literal.toJson, text?_reverse]
    rfl

/-- An array is read as it was written if its items are. -/
theorem reads_array {xs : List Json} (hplain : ∀ x ∈ xs, Plain x)
    (h : ∀ x ∈ xs, Reads l tables x) : Reads l tables (.array xs) := by
  intro level fuel rest _ hfuel
  cases xs with
  | nil =>
    cases fuel with
    | zero => simp [Layout.text, compactChars] at hfuel
    | succ fuel => rfl
  | cons x xs =>
    cases fuel with
    | zero => simp [Layout.text] at hfuel
    | succ fuel =>
      rw [Layout.text] at hfuel ⊢
      simp only [List.length_cons, List.length_append] at hfuel
      obtain ⟨c, cs, hc, hblank, hclose⟩ := exists_text l (hplain x List.mem_cons_self) (level + 1)
      have hx := h x List.mem_cons_self (level + 1) fuel (l.items level xs ++ rest)
        (ends_items l level xs rest) (by omega)
      have hxs := parseItems_text l tables (fun y hy => h y (List.mem_cons_of_mem _ hy)) level
        fuel rest (by omega)
      rw [List.cons_append, parseValue, skipBlanks_cons rfl]
      simp only
      rw [List.append_assoc, List.append_assoc, skipBlanks_append (l.gap_blank _)]
      -- the first item does not close the array
      rw [hc] at hx ⊢
      rw [List.cons_append, skipBlanks_cons hblank]
      split
      · exact absurd (List.cons.inj ‹_›).1 hclose
      · rw [← List.cons_append, hx]
        simp only
        rw [hxs]
        rfl

/-- An object is read as it was written if the values of its fields are. -/
theorem reads_object {fs : List (String × Json)} (h : ∀ f ∈ fs, Reads l tables f.2) :
    Reads l tables (.object fs) := by
  intro level fuel rest _ hfuel
  cases fs with
  | nil =>
    cases fuel with
    | zero => simp [Layout.text, compactChars] at hfuel
    | succ fuel => rfl
  | cons f fs =>
    cases fuel with
    | zero => simp [Layout.text] at hfuel
    | succ fuel =>
      rw [Layout.text] at hfuel ⊢
      simp only [List.length_cons, List.length_append] at hfuel
      have hf := parseField_text l tables (k := f.1) (h f List.mem_cons_self) (level + 1) fuel
        (ends_fields l level fs rest)
        (by simp only [List.length_append, List.length_cons]; omega)
      have hfs := parseFields_text l tables (fun g hg => h g (List.mem_cons_of_mem _ hg)) level
        fuel rest (by omega)
      rw [List.cons_append, parseValue, skipBlanks_cons rfl]
      simp only
      rw [List.append_assoc, List.append_assoc, skipBlanks_append (l.gap_blank _)]
      rw [List.append_assoc, quote_append] at hf ⊢
      rw [skipBlanks_cons rfl]
      split
      · exact absurd (List.cons.inj ‹_›).1 (by decide)
      · rw [hf]
        simp only
        rw [hfs, Option.map_some]
        exact congrArg some (congrArg (·, rest) (ofFields_some (f :: fs)))

/-- **A plain value is read as it was written**, in any layout. -/
theorem Plain.reads {v : Json} (h : Plain v) : Reads l tables v := by
  induction h with
  | null =>
    intro level fuel rest _ hfuel
    cases fuel with
    | zero => simp [Layout.text, compactChars] at hfuel
    | succ fuel => rfl
  | bool b =>
    intro level fuel rest _ hfuel
    cases fuel with
    | zero => cases b <;> simp [Layout.text, compactChars] at hfuel
    | succ fuel => cases b <;> rfl
  | int n => exact reads_int l tables n
  | string s => exact reads_string l tables s
  | array h ih => exact reads_array l tables h ih
  | object _ ih => exact reads_object l tables ih

end Reading

/-! ### Texts -/

/-- The text of a plain value, in any layout, is the text of that value alone. -/
theorem Plain.parseText? {v : Json} (h : Plain v) (l : Layout) (tables : Bool) :
    Json.parseText? tables (String.ofList (l.text 0 v)) = some v := by
  have hv := h.reads l tables 0 (2 * (l.text 0 v).length + 2) [] (fun _ hc => by cases hc)
    (by omega)
  rw [List.append_nil] at hv
  simp only [Json.parseText?, String.toList_ofList, hv]
  rfl

/-- **The compact text of a value** is read as that value. -/
theorem Plain.parseText?_compact {v : Json} (h : Plain v) (tables : Bool) :
    Json.parseText? tables v.compact = some v := by
  unfold compact
  rw [← text_tight 0]
  exact h.parseText? .tight tables

/-- **The indented text of a value** is read as that value. -/
theorem Plain.parse?_pretty {v : Json} (h : Plain v) : parse? v.pretty = some v := by
  unfold pretty
  rw [← text_lines 0]
  exact h.parseText? .lines false

end StakeGovernance.Json
