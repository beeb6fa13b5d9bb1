import Mathlib.Algebra.Group.Nat.Defs
import Mathlib.Data.List.TakeWhile

/-!
# Numbers in strings, as `strtoul` reads them

`strtoul` skips white space, takes a sign, for base 16 a mark `0x`, and then as many
digits as there are.  A number that does not fit 64 bits is reported; a negative one is
negated in 64 bits.  `Spelling` is the language this accepts, and the two main facts are
that everything converted is a spelling of its value (`spelling_of_strtoul`) and that a
spelling is converted to its value wherever it ends (`strtoul_spelling`).

Strings are the characters before the terminating NUL; the pointer stored through `endptr`
is the rest of the string.
-/

namespace NewPerf.Lib.Strtoul

/-- `isspace` in the C locale. -/
def isSpace (c : Char) : Bool :=
  c = ' ' || c = '\t' || c = '\n' || c = '\x0b' || c = '\x0c' || c = '\r'

/-- The value of a digit or letter; every other character has the value 36. -/
def digitValue (c : Char) : Nat :=
  if '0' ≤ c ∧ c ≤ '9' then c.toNat - 48
  else if 'a' ≤ c ∧ c ≤ 'z' then c.toNat - 87
  else if 'A' ≤ c ∧ c ≤ 'Z' then c.toNat - 55
  else 36

def isDigit (base : Nat) (c : Char) : Bool := digitValue c < base

/-- The value of a string of digits. -/
def numeral (base : Nat) (digits : List Char) : Nat :=
  digits.foldl (fun value c => value * base + digitValue c) 0

/-- Whether there is a minus sign, and what follows the sign. -/
def skipSign : List Char → Bool × List Char
  | '-' :: rest => (true, rest)
  | '+' :: rest => (false, rest)
  | rest => (false, rest)

/-- In base 16, what follows a mark `0x` or `0X` if that is a digit. -/
def skipMark (base : Nat) : List Char → List Char
  | '0' :: x :: d :: rest =>
      if base = 16 ∧ (x = 'x' ∨ x = 'X') ∧ isDigit 16 d then d :: rest else '0' :: x :: d :: rest
  | rest => rest

/-- What `strtoul` returns, whether it reports `ERANGE`, and where it stopped. -/
structure Conversion where
  value : Nat
  outOfRange : Bool
  rest : List Char
  deriving DecidableEq, Repr

/-- The negative of a 64-bit number. -/
def negate (value : Nat) : Nat := (2 ^ 64 - value) % 2 ^ 64

/-- `strtoul`; without digits it converts nothing and stops where it began. -/
def strtoul (base : Nat) (s : List Char) : Conversion :=
  let signed := skipSign (s.dropWhile isSpace)
  let body := skipMark base signed.2
  let digits := body.takeWhile (isDigit base)
  if digits = [] then ⟨0, false, s⟩
  else
    let rest := body.dropWhile (isDigit base)
    let value := numeral base digits
    if value < 2 ^ 64 then ⟨if signed.1 then negate value else value, false, rest⟩
    else ⟨2 ^ 64 - 1, true, rest⟩

/-! ## The language -/

/-- Digits of the base, at least one. -/
structure Digits (base : Nat) (digits : List Char) : Prop where
  ne_nil : digits ≠ []
  isDigit : ∀ c ∈ digits, isDigit base c

/-- The sign of a number, and whether it is a minus. -/
inductive Sign : List Char → Bool → Prop where
  | none : Sign [] false
  | plus : Sign ['+'] false
  | minus : Sign ['-'] true

/-- The mark in front of the digits. -/
inductive Mark (base : Nat) : List Char → Prop where
  | none : Mark base []
  | small (hBase : base = 16) : Mark base ['0', 'x']
  | capital (hBase : base = 16) : Mark base ['0', 'X']

/-- The string is one `strtoul` converts to `value` as a whole. -/
inductive Spelling (base : Nat) : List Char → Nat → Prop where
  | intro {space sign mark digits : List Char} {negative : Bool}
      (hSpace : ∀ c ∈ space, isSpace c) (hSign : Sign sign negative) (hMark : Mark base mark)
      (hDigits : Digits base digits) (hRange : numeral base digits < 2 ^ 64) :
      Spelling base (space ++ (sign ++ (mark ++ digits)))
        (if negative then negate (numeral base digits) else numeral base digits)

theorem Spelling.ne_nil {base : Nat} {x : List Char} {value : Nat} (h : Spelling base x value) :
    x ≠ [] := by
  obtain ⟨-, -, -, hDigits, -⟩ := h
  intro hNil
  simp only [List.append_eq_nil_iff] at hNil
  exact hDigits.ne_nil hNil.2.2.2

/-- Digits alone are a spelling of the number they stand for. -/
theorem Digits.spelling {base : Nat} {digits : List Char} (h : Digits base digits)
    (hRange : numeral base digits < 2 ^ 64) : Spelling base digits (numeral base digits) :=
  show Spelling base ([] ++ ([] ++ ([] ++ digits)))
    (if false then negate (numeral base digits) else numeral base digits) from
  .intro (by simp) .none .none h hRange

/-! ## Everything converted is a spelling -/

theorem skipSign_spec (s : List Char) :
    ∃ sign, s = sign ++ (skipSign s).2 ∧ Sign sign (skipSign s).1 := by
  unfold skipSign
  split
  · exact ⟨['-'], rfl, .minus⟩
  · exact ⟨['+'], rfl, .plus⟩
  · exact ⟨[], rfl, .none⟩

theorem skipMark_spec (base : Nat) (s : List Char) :
    ∃ mark, s = mark ++ skipMark base s ∧ Mark base mark := by
  unfold skipMark
  split
  · split
    · rename_i hMark
      rcases hMark.2.1 with rfl | rfl
      · exact ⟨['0', 'x'], rfl, .small hMark.1⟩
      · exact ⟨['0', 'X'], rfl, .capital hMark.1⟩
    · exact ⟨[], rfl, .none⟩
  · exact ⟨[], rfl, .none⟩

/-- The parts of the string in the order in which `strtoul` finds them. -/
theorem strtoul_parts (base : Nat) (s : List Char) :
    ∃ space sign mark digits rest negative,
      s = space ++ (sign ++ (mark ++ (digits ++ rest))) ∧
      (∀ c ∈ space, isSpace c) ∧ Sign sign negative ∧ Mark base mark ∧
      (∀ c ∈ digits, isDigit base c) ∧
      strtoul base s =
        if digits = [] then ⟨0, false, s⟩
        else if numeral base digits < 2 ^ 64 then
          ⟨if negative then negate (numeral base digits) else numeral base digits, false, rest⟩
        else ⟨2 ^ 64 - 1, true, rest⟩ := by
  obtain ⟨sign, hSign, hIsSign⟩ := skipSign_spec (s.dropWhile isSpace)
  obtain ⟨mark, hMark, hIsMark⟩ := skipMark_spec base (skipSign (s.dropWhile isSpace)).2
  refine ⟨s.takeWhile isSpace, sign, mark, _, _, _, ?_, fun c hc => List.mem_takeWhile_imp hc,
    hIsSign, hIsMark, fun c hc => List.mem_takeWhile_imp hc, rfl⟩
  rw [List.takeWhile_append_dropWhile, ← hMark, ← hSign, List.takeWhile_append_dropWhile]

/-- What has been converted without complaint is a spelling of the result. -/
theorem spelling_of_strtoul {base : Nat} {s : List Char}
    (hFits : (strtoul base s).outOfRange = false)
    (hMoved : (strtoul base s).rest.length ≠ s.length) :
    ∃ x, s = x ++ (strtoul base s).rest ∧ Spelling base x (strtoul base s).value := by
  obtain ⟨space, sign, mark, digits, rest, negative, hs, hSpace, hSign, hMark, hDigits, hResult⟩ :=
    strtoul_parts base s
  rw [hResult] at hFits hMoved ⊢
  by_cases hNone : digits = []
  · rw [if_pos hNone] at hMoved
    exact absurd rfl hMoved
  rw [if_neg hNone] at hFits ⊢
  by_cases hRange : numeral base digits < 2 ^ 64
  · rw [if_pos hRange]
    refine ⟨space ++ (sign ++ (mark ++ digits)), ?_,
      .intro hSpace hSign hMark ⟨hNone, hDigits⟩ hRange⟩
    rw [hs]
    simp only [List.append_assoc]
  · rw [if_neg hRange] at hFits
    cases hFits

/-! ## Every spelling is converted -/

/-- What may follow a spelling without being taken for a part of it. -/
def Ends (base : Nat) (rest : List Char) : Prop :=
  ∀ c, rest.head? = some c → isDigit base c = false ∧ c ≠ 'x' ∧ c ≠ 'X'

theorem dropWhile_append_of_neg {p : Char → Bool} {a b : List Char} (ha : ∀ c ∈ a, p c)
    (hb : ∀ c, b.head? = some c → p c = false) : (a ++ b).dropWhile p = b := by
  rw [List.dropWhile_append_of_pos ha]
  cases b with
  | nil => rfl
  | cons c b => rw [List.dropWhile_cons_of_neg (by simp [hb c rfl])]

theorem takeWhile_append_of_neg {p : Char → Bool} {a b : List Char} (ha : ∀ c ∈ a, p c)
    (hb : ∀ c, b.head? = some c → p c = false) : (a ++ b).takeWhile p = a := by
  rw [List.takeWhile_append_of_pos ha]
  cases b with
  | nil => rw [List.takeWhile_nil, List.append_nil]
  | cons c b => rw [List.takeWhile_cons_of_neg (by simp [hb c rfl]), List.append_nil]

/-- A digit is neither white space nor a sign. -/
theorem isDigit_ne {base : Nat} (hBase : base ≤ 36) {c : Char} (h : isDigit base c) :
    isSpace c = false ∧ c ≠ '-' ∧ c ≠ '+' := by
  have hValue : digitValue c < 36 := Nat.lt_of_lt_of_le (of_decide_eq_true h) hBase
  refine ⟨?_, ?_, ?_⟩
  · by_contra hSpace
    simp only [isSpace, Bool.not_eq_false, Bool.or_eq_true, decide_eq_true_eq] at hSpace
    rcases hSpace with ((((rfl | rfl) | rfl) | rfl) | rfl) | rfl <;> revert hValue <;> decide
  · rintro rfl
    revert hValue
    decide
  · rintro rfl
    revert hValue
    decide

theorem skipSign_append {sign t : List Char} {negative : Bool} (hSign : Sign sign negative)
    (hHead : ∀ c, t.head? = some c → c ≠ '-' ∧ c ≠ '+') :
    skipSign (sign ++ t) = (negative, t) := by
  cases hSign with
  | plus => rfl
  | minus => rfl
  | none =>
      rw [List.nil_append]
      unfold skipSign
      split
      · exact absurd rfl (hHead _ rfl).1
      · exact absurd rfl (hHead _ rfl).2
      · rfl

/-- Digits do not begin with something that looks like a mark. -/
theorem skipMark_digits {base : Nat} {digits rest : List Char} (hDigits : Digits base digits)
    (hEnds : Ends base rest) : skipMark base (digits ++ rest) = digits ++ rest := by
  unfold skipMark
  split
  · rename_i s x d tail hs
    split
    · rename_i hMark
      exfalso
      -- The second character would be the `x` of a mark, in the digits or behind them.
      obtain ⟨hBase, hx, -⟩ := hMark
      cases digits with
      | nil => exact hDigits.ne_nil rfl
      | cons c digits =>
          cases digits with
          | nil =>
              rw [List.cons_append, List.nil_append, List.cons.injEq] at hs
              have hFollows := (hEnds x (by rw [hs.2]; rfl)).2
              rcases hx with rfl | rfl
              · exact hFollows.1 rfl
              · exact hFollows.2 rfl
          | cons c' digits =>
              rw [List.cons_append, List.cons_append, List.cons.injEq, List.cons.injEq] at hs
              have hDigit := hDigits.isDigit c' (by simp)
              rw [hs.2.1, hBase] at hDigit
              rcases hx with rfl | rfl
              · revert hDigit
                decide
              · revert hDigit
                decide
    · exact hs.symm
  · rfl

theorem skipMark_append {base : Nat} {mark digits rest : List Char} (hMark : Mark base mark)
    (hDigits : Digits base digits) (hEnds : Ends base rest) :
    skipMark base (mark ++ (digits ++ rest)) = digits ++ rest := by
  obtain ⟨d, tail, rfl⟩ : ∃ d tail, digits = d :: tail :=
    List.exists_cons_of_ne_nil hDigits.ne_nil
  have hFirst : isDigit base d := hDigits.isDigit d (by simp)
  cases hMark with
  | none =>
      rw [List.nil_append]
      exact skipMark_digits hDigits hEnds
  | small hBase =>
      subst hBase
      exact if_pos ⟨rfl, .inl rfl, hFirst⟩
  | capital hBase =>
      subst hBase
      exact if_pos ⟨rfl, .inr rfl, hFirst⟩

/-- A spelling in digits alone has the value of the digits. -/
theorem Spelling.eq_numeral {base : Nat} (hBase : base ≤ 36) {x : List Char} {value : Nat}
    (h : Spelling base x value) (hDigits : Digits base x) : value = numeral base x := by
  obtain ⟨hSpace, hSign, hMark, -, -⟩ := h
  rename_i space sign mark digits negative
  have hAll := hDigits.isDigit
  obtain rfl : space = [] := by
    cases space with
    | nil => rfl
    | cons c space =>
        have hDigit := isDigit_ne hBase (hAll c (by simp))
        rw [hSpace c (by simp)] at hDigit
        cases hDigit.1
  obtain rfl : mark = [] := by
    cases hMark with
    | none => rfl
    | small hSixteen =>
        have hDigit := hAll 'x' (by simp)
        rw [hSixteen] at hDigit
        revert hDigit
        decide
    | capital hSixteen =>
        have hDigit := hAll 'X' (by simp)
        rw [hSixteen] at hDigit
        revert hDigit
        decide
  cases hSign with
  | none => rfl
  | plus => exact absurd rfl (isDigit_ne hBase (hAll '+' (by simp))).2.2
  | minus => exact absurd rfl (isDigit_ne hBase (hAll '-' (by simp))).2.1

/-- The first character of a marked number is a digit or the zero of the mark. -/
theorem head_marked {base : Nat} (hBase : base ≤ 36) {mark digits rest : List Char}
    (hMark : Mark base mark) (hDigits : Digits base digits) {c : Char}
    (hc : (mark ++ (digits ++ rest)).head? = some c) : isSpace c = false ∧ c ≠ '-' ∧ c ≠ '+' := by
  obtain ⟨d, tail, rfl⟩ : ∃ d tail, digits = d :: tail :=
    List.exists_cons_of_ne_nil hDigits.ne_nil
  cases hMark with
  | none =>
      obtain rfl : d = c := Option.some.inj hc
      exact isDigit_ne hBase (hDigits.isDigit d (by simp))
  | small _ =>
      obtain rfl : '0' = c := Option.some.inj hc
      decide
  | capital _ =>
      obtain rfl : '0' = c := Option.some.inj hc
      decide

/-- A spelling is converted to its value, and nothing else. -/
theorem strtoul_spelling {base : Nat} (hBase : base ≤ 36) {x rest : List Char} {value : Nat}
    (h : Spelling base x value) (hEnds : Ends base rest) :
    strtoul base (x ++ rest) = ⟨value, false, rest⟩ := by
  obtain ⟨hSpace, hSign, hMark, hDigits, hRange⟩ := h
  rename_i space sign mark digits negative
  have hHead : ∀ c, (mark ++ (digits ++ rest)).head? = some c →
      isSpace c = false ∧ c ≠ '-' ∧ c ≠ '+' := fun c hc => head_marked hBase hMark hDigits hc
  have hSigned : ∀ c, (sign ++ (mark ++ (digits ++ rest))).head? = some c → isSpace c = false := by
    intro c hc
    cases hSign with
    | none => exact (hHead c hc).1
    | plus =>
        obtain rfl : '+' = c := Option.some.inj hc
        rfl
    | minus =>
        obtain rfl : '-' = c := Option.some.inj hc
        rfl
  have hDrop : ((space ++ (sign ++ (mark ++ digits))) ++ rest).dropWhile isSpace =
      sign ++ (mark ++ (digits ++ rest)) := by
    simp only [List.append_assoc]
    exact dropWhile_append_of_neg hSpace hSigned
  have hRest : ∀ c, rest.head? = some c → isDigit base c = false := fun c hc => (hEnds c hc).1
  unfold strtoul
  simp only [hDrop, skipSign_append hSign fun c hc => (hHead c hc).2,
    skipMark_append hMark hDigits hEnds, takeWhile_append_of_neg hDigits.isDigit hRest,
    dropWhile_append_of_neg hDigits.isDigit hRest, if_neg hDigits.ne_nil, if_pos hRange]

end NewPerf.Lib.Strtoul
