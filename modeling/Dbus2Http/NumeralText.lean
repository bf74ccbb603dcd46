import Dbus2Http.CxxRuntime

set_option autoImplicit false

/-! Which texts are numerals, and which integers are read from texts that are not. -/

namespace Cxx

/-- The decimal numerals: digits behind at most a minus sign. -/
inductive Numeral : Str → Int → Prop
  | plain {digits : Str} (some : digits ≠ []) (all : ∀ c ∈ digits, c.isDigit = true) :
      Numeral digits (Nat.ofDigitChars 10 digits 0)
  | minus {digits : Str} (some : digits ≠ []) (all : ∀ c ∈ digits, c.isDigit = true) :
      Numeral ('-' :: digits) (-(Nat.ofDigitChars 10 digits 0))

/-- The integer the longest run of digits at the front stands for. -/
def leadingDigits? (negative : Bool) (text : Str) : Option Int :=
  let digits := text.takeWhile Char.isDigit
  if digits = [] then none
  else some (if negative then -(Nat.ofDigitChars 10 digits 0) else Nat.ofDigitChars 10 digits 0)

/-- The integer at the front of a text, behind white space and a sign. -/
def leadingInteger? (text : Str) : Option Int :=
  match text.dropWhile isSpace with
  | '-' :: rest => leadingDigits? true rest
  | '+' :: rest => leadingDigits? false rest
  | rest => leadingDigits? false rest

/-- An integer that was read, where it is a `long long`. -/
def inLongLong : Option Int → Run Int
  | none => throwExn .invalidArgument "stoll".toList
  | some n => if int64Min ≤ n ∧ n ≤ int64Max then .ok n else throwExn .outOfRange "stoll".toList

theorem stollDigits_eq (negative : Bool) (text : Str) :
    stollDigits negative text = inLongLong (leadingDigits? negative text) := by
  unfold stollDigits leadingDigits?
  by_cases none : text.takeWhile Char.isDigit = []
  · simp only [none, ↓reduceIte, inLongLong]
  · simp only [none, ↓reduceIte, inLongLong]

/-- `std::stoll` reads the leading integer, where there is one in its range. -/
theorem stoll_eq (text : Str) : stoll text = inLongLong (leadingInteger? text) := by
  unfold stoll leadingInteger?
  generalize text.dropWhile isSpace = rest
  cases rest with
  | nil => exact stollDigits_eq false []
  | cons c rest =>
      by_cases minus : c = '-'
      · rw [minus]
        exact stollDigits_eq true rest
      · by_cases plus : c = '+'
        · rw [plus]
          exact stollDigits_eq false rest
        · simp only [stollDigits_eq]
          simp [minus, plus]

theorem stoll_ok {text : Str} {n : Int} (leading : leadingInteger? text = some n)
    (inside : int64Min ≤ n ∧ n ≤ int64Max) : stoll text = .ok n := by
  rw [stoll_eq, leading]
  exact if_pos inside

theorem stoll_outside {text : Str} {n : Int} (leading : leadingInteger? text = some n)
    (outside : ¬ (int64Min ≤ n ∧ n ≤ int64Max)) : Throws (stoll text) := by
  rw [stoll_eq, leading]
  exact ⟨_, if_neg outside⟩

theorem stoll_none {text : Str} (leading : leadingInteger? text = none) : Throws (stoll text) := by
  rw [stoll_eq, leading]
  exact ⟨_, rfl⟩

theorem isSpace_false_of_isDigit {c : Char} (digit : c.isDigit = true) : isSpace c = false := by
  simp only [isSpace, Bool.or_eq_false_iff, beq_eq_false_iff_ne, ne_eq]
  refine ⟨⟨⟨⟨⟨?_, ?_⟩, ?_⟩, ?_⟩, ?_⟩, ?_⟩ <;> rintro rfl <;> revert digit <;> decide

theorem leadingDigits?_of_all {digits : Str} (some : digits ≠ [])
    (all : ∀ c ∈ digits, c.isDigit = true) (negative : Bool) :
    leadingDigits? negative digits =
      Option.some (if negative then -(Nat.ofDigitChars 10 digits 0 : Int)
        else Nat.ofDigitChars 10 digits 0) := by
  have whole : digits.takeWhile Char.isDigit = digits := List.takeWhile_eq_self_iff.mpr all
  simp only [leadingDigits?, whole, some, ↓reduceIte]

/-- The leading integer of a numeral is the one it is the numeral of. -/
theorem Numeral.leading {text : Str} {n : Int} (numeral : Numeral text n) :
    leadingInteger? text = some n := by
  cases numeral with
  | @plain digits some all =>
      obtain ⟨c, rest, rfl⟩ := List.exists_cons_of_ne_nil some
      have digit := all c List.mem_cons_self
      have notMinus : c ≠ '-' := by rintro rfl; revert digit; decide
      have notPlus : c ≠ '+' := by rintro rfl; revert digit; decide
      have whole := leadingDigits?_of_all some all false
      simp only [leadingInteger?, List.dropWhile_cons, isSpace_false_of_isDigit digit,
        Bool.false_eq_true, ↓reduceIte]
      split
      · rename_i heq
        exact absurd (List.cons.inj heq).1 notMinus
      · rename_i heq
        exact absurd (List.cons.inj heq).1 notPlus
      · exact whole
  | minus some all => exact leadingDigits?_of_all some all true

theorem Numeral.unique {text : Str} {n m : Int} (one : Numeral text n) (two : Numeral text m) :
    n = m :=
  Option.some.inj (one.leading.symm.trans two.leading)

/-- What `std::to_string` writes is a numeral. -/
theorem numeral_toDecimal (n : Int) : Numeral (toDecimal n) n := by
  have digits : ∀ k, ∀ c ∈ Nat.toDigits 10 k, c.isDigit = true := fun k c inside =>
    Nat.isDigit_of_mem_toDigits (by decide) (by decide) inside
  cases n with
  | ofNat k =>
      have numeral := Numeral.plain Nat.toDigits_ne_nil (digits k)
      rw [Nat.ofDigitChars_ten_toDigits] at numeral
      exact numeral
  | negSucc k =>
      have numeral := Numeral.minus Nat.toDigits_ne_nil (digits (k + 1))
      rw [Nat.ofDigitChars_ten_toDigits] at numeral
      exact numeral

/-- `std::stoll` reads back what `std::to_string` wrote. -/
theorem stoll_toDecimal {n : Int} (inside : int64Min ≤ n ∧ n ≤ int64Max) :
    stoll (toDecimal n) = .ok n :=
  stoll_ok (numeral_toDecimal n).leading inside

end Cxx
