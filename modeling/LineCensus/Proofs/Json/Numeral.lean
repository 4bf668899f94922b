import LineCensus.Json.Printer
import LineCensus.Proofs.Decimal.Natural
import LineCensus.Proofs.Decimal.Normal

/-!
# Reading numerals

A numeral of the JSON format has a whole part without superfluous zeros at its front, then
perhaps a point with digits, then perhaps an exponent. It is read to the normal form of the
decimal that it stands for, so that the position of the point and the zeros around it make no
difference.

Whatever is written of natural numbers and of doubles is such a numeral, and is read to the
normal form of what was written (`Numeral.read?_decimalText`, `Numeral.read?_decimalForm`).
-/
namespace LineCensus

namespace Numeral

/-- The digits at the front of a text, at least one, and what is after them. -/
def digits? (text : Text) : Option (Text × Text) :=
  let digits := text.takeWhile Char.isDigit
  if digits = [] then none else some (digits, text.dropWhile Char.isDigit)

/-- The whole part of a numeral and what is after it. There is no zero in front of another
digit. -/
def whole? (text : Text) : Option (Text × Text) :=
  (digits? text).filter fun parts => parts.1.head? ≠ some '0' ∨ parts.1.length = 1

/-- The digits after the point, when there is one, and what is after them. -/
def fraction? : Text → Option (Text × Text)
  | '.' :: rest => digits? rest
  | rest => some ([], rest)

/-- A natural number, when a text has nothing but its digits. -/
def natural? (text : Text) : Option Nat :=
  if text ≠ [] ∧ text.all Char.isDigit then some (Nat.ofDigitChars 10 text 0) else none

/-- An integer with or without a sign. -/
def integer? : Text → Option Int
  | '-' :: digits => (natural? digits).map fun number : Nat => -(number : Int)
  | '+' :: digits => (natural? digits).map fun number : Nat => (number : Int)
  | digits => (natural? digits).map fun number : Nat => (number : Int)

/-- The exponent at the end of a numeral, which is zero when there is none. -/
def exponent? : Text → Option Int
  | [] => some 0
  | mark :: rest => if mark = 'e' ∨ mark = 'E' then integer? rest else none

/-- The decimal that a numeral without a sign stands for. -/
def magnitude? (text : Text) : Option Decimal :=
  (whole? text).bind fun (whole, rest) =>
    (fraction? rest).bind fun (fraction, ending) =>
      (exponent? ending).map fun exponent =>
        ⟨Nat.ofDigitChars 10 (whole ++ fraction) 0, exponent - fraction.length⟩

/-- The number that a numeral stands for, with its sign and in normal form. -/
def read? : Text → Option (Bool × Decimal)
  | '-' :: rest => (magnitude? rest).map fun decimal => (true, decimal.normal)
  | text => (magnitude? text).map fun decimal => (false, decimal.normal)

end Numeral

/-- A numeral without a sign, as it is written: digits, a point with digits when there are any
after it, and perhaps an exponent with its sign. -/
structure Numeral where
  /-- The digits before the point. -/
  whole : Text
  /-- The digits after the point. -/
  fraction : Text
  /-- The exponent, when it is written. -/
  exponent : Option Int
  /-- There is a digit before the point. -/
  whole_ne_nil : whole ≠ []
  /-- There are only digits before the point. -/
  whole_digits : ∀ char ∈ whole, char.isDigit = true
  /-- A zero before the point stands alone or after another digit. -/
  whole_short : whole.head? ≠ some '0' ∨ whole.length = 1
  /-- There are only digits after the point. -/
  fraction_digits : ∀ char ∈ fraction, char.isDigit = true

namespace Numeral

/-- A point and the digits after it, or nothing when there are none. -/
def pointed (fraction : Text) : Text := if fraction = [] then [] else '.' :: fraction

/-- The sign of an exponent. -/
def markText (exponent : Int) : Char := if exponent < 0 then '-' else '+'

/-- An exponent with its sign, or nothing when there is none. -/
def exponentPart : Option Int → Text
  | none => []
  | some exponent => 'e' :: markText exponent :: decimalText exponent.natAbs

/-- The written form of a numeral. -/
def text (numeral : Numeral) : Text :=
  numeral.whole ++ pointed numeral.fraction ++ exponentPart numeral.exponent

/-- The decimal that a numeral stands for. -/
def decimal (numeral : Numeral) : Decimal :=
  ⟨Nat.ofDigitChars 10 (numeral.whole ++ numeral.fraction) 0,
    numeral.exponent.getD 0 - numeral.fraction.length⟩

/-- The characters of numerals. -/
def isPart (char : Char) : Bool :=
  char.isDigit || char = '.' || char = 'e' || char = '+' || char = '-'

/-- Digits at the front of a text are found. -/
theorem digits?_append {digits rest : Text} (given : digits ≠ [])
    (plain : ∀ char ∈ digits, char.isDigit = true)
    (stops : ∀ char ∈ rest.head?, char.isDigit = false) :
    digits? (digits ++ rest) = some (digits, rest) := by
  have taken : rest.takeWhile Char.isDigit = [] ∧ rest.dropWhile Char.isDigit = rest := by
    cases rest with
    | nil => exact ⟨rfl, rfl⟩
    | cons char others => simp [stops char rfl]
  unfold digits?
  rw [List.takeWhile_append_of_pos plain, List.dropWhile_append_of_pos plain, taken.1, taken.2,
    List.append_nil]
  exact if_neg given

/-- A natural number is read from its digits. -/
theorem natural?_decimalText (number : Nat) : natural? (decimalText number) = some number := by
  have digits : (decimalText number).all Char.isDigit = true :=
    List.all_eq_true.mpr fun _ member => isDigit_of_mem_decimalText member
  rw [natural?, if_pos ⟨decimalText_ne_nil number, digits⟩, ofDigitChars_decimalText]

/-- An exponent is read from its written form. -/
theorem exponent?_exponentPart (exponent : Option Int) :
    exponent? (exponentPart exponent) = some (exponent.getD 0) := by
  cases exponent with
  | none => rfl
  | some exponent =>
    simp only [exponentPart, exponent?, markText, true_or, if_true, Option.getD_some]
    split
    · next negative =>
      simp only [integer?, natural?_decimalText, Option.map_some, Option.some.injEq]
      omega
    · next positive =>
      simp only [integer?, natural?_decimalText, Option.map_some, Option.some.injEq]
      omega

/-- No digit begins an exponent. -/
theorem isDigit_head?_exponentPart (exponent : Option Int) :
    ∀ char ∈ (exponentPart exponent).head?, char.isDigit = false := by
  cases exponent with
  | none => simp [exponentPart]
  | some exponent => simp [exponentPart]

/-- No digit begins what is after the whole part. -/
theorem isDigit_head?_pointed (fraction : Text) (exponent : Option Int) :
    ∀ char ∈ (pointed fraction ++ exponentPart exponent).head?, char.isDigit = false := by
  unfold pointed
  split
  · exact isDigit_head?_exponentPart exponent
  · simp

/-- The digits after the point are read from their written form. -/
theorem fraction?_pointed {fraction : Text} (plain : ∀ char ∈ fraction, char.isDigit = true)
    (exponent : Option Int) :
    fraction? (pointed fraction ++ exponentPart exponent) =
      some (fraction, exponentPart exponent) := by
  unfold pointed
  split
  · next empty =>
    rw [empty]
    cases exponent <;> rfl
  · next given =>
    exact digits?_append given plain (isDigit_head?_exponentPart exponent)

/-- A numeral is read to the decimal that it stands for. -/
theorem magnitude?_text (numeral : Numeral) : magnitude? numeral.text = some numeral.decimal := by
  have whole : whole? numeral.text =
      some (numeral.whole, pointed numeral.fraction ++ exponentPart numeral.exponent) := by
    rw [whole?, text, List.append_assoc, digits?_append numeral.whole_ne_nil numeral.whole_digits
      (isDigit_head?_pointed numeral.fraction numeral.exponent)]
    simp [Option.filter, numeral.whole_short]
  simp only [magnitude?, whole, Option.bind_some, fraction?_pointed numeral.fraction_digits,
    exponent?_exponentPart, Option.map_some]
  rfl

/-- A numeral begins with a digit. -/
theorem exists_text_eq_cons (numeral : Numeral) :
    ∃ first rest, numeral.text = first :: rest ∧ first.isDigit = true := by
  have digits := numeral.whole_digits
  have given := numeral.whole_ne_nil
  unfold text
  cases whole : numeral.whole with
  | nil => exact absurd whole given
  | cons first others =>
    rw [whole] at digits
    exact ⟨first, _, rfl, digits first (List.mem_cons_self ..)⟩

/-- A numeral without a sign is read to its normal form. -/
theorem read?_text (numeral : Numeral) :
    read? numeral.text = some (false, numeral.decimal.normal) := by
  obtain ⟨first, rest, same, digit⟩ := numeral.exists_text_eq_cons
  have read := numeral.magnitude?_text
  rw [same] at read ⊢
  unfold read?
  split
  · next unsigned =>
    cases unsigned
    cases digit
  · rw [read, Option.map_some]

/-- A numeral after a sign is read to its normal form. -/
theorem read?_negative (numeral : Numeral) :
    read? ('-' :: numeral.text) = some (true, numeral.decimal.normal) := by
  simp only [read?, numeral.magnitude?_text, Option.map_some]

/-- The characters of an exponent. -/
theorem isPart_of_mem_exponentPart {exponent : Option Int} {char : Char}
    (member : char ∈ exponentPart exponent) : isPart char = true := by
  cases exponent with
  | none => cases member
  | some exponent =>
    rcases List.mem_cons.mp member with rfl | later
    · rfl
    · rcases List.mem_cons.mp later with rfl | digit
      · unfold markText
        split <;> rfl
      · simp [isPart, isDigit_of_mem_decimalText digit]

/-- The characters of a numeral. -/
theorem isPart_of_mem_text {numeral : Numeral} {char : Char} (member : char ∈ numeral.text) :
    isPart char = true := by
  unfold text pointed at member
  rcases List.mem_append.mp member with before | later
  · rcases List.mem_append.mp before with digit | after
    · simp [isPart, numeral.whole_digits char digit]
    · split at after
      · cases after
      · rcases List.mem_cons.mp after with rfl | digit
        · rfl
        · simp [isPart, numeral.fraction_digits char digit]
  · exact isPart_of_mem_exponentPart later

/-- The numeral of a natural number. -/
def ofNatural (number : Nat) : Numeral where
  whole := decimalText number
  fraction := []
  exponent := none
  whole_ne_nil := decimalText_ne_nil number
  whole_digits := fun _ member => isDigit_of_mem_decimalText member
  whole_short := by
    rcases Nat.eq_zero_or_pos number with rfl | positive
    · exact Or.inr rfl
    · exact Or.inl (head?_decimalText positive)
  fraction_digits := by simp

/-- The numeral of a natural number is its digits. -/
theorem text_ofNatural (number : Nat) : (ofNatural number).text = decimalText number := by
  simp [ofNatural, text, pointed, exponentPart]

/-- The numeral of a natural number stands for it. -/
theorem decimal_ofNatural (number : Nat) : (ofNatural number).decimal = ⟨number, 0⟩ := by
  simp [ofNatural, decimal, ofDigitChars_decimalText]

/-- A number below one is written with zeros after the point. -/
theorem exists_pointText_small (number : Nat) (zeros : Nat) :
    ∃ numeral : Numeral,
      '0' :: '.' :: List.replicate zeros '0' ++ decimalText number = numeral.text ∧
        numeral.decimal = ⟨number, -(zeros + (decimalText number).length : Nat)⟩ := by
  refine ⟨⟨['0'], List.replicate zeros '0' ++ decimalText number, none, by simp, by simp,
    Or.inr rfl, ?_⟩, ?_, ?_⟩
  · intro char member
    rcases List.mem_append.mp member with zero | digit
    · rw [List.eq_of_mem_replicate zero]
      rfl
    · exact isDigit_of_mem_decimalText digit
  · simp [text, pointed, exponentPart, decimalText_ne_nil]
  · have value : Nat.ofDigitChars 10 ('0' :: (List.replicate zeros '0' ++ decimalText number)) 0 =
        number := by
      rw [Nat.ofDigitChars_cons, Nat.ofDigitChars_append, Nat.ofDigitChars_replicate_zero]
      exact ofDigitChars_decimalText number
    simp [decimal, value]

/-- A whole number is written with zeros before the point and another one after it. -/
theorem exists_pointText_whole {number : Nat} (positive : 0 < number) (zeros : Nat) :
    ∃ numeral : Numeral,
      decimalText number ++ List.replicate zeros '0' ++ ['.', '0'] = numeral.text ∧
        numeral.decimal = ⟨number * 10 ^ (zeros + 1), -1⟩ := by
  have head := head?_decimalText positive
  refine ⟨⟨decimalText number ++ List.replicate zeros '0', ['0'], none, by
    simp [decimalText_ne_nil], ?_, Or.inl ?_, by simp⟩, ?_, ?_⟩
  · intro char member
    rcases List.mem_append.mp member with digit | zero
    · exact isDigit_of_mem_decimalText digit
    · rw [List.eq_of_mem_replicate zero]
      rfl
  · rwa [List.head?_append,
      Option.or_of_isSome (List.isSome_head?.mpr (decimalText_ne_nil number))]
  · simp [text, pointed, exponentPart]
  · have value : Nat.ofDigitChars 10 (decimalText number ++ List.replicate zeros '0' ++ ['0']) 0 =
        number * 10 ^ (zeros + 1) := by
      rw [Nat.ofDigitChars_append, Nat.ofDigitChars_append, ofDigitChars_decimalText,
        Nat.ofDigitChars_replicate_zero, Nat.pow_succ, Nat.mul_comm (10 ^ zeros) number]
      simp only [Nat.ofDigitChars_cons, Nat.ofDigitChars_nil]
      rw [Nat.mul_comm 10, Nat.mul_assoc]
      rfl
    simp [decimal, value, -List.append_assoc]

/-- A number may be written with the point between its digits. -/
theorem exists_pointText_within {number : Nat} (positive : 0 < number) (point : Nat)
    (after : 0 < point) (before : point < (decimalText number).length) :
    ∃ numeral : Numeral,
      (decimalText number).take point ++ '.' :: (decimalText number).drop point = numeral.text ∧
        numeral.decimal = ⟨number, (point : Int) - (decimalText number).length⟩ := by
  have head := head?_decimalText positive
  have rest : (decimalText number).drop point ≠ [] := by
    rw [ne_eq, List.drop_eq_nil_iff]
    omega
  refine ⟨⟨(decimalText number).take point, (decimalText number).drop point, none, ?_,
    fun _ member => isDigit_of_mem_decimalText (List.mem_of_mem_take member), Or.inl ?_,
    fun _ member => isDigit_of_mem_decimalText (List.mem_of_mem_drop member)⟩, ?_, ?_⟩
  · rw [ne_eq, List.take_eq_nil_iff]
    have given := decimalText_ne_nil number
    rintro (none | none)
    · omega
    · exact given none
  · rwa [List.head?_take, if_neg (by omega)]
  · simp [text, pointed, exponentPart, rest]
  · simp only [decimal, List.take_append_drop, ofDigitChars_decimalText, List.length_drop,
      Option.getD_none]
    congr 1
    omega

/-- A decimal with a point is a numeral for the same number. -/
theorem exists_pointText {decimal : Decimal} (positive : 0 < decimal.digits) :
    ∃ numeral : Numeral,
      Json.pointText (decimalText decimal.digits)
          (decimal.exponent + (decimalText decimal.digits).length) = numeral.text ∧
        numeral.decimal.normal = decimal.normal := by
  rcases decimal with ⟨number, exponent⟩
  dsimp only at positive ⊢
  unfold Json.pointText
  split
  · next small =>
    obtain ⟨numeral, written, value⟩ := exists_pointText_small number
      (-(exponent + (decimalText number).length)).toNat
    refine ⟨numeral, written, ?_⟩
    rw [value]
    congr 2
    omega
  · split
    · next large =>
      obtain ⟨numeral, written, value⟩ := exists_pointText_whole positive
        (exponent + (decimalText number).length - (decimalText number).length).toNat
      refine ⟨numeral, written, ?_⟩
      rw [value, Decimal.normal_scaled]
      congr 2
      omega
    · next _ within =>
      obtain ⟨numeral, written, value⟩ := exists_pointText_within positive
        (exponent + (decimalText number).length).toNat (by omega) (by omega)
      refine ⟨numeral, written, ?_⟩
      rw [value]
      congr 2
      omega

/-- A decimal with an exponent is a numeral for the same number. -/
theorem exists_exponentText (decimal : Decimal) :
    ∃ numeral : Numeral,
      Json.exponentText (decimalText decimal.digits)
          (decimal.exponent + (decimalText decimal.digits).length - 1) = numeral.text ∧
        numeral.decimal = decimal := by
  have digits : ∀ char ∈ decimalText decimal.digits, char.isDigit = true :=
    fun _ member => isDigit_of_mem_decimalText member
  have value := ofDigitChars_decimalText decimal.digits
  cases written : decimalText decimal.digits with
  | nil => exact absurd written (decimalText_ne_nil decimal.digits)
  | cons first others =>
    rw [written] at digits value
    refine ⟨⟨[first], others, some (decimal.exponent + (first :: others).length - 1), by simp,
      fun char member => digits char (List.mem_cons.mpr (Or.inl (List.mem_singleton.mp member))),
      Or.inr rfl, fun char member => digits char (List.mem_cons_of_mem first member)⟩, ?_, ?_⟩
    · cases others with
      | nil => simp [Json.exponentText, text, pointed, exponentPart, markText]
      | cons second rest => simp [Json.exponentText, text, pointed, exponentPart, markText]
    · simp only [Numeral.decimal, List.singleton_append, value, Option.getD_some, List.length_cons]
      congr 1
      omega

/-- The written form of a decimal other than zero is a numeral for the same number. -/
theorem exists_decimalForm (range : Json.PointRange) {decimal : Decimal}
    (positive : 0 < decimal.digits) :
    ∃ numeral : Numeral,
      Json.decimalForm range decimal = numeral.text ∧
        numeral.decimal.normal = decimal.normal := by
  unfold Json.decimalForm
  dsimp only
  split
  · exact exists_pointText positive
  · obtain ⟨numeral, written, value⟩ := exists_exponentText decimal
    exact ⟨numeral, written, by rw [value]⟩

end Numeral

end LineCensus
