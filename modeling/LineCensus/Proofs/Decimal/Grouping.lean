import Mathlib.Data.List.Basic
import Mathlib.Data.List.Induction
import LineCensus.Proofs.Decimal.Natural

/-!
# Digits in groups of three

The groups are counted from the last digit, so from the first digit on a comma depends on how many
digits are still to come: it stands before every digit but the first from which on their number is a
multiple of three (`groupThousands_eq_commasByPlace`). Three more digits at the end are one more
group (`commasByPlace_append_group`), and this gives the form of the whole: digits that are split
into groups of three with fewer in front have commas exactly between the groups
(`commasByPlace_groups`).

A number has one text of this form, so the text gives the number back
(`groupThousands_eq_iff_sets`).
-/
namespace LineCensus

/-- Digits with a comma before each, other than the first, from which on there are three digits, or
six, and so on. -/
def commasByPlace (digits : Text) : Text :=
  digits.zipIdx.flatMap fun (digit, place) =>
    if 0 < place ∧ (digits.length - place) % 3 = 0 then [',', digit] else [digit]

/-- A text sets the digits of a number in groups: a first one and others of three. -/
structure SetsInGroups (number : Nat) (text first : Text) (others : List Text) : Prop where
  /-- One comma stands before every group but the first. -/
  whole : text = first ++ others.flatMap (',' :: ·)
  /-- The first group has one digit, two or three. -/
  first_length : 1 ≤ first.length ∧ first.length ≤ 3
  /-- Every other group has three. -/
  others_length : ∀ group ∈ others, group.length = 3
  /-- The groups have nothing in them but digits. -/
  digits : ∀ group ∈ first :: others, ∀ char ∈ group, char.isDigit = true
  /-- Only zero begins with a zero, and there is nothing after it. -/
  leading : first.head? = some '0' → number = 0 ∧ text = ['0']
  /-- Without the commas the digits are those of the number. -/
  reads : Nat.ofDigitChars 10 (text.filter (· ≠ ',')) 0 = number

section Commas

/-- Three digits more at the end are one group more, when there are others in front. -/
theorem commasByPlace_append_group {front group : Text} (some_front : front ≠ [])
    (size : group.length = 3) :
    commasByPlace (front ++ group) = commasByPlace front ++ ',' :: group := by
  obtain ⟨hundreds, tens, ones, rfl⟩ := List.length_eq_three.mp size
  have length_pos : 0 < front.length := List.length_pos_of_ne_nil some_front
  -- three digits more in every distance to the end leave the remainder what it is
  have before : ∀ entry ∈ front.zipIdx,
      (if 0 < entry.2 ∧ (front.length + 3 - entry.2) % 3 = 0 then [',', entry.1] else [entry.1]) =
        if 0 < entry.2 ∧ (front.length - entry.2) % 3 = 0 then [',', entry.1] else [entry.1] := by
    rintro ⟨digit, place⟩ inside
    have place_lt : place < front.length := by
      have bound := List.snd_lt_add_of_mem_zipIdx inside
      omega
    have remainder : (front.length + 3 - place) % 3 = (front.length - place) % 3 := by omega
    dsimp only
    rw [remainder]
  have first : 0 < front.length ∧ (front.length + 3 - front.length) % 3 = 0 := by omega
  have second : ¬ (0 < front.length + 1 ∧ (front.length + 3 - (front.length + 1)) % 3 = 0) := by
    omega
  have third : ¬ (0 < front.length + 1 + 1 ∧
      (front.length + 3 - (front.length + 1 + 1)) % 3 = 0) := by
    omega
  unfold commasByPlace
  rw [List.zipIdx_append, List.flatMap_append, List.length_append]
  simp only [List.length_cons, List.length_nil, Nat.zero_add, List.zipIdx_cons, List.zipIdx_nil,
    List.flatMap_cons, List.flatMap_nil, Nat.reduceAdd]
  rw [List.flatMap_congr before, if_pos first, if_neg second, if_neg third]
  rfl

/-- Up to three digits are one group. -/
theorem commasByPlace_of_few {digits : Text} (few : digits.length ≤ 3) :
    commasByPlace digits = digits := by
  rcases digits with - | ⟨first, - | ⟨second, - | ⟨third, - | ⟨fourth, rest⟩⟩⟩⟩
  · rfl
  · rfl
  · rfl
  · rfl
  · simp only [List.length_cons] at few
    omega

/-- Digits in groups of three from the last have their commas by place. -/
theorem reverse_groupFromLast (digits : Text) :
    (groupFromLast digits).reverse = commasByPlace digits.reverse := by
  fun_induction groupFromLast digits with
  | case1 ones tens hundreds next others step =>
    have front : (next :: others).reverse ≠ [] := by simp
    have added := commasByPlace_append_group front
      (show [hundreds, tens, ones].length = 3 from rfl)
    calc
      (ones :: tens :: hundreds :: ',' :: groupFromLast (next :: others)).reverse =
          (groupFromLast (next :: others)).reverse ++ [',', hundreds, tens, ones] := by simp
      _ = commasByPlace (next :: others).reverse ++ [',', hundreds, tens, ones] := by rw [step]
      _ = commasByPlace ((next :: others).reverse ++ [hundreds, tens, ones]) := added.symm
      _ = commasByPlace (ones :: tens :: hundreds :: next :: others).reverse := by simp
  | case2 few short =>
    have length_le : few.length ≤ 3 := by
      rcases few with - | ⟨ones, - | ⟨tens, - | ⟨hundreds, - | ⟨next, others⟩⟩⟩⟩
      · exact Nat.zero_le 3
      · exact Nat.le_add_left 1 2
      · exact Nat.le_add_left 2 1
      · exact Nat.le_refl 3
      · exact absurd rfl (short ones tens hundreds next others)
    exact (commasByPlace_of_few (by rwa [List.length_reverse])).symm

/-- The digits of a number have their commas by place. -/
theorem groupThousands_eq_commasByPlace (number : Nat) :
    groupThousands number = commasByPlace (decimalText number) := by
  unfold groupThousands
  rw [reverse_groupFromLast, List.reverse_reverse]

/-- Digits that are split into groups have commas exactly between the groups. -/
theorem commasByPlace_groups {first : Text} {others : List Text}
    (first_length : 1 ≤ first.length ∧ first.length ≤ 3)
    (others_length : ∀ group ∈ others, group.length = 3) :
    commasByPlace (first ++ others.flatten) = first ++ others.flatMap (',' :: ·) := by
  induction others using List.reverseRecOn with
  | nil => simpa using commasByPlace_of_few first_length.2
  | append_singleton others group step =>
    have earlier := step fun other inside => others_length other (List.mem_append_left _ inside)
    have front : first ++ others.flatten ≠ [] := by
      intro none
      have nothing := congrArg List.length none
      rw [List.length_append, List.length_nil] at nothing
      omega
    have size : group.length = 3 := others_length group (by simp)
    calc
      commasByPlace (first ++ (others ++ [group]).flatten) =
          commasByPlace ((first ++ others.flatten) ++ group) := by simp
      _ = commasByPlace (first ++ others.flatten) ++ ',' :: group :=
        commasByPlace_append_group front size
      _ = first ++ (others ++ [group]).flatMap (',' :: ·) := by rw [earlier]; simp

/-- Digits can be split into groups of three with one to three digits in front. -/
theorem exists_groups {digits : Text} (some_digits : digits ≠ []) :
    ∃ (first : Text) (others : List Text), digits = first ++ others.flatten ∧
      (1 ≤ first.length ∧ first.length ≤ 3) ∧ ∀ group ∈ others, group.length = 3 := by
  by_cases few : digits.length ≤ 3
  · exact ⟨digits, [], by simp, ⟨List.length_pos_iff.mpr some_digits, few⟩, by simp⟩
  · -- the last three digits are the last group, and those in front of them are split the same way
    obtain ⟨front, last, whole, last_length⟩ :
        ∃ front last, digits = front ++ last ∧ last.length = 3 := by
      refine ⟨digits.take (digits.length - 3), digits.drop (digits.length - 3), by simp, ?_⟩
      rw [List.length_drop]
      omega
    have length : digits.length = front.length + 3 := by
      rw [whole, List.length_append, last_length]
    have shorter : front.length < digits.length := by omega
    have some_front : front ≠ [] := List.ne_nil_of_length_pos (by omega)
    obtain ⟨first, others, split, first_length, others_length⟩ := exists_groups some_front
    refine ⟨first, others ++ [last], by simp [whole, split], first_length, ?_⟩
    intro group inside
    rcases List.mem_append.mp inside with earlier | latest
    · exact others_length group earlier
    · rw [List.mem_singleton.mp latest]
      exact last_length
termination_by digits.length

end Commas

section Reading

/-- A digit is the one for its value, and its value is below ten. -/
theorem digitChar_value {char : Char} (digit : char.isDigit = true) :
    char.toNat - '0'.toNat < 10 ∧ Nat.digitChar (char.toNat - '0'.toNat) = char := by
  have range : '0'.toNat ≤ char.toNat ∧ char.toNat ≤ '9'.toNat := Char.isDigit_iff_toNat.mp digit
  have zero : '0'.toNat = 48 := rfl
  have nine : '9'.toNat = 57 := rfl
  have small : char.toNat - '0'.toNat < 10 := by omega
  have code : (Nat.digitChar (char.toNat - '0'.toNat)).toNat = char.toNat := by
    rw [Nat.toNat_digitChar_of_lt_ten small]
    omega
  exact ⟨small, Char.toNat_inj.mp code⟩

/-- Digits that do not begin with a zero, or are a zero alone, are those of the number that they
are read as. -/
theorem decimalText_ofDigitChars {digits : Text} (some_digits : digits ≠ [])
    (numeric : ∀ char ∈ digits, char.isDigit = true)
    (leading : digits.head? = some '0' → digits = ['0']) :
    decimalText (Nat.ofDigitChars 10 digits 0) = digits := by
  induction digits using List.reverseRecOn with
  | nil => exact absurd rfl some_digits
  | append_singleton front last step =>
    obtain ⟨small, same⟩ := digitChar_value (numeric last (by simp))
    have value : Nat.ofDigitChars 10 (front ++ [last]) 0 =
        10 * Nat.ofDigitChars 10 front 0 + (last.toNat - '0'.toNat) := by
      rw [Nat.ofDigitChars_append, Nat.ofDigitChars_cons, Nat.ofDigitChars_nil]
    have digit : Nat.toDigits 10 (last.toNat - '0'.toNat) = [last] := by
      rw [Nat.toDigits_of_lt_base small, same]
    rw [value]
    by_cases alone : front = []
    · rw [alone, Nat.ofDigitChars_nil, Nat.mul_zero, Nat.zero_add]
      exact digit
    · -- with a digit after it, the front cannot begin with a zero
      have starts : front.head? ≠ some '0' := by
        intro zero
        have whole := leading (by rw [List.head?_append, zero]; rfl)
        have length := congrArg List.length whole
        rw [List.length_append, List.length_singleton, List.length_singleton] at length
        exact alone (List.length_eq_zero_iff.mp (by omega))
      have earlier := step alone (fun char inside => numeric char (List.mem_append_left _ inside))
        fun zero => absurd zero starts
      have positive : 0 < Nat.ofDigitChars 10 front 0 := by
        apply Nat.pos_of_ne_zero
        intro zero
        rw [zero] at earlier
        exact starts (earlier ▸ rfl)
      unfold decimalText at earlier ⊢
      rw [← Nat.toDigits_append_toDigits (by decide) positive small, earlier, digit]

/-- Without the commas between them, groups of digits are the digits. -/
theorem filter_groups {first : Text} {others : List Text}
    (numeric : ∀ group ∈ first :: others, ∀ char ∈ group, char.isDigit = true) :
    (first ++ others.flatMap (',' :: ·)).filter (· ≠ ',') = first ++ others.flatten := by
  have plain : ∀ group ∈ first :: others, group.filter (· ≠ ',') = group := by
    intro group inside
    refine List.filter_eq_self.mpr fun char member => decide_eq_true ?_
    rintro rfl
    exact absurd (numeric group inside ',' member) (by decide)
  have later : ∀ groups : List Text, (∀ group ∈ groups, group.filter (· ≠ ',') = group) →
      (groups.flatMap (',' :: ·)).filter (· ≠ ',') = groups.flatten := by
    intro groups unchanged
    induction groups with
    | nil => rfl
    | cons group groups step =>
      have rest := step fun other inside => unchanged other (List.mem_cons_of_mem group inside)
      rw [List.flatMap_cons, List.filter_append, rest, List.flatten_cons,
        List.filter_cons_of_neg (by simp), unchanged group List.mem_cons_self]
  rw [List.filter_append, plain first List.mem_cons_self,
    later others fun group inside => plain group (List.mem_cons_of_mem first inside)]

end Reading

/-- A number is set in groups by one text. -/
theorem groupThousands_eq_iff_sets (number : Nat) (text : Text) :
    groupThousands number = text ↔
      ∃ (first : Text) (others : List Text), SetsInGroups number text first others := by
  constructor
  · rintro rfl
    obtain ⟨first, others, split, first_length, others_length⟩ :=
      exists_groups (decimalText_ne_nil number)
    have whole : groupThousands number = first ++ others.flatMap (',' :: ·) := by
      rw [groupThousands_eq_commasByPlace, split, commasByPlace_groups first_length others_length]
    have numeric : ∀ group ∈ first :: others, ∀ char ∈ group, char.isDigit = true := by
      intro group inside char member
      have digit : char ∈ decimalText number := by
        rw [split, ← List.flatten_cons]
        exact List.mem_flatten_of_mem inside member
      exact isDigit_of_mem_decimalText digit
    refine ⟨first, others, whole, first_length, others_length, numeric, ?_, ?_⟩
    · intro zero
      have number_zero : number = 0 := by
        by_contra other
        apply head?_decimalText (Nat.pos_of_ne_zero other)
        rw [split, List.head?_append, zero]
        rfl
      exact ⟨number_zero, by rw [number_zero]; rfl⟩
    · rw [whole, filter_groups numeric, ← split]
      exact ofDigitChars_decimalText number
  · rintro ⟨first, others, sets⟩
    have plain : text.filter (· ≠ ',') = first ++ others.flatten := by
      rw [sets.whole]
      exact filter_groups sets.digits
    have reads := sets.reads
    rw [plain] at reads
    have some_first : first ≠ [] := List.ne_nil_of_length_pos sets.first_length.1
    have numeric : ∀ char ∈ first ++ others.flatten, char.isDigit = true := by
      intro char member
      rw [← List.flatten_cons] at member
      obtain ⟨group, inside, here⟩ := List.mem_flatten.mp member
      exact sets.digits group inside char here
    have leading : (first ++ others.flatten).head? = some '0' →
        first ++ others.flatten = ['0'] := by
      intro zero
      rw [List.head?_append, Option.or_of_isSome (List.isSome_head?.mpr some_first)] at zero
      rw [← plain, (sets.leading zero).2]
      rfl
    have digits := decimalText_ofDigitChars (by simp [some_first]) numeric leading
    rw [reads] at digits
    rw [groupThousands_eq_commasByPlace, digits,
      commasByPlace_groups sets.first_length sets.others_length, sets.whole]

/-- A number is set in groups of three digits with single commas between them. The text gives the
number back, so different numbers have different texts, and no other text is of this form. -/
theorem groupThousands_sets_uniquely :
    (∀ number text, groupThousands number = text ↔
      ∃ first others, SetsInGroups number text first others) ∧
    Function.Injective groupThousands := by
  refine ⟨groupThousands_eq_iff_sets, fun left right same => ?_⟩
  obtain ⟨_, _, sets⟩ := (groupThousands_eq_iff_sets left _).mp rfl
  obtain ⟨_, _, sets'⟩ := (groupThousands_eq_iff_sets right _).mp rfl
  calc
    left = Nat.ofDigitChars 10 ((groupThousands left).filter (· ≠ ',')) 0 := sets.reads.symm
    _ = Nat.ofDigitChars 10 ((groupThousands right).filter (· ≠ ',')) 0 := by rw [same]
    _ = right := sets'.reads

-- the greatest word has a first group of two digits
example : groupThousands greatestWord = "18,446,744,073,709,551,615".toList := by decide +kernel

end LineCensus
