import LineCensus.Proofs.Decimal.Natural
import LineCensus.Registry.Standard
import LineCensus.Report.Plain
import Mathlib.Data.List.Basic

/-!
# The cells of a row

The line of a directory has its total, its name and its languages one after the other. Blanks fill
up the columns of the first two, so nothing parts a total of eight digits from the name after it, or
a name of sixteen characters from the languages after it. The cells can be told apart but for this:
two rows have the same line exactly when they are equal or one is read as the other across a full
column (`DirectoryRow.line_eq_iff`). Rows whose names do not fill their column are equal when their
lines are (`DirectoryRow.eq_of_short`).

Names and tags have no blank, so there are blanks in a line only where a column is filled up and
after the commas between languages. Equal lines are compared up to the first blank in either of
them, and after it.
-/
namespace LineCensus

namespace Text

section Split

variable {left right front back : Text} {char : Char}

/-- When a text is divided before a character and also after a front without this character, the
front is the shorter one. -/
theorem exists_of_append_cons (absent : char ∉ right)
    (same : left ++ char :: front = right ++ back) :
    ∃ between, left = right ++ between ∧ back = between ++ char :: front := by
  rcases List.append_eq_append_iff.mp same with ⟨between, more, rest⟩ | longer
  · rcases between with - | ⟨first, between⟩
    · exact ⟨[], by rw [more, List.append_nil, List.append_nil], rest.symm⟩
    · obtain ⟨rfl, -⟩ := List.cons.inj rest
      exact absurd (more ▸ List.mem_append_right left List.mem_cons_self) absent
  · exact longer

/-- A text is divided in one way before the first time that a character is in it. -/
theorem append_cons_inj (leftAbsent : char ∉ left) (rightAbsent : char ∉ right)
    (same : left ++ char :: front = right ++ char :: back) : left = right ∧ front = back := by
  obtain ⟨between, longer, rest⟩ := exists_of_append_cons rightAbsent same
  rcases between with - | ⟨first, between⟩
  · exact ⟨longer.trans (List.append_nil right), (List.cons.inj rest).2.symm⟩
  · obtain ⟨rfl, -⟩ := List.cons.inj rest
    exact absurd (longer ▸ List.mem_append_right right List.mem_cons_self) leftAbsent

/-- Blanks are told apart from an ending that begins with no blank. -/
theorem blanks_append_inj {count other : Nat} (frontVisible : front.head? ≠ some ' ')
    (backVisible : back.head? ≠ some ' ')
    (same : List.replicate count ' ' ++ front = List.replicate other ' ' ++ back) :
    count = other ∧ front = back := by
  induction count generalizing other with
  | zero =>
    rcases other with - | other
    · exact ⟨rfl, same⟩
    · exact absurd (congrArg List.head? same) frontVisible
  | succ count step =>
    rcases other with - | other
    · exact absurd (congrArg List.head? same).symm backVisible
    · obtain ⟨counts, texts⟩ := step (List.cons.inj same).2
      exact ⟨congrArg (· + 1) counts, texts⟩

end Split

variable {text : Text} {width : Nat}

/-- A text that fills its column is followed by no blanks. -/
theorem padRight_of_le (full : width ≤ text.length) : text.padRight width = text := by
  rw [padRight, Nat.sub_eq_zero_of_le full, List.replicate_zero, List.append_nil]

/-- A text that does not fill its column is followed by a blank. -/
theorem padRight_of_lt (short : text.length < width) :
    text.padRight width = text ++ ' ' :: List.replicate (width - text.length - 1) ' ' := by
  rw [padRight, ← List.replicate_succ, Nat.sub_add_cancel (Nat.sub_pos_of_lt short)]

end Text

/-- There is no blank between the digits of a number. -/
theorem blank_not_mem_decimalText (number : Nat) : ' ' ∉ decimalText number :=
  fun inside => absurd (isDigit_of_mem_decimalText inside) (by decide)

namespace LanguageCount

/-- The languages are known from the start. -/
def Listed (languages : List LanguageCount) : Prop :=
  ∀ entry ∈ languages, entry.language ∈ Registry.standard.languages.map Language.tag

/-- Whether the languages are known from the start can be computed. -/
instance (languages : List LanguageCount) : Decidable (Listed languages) :=
  inferInstanceAs (Decidable (∀ entry ∈ languages, _ ∈ _))

/-- The tags of the standard registry are made of letters and digits. -/
theorem isAlphanum_of_tag {tag : Text}
    (inside : tag ∈ Registry.standard.languages.map Language.tag) {char : Char}
    (member : char ∈ tag) : char.isAlphanum = true := by
  have each : ∀ tag ∈ Registry.standard.languages.map Language.tag,
      tag.all Char.isAlphanum = true := by decide +kernel
  exact List.all_eq_true.mp (each tag inside) char member

/-- A language with its lines as it is listed. -/
def item (entry : LanguageCount) : Text := entry.language ++ '=' :: decimalText entry.lines

section Items

variable {first other : LanguageCount} {others rest : List LanguageCount} {letters : Text}

/-- A language alone is listed without a comma. -/
theorem joined_singleton (entry : LanguageCount) : joined [entry] = entry.item :=
  List.intercalate_singleton

/-- A comma and a blank follow the first of several languages. -/
theorem joined_cons (more : others ≠ []) :
    joined (first :: others) = first.item ++ [','] ++ ' ' :: joined others := by
  rw [joined, List.map_cons, List.intercalate_cons_of_ne_nil (by simpa using more)]
  simp [joined, item]

/-- There is a blank between the first language and the others. -/
theorem blank_mem_joined (more : others ≠ []) : ' ' ∈ joined (first :: others) := by
  rw [joined_cons more]
  exact List.mem_append_right _ List.mem_cons_self

/-- The first language is listed first. -/
theorem exists_joined_eq_append (first : LanguageCount) (others : List LanguageCount) :
    ∃ rest, joined (first :: others) = first.item ++ rest := by
  rcases eq_or_ne others [] with rfl | more
  · exact ⟨[], by rw [joined_singleton, List.append_nil]⟩
  · exact ⟨_, by rw [joined_cons more, List.append_assoc]⟩

/-- Letters that begin the first tag begin what is listed. -/
theorem joined_letters (letters tag : Text) (lines : Nat) (others : List LanguageCount) :
    joined (⟨letters ++ tag, lines⟩ :: others) = letters ++ joined (⟨tag, lines⟩ :: others) := by
  have items : item ⟨letters ++ tag, lines⟩ = letters ++ item ⟨tag, lines⟩ :=
    List.append_assoc letters tag _
  rcases eq_or_ne others [] with rfl | more
  · rw [joined_singleton, joined_singleton, items]
  · rw [joined_cons more, joined_cons more, items, List.append_assoc letters,
      List.append_assoc letters]

/-- A listed language is written with letters, digits and an equals sign. -/
theorem mem_item (listed : Listed (first :: others)) {char : Char} (inside : char ∈ first.item) :
    char.isAlphanum = true ∨ char = '=' := by
  rcases List.mem_append.mp inside with tag | digits
  · exact .inl (isAlphanum_of_tag (listed first List.mem_cons_self) tag)
  · rcases List.mem_cons.mp digits with equals | digit
    · exact .inr equals
    · have numeric := isDigit_of_mem_decimalText digit
      exact .inl (by simp [Char.isAlphanum, numeric])

/-- There is no blank in a listed language. -/
theorem blank_not_mem_item (listed : Listed (first :: others)) : ' ' ∉ first.item :=
  fun inside => absurd (mem_item listed inside) (by decide)

/-- A listed language has an equals sign only after its tag, so letters before one that make it
another are letters of the tag. -/
theorem item_eq_append (listed : Listed (other :: rest))
    (same : other.item = letters ++ first.item) :
    other.language = letters ++ first.language ∧ other.lines = first.lines := by
  have tag : '=' ∉ other.language := fun inside =>
    absurd (isAlphanum_of_tag (listed other List.mem_cons_self) inside) (by decide)
  have digits : '=' ∉ decimalText other.lines := fun inside =>
    absurd (isDigit_of_mem_decimalText inside) (by decide)
  rw [item, item, ← List.append_assoc] at same
  obtain ⟨tags, -, lines⟩ := (List.append_cons_inj_of_notMem tag digits).mp same
  exact ⟨tags, decimalText_injective lines⟩

/-- Letters before listed languages that make them others are letters of the first tag. -/
theorem joined_eq_append (unblank : ' ' ∉ letters) (firsts : Listed (first :: others))
    (seconds : Listed (other :: rest))
    (same : joined (other :: rest) = letters ++ joined (first :: others)) :
    other.language = letters ++ first.language ∧ other.lines = first.lines ∧ rest = others := by
  induction others generalizing letters first other rest with
  | nil =>
    rw [joined_singleton] at same
    rcases rest with - | ⟨next, rest⟩
    · rw [joined_singleton] at same
      obtain ⟨tags, lines⟩ := item_eq_append seconds same
      exact ⟨tags, lines, rfl⟩
    · have inside : ' ' ∈ letters ++ first.item := same ▸ blank_mem_joined (List.cons_ne_nil _ _)
      exact absurd inside (List.not_mem_append unblank (blank_not_mem_item firsts))
  | cons following others step =>
    rcases rest with - | ⟨next, rest⟩
    · rw [joined_singleton] at same
      have inside : ' ' ∈ other.item :=
        same ▸ List.mem_append_right letters (blank_mem_joined (List.cons_ne_nil _ _))
      exact absurd inside (blank_not_mem_item seconds)
    · rw [joined_cons (List.cons_ne_nil _ _), joined_cons (List.cons_ne_nil _ _),
        ← List.append_assoc, ← List.append_assoc] at same
      have comma : ' ' ∉ [','] := by decide
      have noBlank := List.not_mem_append (blank_not_mem_item seconds) comma
      have noOther := List.not_mem_append
        (List.not_mem_append unblank (blank_not_mem_item firsts)) comma
      obtain ⟨items, tails⟩ := Text.append_cons_inj noBlank noOther same
      obtain ⟨tags, lines⟩ := item_eq_append seconds (List.append_cancel_right items)
      obtain ⟨nextTags, nextLines, rests⟩ := step List.not_mem_nil
        (List.forall_mem_cons.mp firsts).2 (List.forall_mem_cons.mp seconds).2 tails
      obtain ⟨nextTag, nextCount⟩ := next
      cases nextTags
      cases nextLines
      exact ⟨tags, lines, congrArg (following :: ·) rests⟩

end Items

end LanguageCount

namespace DirectoryRow

open LanguageCount (Listed)

/-- The cell of the languages, without colour. -/
def cell (languages : List LanguageCount) : Text :=
  if languages = [] then "(none)".toList else LanguageCount.joined languages

/-- The line of a directory is the cells of its total, its name and its languages. -/
theorem line_eq_cells (row : DirectoryRow) :
    row.line false = (decimalText row.total).padRight 8 ++
      (row.directory.padRight 16 ++ cell row.languages) := by
  rw [line, List.append_assoc]
  rfl

section Cells

variable {languages others : List LanguageCount}

/-- The cell of a first language and others is what is listed. -/
theorem cell_cons (first : LanguageCount) (others : List LanguageCount) :
    cell (first :: others) = LanguageCount.joined (first :: others) := if_neg (List.cons_ne_nil _ _)

/-- The cell of the languages begins with no blank. -/
theorem head?_cell (listed : Listed languages) : (cell languages).head? ≠ some ' ' := by
  rcases languages with - | ⟨first, others⟩
  · decide
  · have visible : ' ' ∉ first.item := LanguageCount.blank_not_mem_item listed
    have nonempty : first.item ≠ [] := List.append_ne_nil_of_right_ne_nil _ (List.cons_ne_nil _ _)
    obtain ⟨rest, joined⟩ := LanguageCount.exists_joined_eq_append first others
    rw [cell_cons, joined, List.head?_append, Option.or_of_isSome (List.isSome_head?.mpr nonempty)]
    exact fun blank => visible (List.mem_of_head? blank)

/-- Nothing without blanks makes the cell of no languages the cell of some. -/
theorem cell_cons_ne_append_none {letters : Text} {first : LanguageCount} (unblank : ' ' ∉ letters)
    (listed : Listed (first :: others)) : cell (first :: others) ≠ letters ++ cell [] := by
  intro same
  rw [cell_cons] at same
  rcases eq_or_ne others [] with rfl | more
  · rw [LanguageCount.joined_singleton] at same
    have bracket : '(' ∈ first.item := same ▸ List.mem_append_right letters (by decide)
    exact absurd (LanguageCount.mem_item listed bracket) (by decide)
  · have blank : ' ' ∈ letters ++ cell [] := same ▸ LanguageCount.blank_mem_joined more
    exact absurd blank (List.not_mem_append unblank (by decide))

/-- The cell of some languages ends no cell of no languages. -/
theorem cell_nil_ne_append_cell {letters : Text} {first : LanguageCount} :
    cell [] ≠ letters ++ cell (first :: others) := by
  intro same
  obtain ⟨rest, joined⟩ := LanguageCount.exists_joined_eq_append first others
  have equals : '=' ∈ cell [] := by
    rw [same, cell_cons, joined]
    simp [LanguageCount.item]
  exact absurd equals (by decide)

/-- Letters before the cell of some languages that make it the cell of others are letters of the
first tag. -/
theorem cell_eq_append {letters : Text} (unblank : ' ' ∉ letters) (listed : Listed languages)
    (otherListed : Listed others) (same : cell others = letters ++ cell languages) :
    letters = [] ∧ others = languages ∨ ∃ tag lines rest,
      languages = ⟨tag, lines⟩ :: rest ∧ others = ⟨letters ++ tag, lines⟩ :: rest := by
  rcases languages with - | ⟨⟨tag, lines⟩, rest⟩
  · rcases others with - | ⟨other, rest⟩
    · exact .inl ⟨List.append_left_eq_self.mp same.symm, rfl⟩
    · exact absurd same (cell_cons_ne_append_none unblank otherListed)
  · rcases others with - | ⟨⟨otherTag, otherLines⟩, otherRest⟩
    · exact absurd same cell_nil_ne_append_cell
    · rw [cell_cons, cell_cons] at same
      obtain ⟨tags, counts, rests⟩ := LanguageCount.joined_eq_append unblank listed otherListed same
      cases tags
      cases counts
      cases rests
      exact .inr ⟨_, _, _, rfl, rfl⟩

/-- Different languages have different cells. -/
theorem cell_injective (listed : Listed languages) (otherListed : Listed others)
    (same : cell languages = cell others) : languages = others := by
  rcases cell_eq_append List.not_mem_nil otherListed listed same with
    ⟨-, lists⟩ | ⟨tag, lines, rest, lists, otherLists⟩
  · exact lists
  · exact otherLists.trans lists.symm

/-- A cell that has a blank has a comma before the first one and the cell of the other languages
after it. -/
theorem exists_item_of_cell {front : Text} {count : Nat} (unblank : ' ' ∉ front)
    (listed : Listed languages) (otherListed : Listed others)
    (same : cell languages = front ++ ' ' :: (List.replicate count ' ' ++ cell others)) :
    ∃ entry, languages = entry :: others ∧ others ≠ [] ∧ front = entry.item ++ [','] ∧
      count = 0 := by
  rcases languages with - | ⟨entry, rest⟩
  · have blank : ' ' ∈ cell [] := same ▸ by simp
    exact absurd blank (by decide)
  · have restListed := (List.forall_mem_cons.mp listed).2
    have entryUnblank := LanguageCount.blank_not_mem_item listed
    rw [cell_cons] at same
    rcases rest with - | ⟨next, rest⟩
    · rw [LanguageCount.joined_singleton] at same
      have blank : ' ' ∈ entry.item := same ▸ by simp
      exact absurd blank entryUnblank
    · rw [LanguageCount.joined_cons (List.cons_ne_nil _ _), ← cell_cons] at same
      obtain ⟨items, cells⟩ := Text.append_cons_inj
        (List.not_mem_append entryUnblank (by decide)) unblank same
      have counts : List.replicate 0 ' ' ++ cell (next :: rest) =
          List.replicate count ' ' ++ cell others := cells
      obtain ⟨none, others⟩ := Text.blanks_append_inj (head?_cell restListed)
        (head?_cell otherListed) counts
      obtain rfl := cell_injective restListed otherListed others
      exact ⟨entry, rfl, List.cons_ne_nil _ _, items.symm, none.symm⟩

end Cells

/-- The name of a row has no blank and its languages are known from the start. -/
structure Ordinary (row : DirectoryRow) : Prop where
  /-- The name has no blank. -/
  unblank : ' ' ∉ row.directory
  /-- The languages are known from the start. -/
  listed : Listed row.languages

/-- The digits of the total of another row are those of a row and some more. There are more only
when the total of the row fills its column. -/
structure Continues (row other : DirectoryRow) (digits : Text) : Prop where
  /-- The total of the other row has the digits after those of the row. -/
  total : decimalText other.total = decimalText row.total ++ digits
  /-- The total fills its column. -/
  full : digits ≠ [] → 8 ≤ (decimalText row.total).length

/-- A name followed by languages is the same text as another name followed by other languages. They
are the same, or letters of the first tag of the one are the last letters of the name of the
other. -/
inductive RunTogether : Text → List LanguageCount → Text → List LanguageCount → Prop where
  /-- The names and the languages are the same. -/
  | same (name : Text) (languages : List LanguageCount) : RunTogether name languages name languages
  /-- The other name has letters of the first tag. -/
  | intoName (name letters tag : Text) (lines : Nat) (rest : List LanguageCount) :
    RunTogether name (⟨letters ++ tag, lines⟩ :: rest) (name ++ letters) (⟨tag, lines⟩ :: rest)
  /-- The other first tag has letters of the name. -/
  | intoTag (name letters tag : Text) (lines : Nat) (rest : List LanguageCount) :
    RunTogether (name ++ letters) (⟨tag, lines⟩ :: rest) name (⟨letters ++ tag, lines⟩ :: rest)

/-- A row whose name fills its column is read as another row. Digits at the front of the name are
read as digits of the total, and what is left of the name and the languages are divided in another
way. -/
inductive ReadAs (row other : DirectoryRow) : Prop where
  /-- The names fill their column, and what is after the digits is the same text. -/
  | shifted {digits : Text} (continues : row.Continues other digits)
    (full : 16 ≤ row.directory.length) (otherFull : 16 ≤ other.directory.length)
    (together : RunTogether row.directory row.languages (digits ++ other.directory) other.languages)
  /-- The other name is one character short of its column, so that the blank after it is the blank
  after the first language of the row. This language is the end of the name, with its comma. -/
  | swallowed {digits : Text} {entry : LanguageCount} (continues : row.Continues other digits)
    (full : 16 ≤ row.directory.length) (short : other.directory.length = 15)
    (name : digits ++ other.directory = row.directory ++ (entry.item ++ [',']))
    (languages : row.languages = entry :: other.languages) (more : other.languages ≠ [])

section Lines

variable {row other : DirectoryRow} {digits front back : Text}

namespace Continues

/-- The digits that a total has more have no blank. -/
theorem unblank (continues : row.Continues other digits) : ' ' ∉ digits := fun inside =>
  blank_not_mem_decimalText other.total
    (continues.total ▸ List.mem_append_right (decimalText row.total) inside)

/-- A total that continues another is that total with digits after its column. -/
theorem padRight_append (continues : row.Continues other digits) (rest : Text) :
    (decimalText other.total).padRight 8 ++ rest =
      (decimalText row.total).padRight 8 ++ (digits ++ rest) := by
  rcases eq_or_ne digits [] with rfl | more
  · rw [continues.total, List.append_nil, List.nil_append]
  · have full := continues.full more
    have longer : 8 ≤ (decimalText row.total ++ digits).length := by
      rw [List.length_append]
      omega
    rw [continues.total, Text.padRight_of_le full, Text.padRight_of_le longer, List.append_assoc]

end Continues

/-- When totals in their columns begin the same line, the longer one continues the other. -/
theorem exists_continues
    (order : (decimalText row.total).length ≤ (decimalText other.total).length)
    (same : (decimalText row.total).padRight 8 ++ front =
      (decimalText other.total).padRight 8 ++ back) :
    ∃ digits, row.Continues other digits ∧ front = digits ++ back := by
  have continued : ∃ digits, row.Continues other digits := by
    rcases Nat.lt_or_ge (decimalText row.total).length 8 with short | full
    · rw [Text.padRight_of_lt short, Text.padRight, List.append_assoc, List.append_assoc] at same
      obtain ⟨between, longer, -⟩ := Text.exists_of_append_cons
        (blank_not_mem_decimalText other.total) same
      have lengths := congrArg List.length longer
      rw [List.length_append] at lengths
      obtain rfl : between = [] := List.eq_nil_of_length_eq_zero (by omega)
      rw [List.append_nil] at longer
      exact ⟨[], by rw [longer, List.append_nil], (absurd rfl ·)⟩
    · rw [Text.padRight_of_le full, Text.padRight_of_le (by omega)] at same
      obtain ⟨digits, total⟩ := List.prefix_of_prefix_length_le ⟨front, rfl⟩ ⟨back, same.symm⟩ order
      exact ⟨digits, total.symm, fun _ => full⟩
  obtain ⟨digits, continues⟩ := continued
  rw [continues.padRight_append] at same
  exact ⟨digits, continues, List.append_cancel_left same⟩

section Together

variable {name otherName : Text} {languages others : List LanguageCount}

/-- Letters between a name and the first language after it are before its tag. -/
theorem append_cell_letters (name letters tag : Text) (lines : Nat) (rest : List LanguageCount) :
    name ++ cell (⟨letters ++ tag, lines⟩ :: rest) =
      name ++ letters ++ cell (⟨tag, lines⟩ :: rest) := by
  rw [cell_cons, cell_cons, LanguageCount.joined_letters, List.append_assoc]

/-- Names and languages that are run together are the same text. -/
theorem RunTogether.append_cell_eq (together : RunTogether name languages otherName others) :
    name ++ cell languages = otherName ++ cell others := by
  cases together with
  | same => rfl
  | intoName => exact append_cell_letters _ _ _ _ _
  | intoTag => exact (append_cell_letters _ _ _ _ _).symm

/-- Names without a blank and listed languages that are the same text are run together. -/
theorem runTogether_of_eq (unblank : ' ' ∉ name) (otherUnblank : ' ' ∉ otherName)
    (listed : Listed languages) (otherListed : Listed others)
    (same : name ++ cell languages = otherName ++ cell others) :
    RunTogether name languages otherName others := by
  rcases List.append_eq_append_iff.mp same with ⟨letters, rfl, cells⟩ | ⟨letters, rfl, cells⟩
  · rw [List.mem_append, not_or] at otherUnblank
    rcases cell_eq_append otherUnblank.2 otherListed listed cells with
      ⟨rfl, rfl⟩ | ⟨tag, lines, rest, rfl, rfl⟩
    · rw [List.append_nil]
      exact .same name languages
    · exact .intoName name letters tag lines rest
  · rw [List.mem_append, not_or] at unblank
    rcases cell_eq_append unblank.2 listed otherListed cells with
      ⟨rfl, rfl⟩ | ⟨tag, lines, rest, rfl, rfl⟩
    · rw [List.append_nil]
      exact .same otherName others
    · exact .intoTag otherName letters tag lines rest

end Together

/-- A row that is read as another has its line. -/
theorem ReadAs.line_eq (reads : row.ReadAs other) : row.line false = other.line false := by
  rw [line_eq_cells, line_eq_cells]
  cases reads with
  | shifted continues full otherFull together =>
    rw [continues.padRight_append, Text.padRight_of_le full, Text.padRight_of_le otherFull,
      together.append_cell_eq, List.append_assoc]
  | @swallowed digits entry continues full short name languages more =>
    have otherCell : cell other.languages = LanguageCount.joined other.languages := if_neg more
    have padded : other.directory.padRight 16 = other.directory ++ [' '] := by
      rw [Text.padRight, short, List.replicate_one]
    have names : row.directory ++ cell row.languages =
        digits ++ (other.directory.padRight 16 ++ cell other.languages) :=
      calc row.directory ++ cell row.languages
        _ = row.directory ++ (entry.item ++ [',']) ++ ' ' :: cell other.languages := by
          rw [languages, cell_cons, LanguageCount.joined_cons more, otherCell,
            ← List.append_assoc row.directory]
        _ = digits ++ other.directory ++ ' ' :: cell other.languages := by rw [name]
        _ = digits ++ (other.directory.padRight 16 ++ cell other.languages) := by
          rw [padded, List.append_assoc, List.append_assoc, List.singleton_append]
    rw [continues.padRight_append, Text.padRight_of_le full, names]

variable (ordinary : row.Ordinary) (otherOrdinary : other.Ordinary)

include ordinary otherOrdinary

/-- Rows whose names do not fill their column are equal when their lines are. -/
theorem eq_of_short (short : row.directory.length < 16) (otherShort : other.directory.length < 16)
    (same : row.line false = other.line false) : row = other := by
  wlog order : (decimalText row.total).length ≤ (decimalText other.total).length
      generalizing row other
  · exact (this otherOrdinary ordinary otherShort short same.symm (by omega)).symm
  rw [line_eq_cells, line_eq_cells] at same
  obtain ⟨digits, continues, names⟩ := exists_continues order same
  rw [Text.padRight_of_lt short, Text.padRight_of_lt otherShort, List.append_assoc,
    List.append_assoc, ← List.append_assoc digits] at names
  obtain ⟨name, blanks⟩ := Text.append_cons_inj ordinary.unblank
    (List.not_mem_append continues.unblank otherOrdinary.unblank) names
  obtain ⟨counts, cells⟩ := Text.blanks_append_inj (head?_cell ordinary.listed)
    (head?_cell otherOrdinary.listed) blanks
  have lengths := congrArg List.length name
  rw [List.length_append] at lengths
  obtain rfl : digits = [] := List.eq_nil_of_length_eq_zero (by omega)
  have total : row.total = other.total :=
    decimalText_injective (continues.total.trans (List.append_nil _)).symm
  have languages := cell_injective ordinary.listed otherOrdinary.listed cells
  obtain ⟨directory, count, list⟩ := row
  cases name
  cases total
  cases languages
  rfl

/-- Of two rows with the same line, the one with the shorter total is the other or is read as it. -/
theorem eq_or_readAs (order : (decimalText row.total).length ≤ (decimalText other.total).length)
    (same : row.line false = other.line false) : row = other ∨ row.ReadAs other := by
  by_cases short : row.directory.length < 16 ∧ other.directory.length < 16
  · exact .inl (eq_of_short ordinary otherOrdinary short.1 short.2 same)
  rw [line_eq_cells, line_eq_cells] at same
  obtain ⟨digits, continues, names⟩ := exists_continues order same
  have unblank := List.not_mem_append continues.unblank otherOrdinary.unblank
  right
  rcases Nat.lt_or_ge row.directory.length 16 with short | full
  · have otherFull : 16 ≤ other.directory.length := by omega
    rw [Text.padRight_of_lt short, Text.padRight_of_le otherFull, List.append_assoc,
      ← List.append_assoc digits] at names
    obtain ⟨between, longer, -⟩ := Text.exists_of_append_cons unblank names
    have lengths := congrArg List.length longer
    rw [List.length_append, List.length_append] at lengths
    omega
  · rw [Text.padRight_of_le full] at names
    rcases Nat.lt_or_ge other.directory.length 16 with otherShort | otherFull
    · rw [Text.padRight_of_lt otherShort, List.append_assoc, ← List.append_assoc digits] at names
      obtain ⟨between, name, cells⟩ := Text.exists_of_append_cons ordinary.unblank names.symm
      rw [name, List.mem_append, not_or] at unblank
      obtain ⟨entry, languages, more, rfl, count⟩ := exists_item_of_cell unblank.2
        ordinary.listed otherOrdinary.listed cells
      exact .swallowed continues full (by omega) name languages more
    · rw [Text.padRight_of_le otherFull, ← List.append_assoc] at names
      exact .shifted continues full otherFull (runTogether_of_eq ordinary.unblank unblank
        ordinary.listed otherOrdinary.listed names)

/-- Two rows whose names have no blank and whose languages are known from the start have the same
line exactly when they are equal or one of them is read as the other. -/
theorem line_eq_iff :
    row.line false = other.line false ↔ row = other ∨ row.ReadAs other ∨ other.ReadAs row := by
  constructor
  · intro same
    rcases Nat.le_total (decimalText row.total).length (decimalText other.total).length with
      order | order
    · exact (eq_or_readAs ordinary otherOrdinary order same).imp_right .inl
    · exact (eq_or_readAs otherOrdinary ordinary order same.symm).imp Eq.symm .inr
  · rintro (rfl | reads | reads)
    · rfl
    · exact reads.line_eq
    · exact reads.line_eq.symm

end Lines

/-- Digits at the front of a name and a whole language at its end can be read in two ways. -/
theorem line_eq_of_swallowed :
    let row : DirectoryRow :=
      ⟨"99999aaaaaaaaaaa".toList, 12345678, [⟨"c".toList, 0⟩, ⟨"py".toList, 3⟩]⟩
    let other : DirectoryRow := ⟨"aaaaaaaaaaac=0,".toList, 1234567899999, [⟨"py".toList, 3⟩]⟩
    row.Ordinary ∧ other.Ordinary ∧ row.ReadAs other ∧ row.line false = other.line false := by
  intro row other
  have ordinary : row.Ordinary := ⟨by decide, by decide +kernel⟩
  have otherOrdinary : other.Ordinary := ⟨by decide, by decide +kernel⟩
  have continues : row.Continues other "99999".toList := ⟨by decide +kernel, fun _ => by decide⟩
  have reads : row.ReadAs other := .swallowed continues (by decide) (by decide)
    (by decide +kernel) rfl (List.cons_ne_nil _ _)
  exact ⟨ordinary, otherOrdinary, reads,
    (line_eq_iff ordinary otherOrdinary).mpr (.inr (.inl reads))⟩

/-- The line of a row does not say where a name that fills its column ends. -/
theorem line_not_injective :
    let row : DirectoryRow := ⟨"aaaaaaaaaaaaaaaa".toList, 5, [⟨"sh".toList, 5⟩]⟩
    let other : DirectoryRow := ⟨"aaaaaaaaaaaaaaaas".toList, 5, [⟨"h".toList, 5⟩]⟩
    (row.directory ≠ [] ∧ row.directory.any isBlankChar = false ∧ Listed row.languages) ∧
      (other.directory ≠ [] ∧ other.directory.any isBlankChar = false ∧ Listed other.languages) ∧
      row.line false = other.line false ∧ row ≠ other := by
  decide +kernel

end DirectoryRow

end LineCensus
