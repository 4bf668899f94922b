import LineCensus.Report.Structured
import LineCensus.Proofs.Json.RoundTrip

/-!
# Reading JSON reports

The tables of a report are its rows and its total, without the shares and the estimate, which are
doubles. They are read from a document by the names of the members, and each name must occur once.

A JSON report is one JSON value from which the tables of the report are had back, whatever the names
and the doubles are (`Report.exists_document_structured`).
-/
namespace LineCensus

namespace Document

/-- The value of the only member of an object with the given key. -/
def member? (key : Text) : Document → Option Document
  | object members =>
    match members.filter fun entry => entry.1 = key with
    | [(_, found)] => some found
    | _ => none
  | _ => none

/-- The text of a string. -/
def text? : Document → Option Text
  | string text => some text
  | _ => none

/-- The natural number that a number is. -/
def natural? : Document → Option Nat
  | number false decimal => decimal.whole?
  | _ => none

/-- The items of an array, each of them read. -/
def list? {α : Type} (item? : Document → Option α) : Document → Option (List α)
  | array items => items.mapM item?
  | _ => none

/-- A string is had back from what is written of it. -/
theorem text?_string (text : Text) : (Json.string text).document.text? = some text := rfl

/-- A natural number is had back from what is written of it. -/
theorem natural?_natural (number : Nat) :
    (Json.natural number).document.natural? = some number := Decimal.whole?_normal number

/-- A list is had back from what is written of its items, as far as each item is. -/
theorem list?_array {α β : Type} {item? : Document → Option β} {toJson : α → Json} (view : α → β)
    (back : ∀ item, item? (toJson item).document = some (view item)) (items : List α) :
    list? item? (Json.array (items.map toJson)).document = some (items.map view) := by
  rw [Json.document, Json.documents_eq_map, list?]
  induction items with
  | nil => rfl
  | cons first others step =>
    simp only [List.map_cons, List.mapM_cons, back, step, bind, Option.bind, pure]

end Document

namespace LanguageCount

/-- The language that a document has with its lines. -/
def ofDocument? (document : Document) : Option LanguageCount :=
  (document.member? "language".toList).bind fun language =>
    (document.member? "lines".toList).bind fun lines =>
      language.text?.bind fun text => lines.natural?.map fun number => ⟨text, number⟩

/-- A language is had back from an object with its members, whatever else it has. -/
theorem ofDocument?_eq_some {document : Document} {text : Text} {number : Nat}
    (language : document.member? "language".toList = some (Json.string text).document)
    (lines : document.member? "lines".toList = some (Json.natural number).document) :
    ofDocument? document = some ⟨text, number⟩ := by
  rw [ofDocument?, language, lines, Option.bind_some, Option.bind_some, Document.text?_string,
    Document.natural?_natural]
  rfl

/-- A language of a directory is had back. -/
theorem ofDocument?_toJson (entry : LanguageCount) :
    ofDocument? entry.toJson.document = some entry := ofDocument?_eq_some rfl rfl

end LanguageCount

namespace DirectoryRow

/-- The row of a directory that a document has. -/
def ofDocument? (document : Document) : Option DirectoryRow :=
  (document.member? "directory".toList).bind fun directory =>
    (document.member? "total".toList).bind fun total =>
      (document.member? "languages".toList).bind fun languages =>
        directory.text?.bind fun text =>
          total.natural?.bind fun number =>
            (languages.list? LanguageCount.ofDocument?).map fun entries => ⟨text, number, entries⟩

/-- The row of a directory is had back. -/
theorem ofDocument?_toJson (row : DirectoryRow) :
    ofDocument? row.toJson.document = some row := by
  have directory : row.toJson.document.member? "directory".toList =
      some (Json.string row.directory).document := rfl
  have total : row.toJson.document.member? "total".toList =
      some (Json.natural row.total).document := rfl
  have languages : row.toJson.document.member? "languages".toList =
      some (Json.array (row.languages.map LanguageCount.toJson)).document := rfl
  rw [ofDocument?, directory, total, languages, Option.bind_some, Option.bind_some,
    Option.bind_some, Document.text?_string, Document.natural?_natural,
    Document.list?_array id LanguageCount.ofDocument?_toJson, List.map_id]
  rfl

end DirectoryRow

namespace LanguageRow

/-- The row of a language without its share. -/
def count (row : LanguageRow) : LanguageCount := ⟨row.language, row.lines⟩

/-- The row of a language is had back without its share. -/
theorem ofDocument?_toJson (row : LanguageRow) :
    LanguageCount.ofDocument? row.toJson.document = some row.count :=
  LanguageCount.ofDocument?_eq_some rfl rfl

end LanguageRow

namespace Report

/-- What a report says of lines: its rows and its total. -/
structure Tables where
  /-- The rows of the directories. -/
  directories : List DirectoryRow
  /-- The languages of all directories with their lines. -/
  languages : List LanguageCount
  /-- The lines of all directories. -/
  totalLines : Nat
  deriving DecidableEq, Repr

/-- The tables of a report. -/
def tables (report : Report) : Tables :=
  ⟨report.directories, report.languages.map LanguageRow.count, report.totalLines⟩

/-- The tables that a document has. -/
def Tables.ofDocument? (document : Document) : Option Tables :=
  (document.member? "directories".toList).bind fun directories =>
    (document.member? "languages".toList).bind fun languages =>
      (document.member? "total_sloc".toList).bind fun total =>
        (directories.list? DirectoryRow.ofDocument?).bind fun rows =>
          (languages.list? LanguageCount.ofDocument?).bind fun counts =>
            total.natural?.map fun number => ⟨rows, counts, number⟩

/-- The tables of a report are had back. -/
theorem ofDocument?_toJson (report : Report) :
    Tables.ofDocument? report.toJson.document = some report.tables := by
  have directories : report.toJson.document.member? "directories".toList =
      some (Json.array (report.directories.map DirectoryRow.toJson)).document := rfl
  have languages : report.toJson.document.member? "languages".toList =
      some (Json.array (report.languages.map LanguageRow.toJson)).document := rfl
  have total : report.toJson.document.member? "total_sloc".toList =
      some (Json.natural report.totalLines).document := rfl
  rw [Tables.ofDocument?, directories, languages, total, Option.bind_some, Option.bind_some,
    Option.bind_some, Document.list?_array id DirectoryRow.ofDocument?_toJson,
    Document.list?_array LanguageRow.count LanguageRow.ofDocument?_toJson, List.map_id,
    Document.natural?_natural]
  rfl

/-- A JSON report is one JSON value from which the tables of the report are had back, so reports
with the same text have the same tables. -/
theorem exists_document_structured (report : Report) :
    ∃ document,
      Document.read? report.structured = some document ∧
        Tables.ofDocument? document = some report.tables ∧
        ∀ other : Report, other.structured = report.structured → other.tables = report.tables := by
  refine ⟨report.toJson.document, report.toJson.read?_text, report.ofDocument?_toJson, ?_⟩
  intro other same
  have read : some other.toJson.document = some report.toJson.document := by
    rw [← Json.read?_text, ← Json.read?_text]
    exact congrArg Document.read? same
  have back := other.ofDocument?_toJson
  rw [Option.some.inj read, report.ofDocument?_toJson] at back
  exact (Option.some.inj back).symm

/-- A report whose names hold quotes, a backslash, a control character and a character above
U+FFFF, with one value for all its doubles. -/
def oddlyNamed (double : Float) : Report where
  directories := [⟨"a \x22quoted\x22 \\ name".toList, 3, [⟨['\u0001', Char.ofNat 0x1F980], 3⟩]⟩,
    ⟨[], 0, []⟩]
  languages := [⟨['\u0001', Char.ofNat 0x1F980], 3, double⟩]
  totalLines := 3
  estimate := ⟨double, double, double, double⟩

/-- Odd names are had back, and it makes no difference whether a double is infinite or not a
number. -/
theorem exists_document_oddlyNamed :
    (∃ document,
      Document.read? (oddlyNamed (0.0 / 0.0)).structured = some document ∧
        Tables.ofDocument? document = some (oddlyNamed (0.0 / 0.0)).tables) ∧
      (oddlyNamed (1.0 / 0.0)).structured = (oddlyNamed (0.0 / 0.0)).structured ∧
      (oddlyNamed (1.0 / 0.0)).tables = (oddlyNamed (0.0 / 0.0)).tables := by
  have same : (oddlyNamed (1.0 / 0.0)).structured = (oddlyNamed (0.0 / 0.0)).structured := by
    decide +kernel
  obtain ⟨document, read, back, unique⟩ := exists_document_structured (oddlyNamed (0.0 / 0.0))
  exact ⟨⟨document, read, back⟩, same, unique (oddlyNamed (1.0 / 0.0)) same⟩

end Report

end LineCensus
