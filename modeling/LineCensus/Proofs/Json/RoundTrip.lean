import LineCensus.Proofs.Json.Scanner

/-!
# Reading back what is written

A JSON value is read from its written form to one document (`Json.read?_text`), which has the same
strings, whole numbers and truth values in the same arrangement. A double is read to the decimal
that was written for it, and to null when it is not a number or infinite. So the layout of the
written form carries nothing, and a value can be told from its text up to its doubles.
-/
namespace LineCensus

/-- The document that a double is read back to. -/
def Document.ofDouble : Double → Document
  | .nan => .null
  | .infinite _ => .null
  | .finite negative magnitude =>
    .number negative (if magnitude.mantissa = 0 then ⟨0, 0⟩ else magnitude.shortest)

namespace Json

mutual

/-- The document that a value is read back to. -/
def document : Json → Document
  | null => .null
  | boolean value => .boolean value
  | natural value => .number false (Decimal.normal ⟨value, 0⟩)
  | real value => .ofDouble (Double.ofFloat value)
  | string value => .string value
  | array items => .array (documents items)
  | object members => .object (memberDocuments members)

/-- The documents that items are read back to. -/
def documents : List Json → List Document
  | [] => []
  | item :: others => item.document :: documents others

/-- The members that members are read back to. -/
def memberDocuments : List (Text × Json) → List (Text × Document)
  | [] => []
  | (key, value) :: others => (key, value.document) :: memberDocuments others

end

/-- Each item is read back by itself. -/
theorem documents_eq_map (items : List Json) : documents items = items.map document := by
  induction items with
  | nil => rw [documents, List.map_nil]
  | cons item others step => rw [documents, step, List.map_cons]

end Json

namespace Scanner

variable {rest : Text}

/-- A word is plain when the search for a character that ends words fails. -/
theorem plain_of_any {word : Text} (failed : word.any endsWord = false) :
    ∀ char ∈ word, endsWord char = false := by
  intro char member
  simpa using List.any_eq_false.mp failed char member

/-- The name of the null value stands for it. -/
theorem stands_null : Stands "null".toList .null := ⟨by decide, plain_of_any rfl, rfl⟩

/-- The names of the truth values stand for them. -/
theorem stands_boolean (value : Bool) :
    Stands (if value then "true".toList else "false".toList) (.boolean value) := by
  cases value with
  | true => exact ⟨by decide, plain_of_any rfl, rfl⟩
  | false => exact ⟨by decide, plain_of_any rfl, rfl⟩

/-- The digits of a natural number stand for it. -/
theorem stands_natural (number : Nat) :
    Stands (decimalText number) (.number false (Decimal.normal ⟨number, 0⟩)) := by
  rw [← Numeral.text_ofNatural, ← Numeral.decimal_ofNatural]
  exact stands_numeral (Numeral.ofNatural number)

/-- A numeral stands for its number with a sign or without. -/
theorem stands_signed (negative : Bool) (numeral : Numeral) :
    Stands ((if negative then ['-'] else []) ++ numeral.text)
      (.number negative numeral.decimal.normal) := by
  cases negative with
  | true => exact stands_negative numeral
  | false => exact stands_numeral numeral

/-- What is written of a magnitude is a numeral for it. -/
theorem exists_magnitude (magnitude : Binary) :
    ∃ numeral : Numeral,
      (if magnitude.mantissa = 0 then "0.0".toList
        else Json.decimalForm Json.pointRange magnitude.shortest) = numeral.text ∧
      numeral.decimal.normal =
        if magnitude.mantissa = 0 then ⟨0, 0⟩ else magnitude.shortest := by
  split
  · next zero =>
    refine ⟨⟨['0'], ['0'], none, by decide, by simp, Or.inr rfl, by simp⟩, rfl, ?_⟩
    decide
  · next given =>
    have positive := Nat.pos_of_ne_zero given
    obtain ⟨numeral, written, value⟩ :=
      Numeral.exists_decimalForm Json.pointRange (Binary.digits_shortest_pos positive)
    exact ⟨numeral, written, by rw [value, Binary.normal_shortest positive]⟩

/-- What is written of a double stands for what it is read back to. -/
theorem stands_real (value : Float) :
    ∃ token, Stands (Json.realText value) token ∧
      (Document.ofDouble (Double.ofFloat value)).tokens = [token] := by
  unfold Json.realText
  cases Double.ofFloat value with
  | nan => exact ⟨.null, stands_null, rfl⟩
  | infinite negative => exact ⟨.null, stands_null, rfl⟩
  | finite negative magnitude =>
    obtain ⟨numeral, written, decimal⟩ := exists_magnitude magnitude
    dsimp only
    rw [written]
    refine ⟨_, stands_signed negative numeral, ?_⟩
    rw [decimal]
    rfl

/-- A line break ends words. -/
theorem ends_newLine (level : Nat) (rest : Text) : Ends (Json.newLine level ++ rest) := by
  intro char first
  cases first
  rfl

/-- A punctuation mark ends words. -/
theorem ends_punctuation {char : Char} (mark : (punctuation? char).isSome = true) (rest : Text) :
    Ends (char :: rest) := by
  intro first same
  cases same
  simp [endsWord, mark]

/-- What follows an item ends words. -/
theorem ends_renderItems (level : Nat) (ends : Ends rest) (items : List Json) :
    Ends (Json.renderItems level items ++ rest) := by
  cases items with
  | nil => exact ends
  | cons item others =>
    rw [Json.renderItems]
    exact ends_punctuation rfl _

/-- What follows a member ends words. -/
theorem ends_renderMembers (level : Nat) (ends : Ends rest) (members : List (Text × Json)) :
    Ends (Json.renderMembers level members ++ rest) := by
  rcases members with - | ⟨⟨key, value⟩, others⟩
  · exact ends
  · rw [Json.renderMembers]
    exact ends_punctuation rfl _

/-- A member is scanned to its key and then to the tokens of its value. -/
theorem scans_member (key : Text) {value : Text} {tokens : List JsonToken}
    (one : Scans value tokens rest) :
    Scans (Json.quote key ++ ':' :: ' ' :: value) (.string key :: .colon :: tokens) rest :=
  (scans_quote key _).append ((scans_punctuation rfl _).append ((scans_layout rfl _).append one))

/-- A punctuation mark at the end of a line is scanned to a token. -/
theorem scans_before_newLine (char : Char) {token : JsonToken}
    (mark : punctuation? char = some token) (level : Nat) (rest : Text) :
    Scans (char :: Json.newLine level) [token] rest :=
  (scans_punctuation mark _).append (scans_newLine level rest)

/-- A punctuation mark on a line of its own is scanned to a token. -/
theorem scans_after_newLine {text : Text} {tokens : List JsonToken} {level : Nat} (char : Char)
    {token : JsonToken} (mark : punctuation? char = some token)
    (one : Scans text tokens (Json.newLine level ++ ([char] ++ rest))) :
    Scans (text ++ Json.newLine level ++ [char]) (tokens ++ [token]) rest :=
  (one.append_silent (scans_newLine level _)).append (scans_punctuation mark rest)

mutual

/-- The written form of a value is scanned to the tokens of the document. -/
theorem scans_render (level : Nat) (rest : Text) (ends : Ends rest) : ∀ value : Json,
    Scans (value.render level) value.document.tokens rest
  | .null => scans_word stands_null ends
  | .boolean value => scans_word (stands_boolean value) ends
  | .natural value => scans_word (stands_natural value) ends
  | .real value => by
    obtain ⟨token, stands, tokens⟩ := stands_real value
    rw [Json.document, tokens]
    exact scans_word stands ends
  | .string value => scans_quote value rest
  | .array [] => (scans_punctuation rfl _).append (scans_punctuation rfl rest)
  | .object [] => (scans_punctuation rfl _).append (scans_punctuation rfl rest)
  | .array (first :: others) => by
    rw [Json.render, Json.document, Json.documents, Document.tokens]
    have ended := ends_newLine level ([']'] ++ rest)
    have value := scans_render (level + 1) _ (ends_renderItems (level + 1) ended others) first
    have later := scans_renderItems (level + 1) _ ended others
    exact scans_after_newLine ']' rfl
      (((scans_before_newLine '[' rfl (level + 1) _).append value).append later)
  | .object ((key, first) :: others) => by
    rw [Json.render, Json.document, Json.memberDocuments, Document.tokens]
    have ended := ends_newLine level (['\x7d'] ++ rest)
    have value := scans_render (level + 1) _ (ends_renderMembers (level + 1) ended others) first
    have later := scans_renderMembers (level + 1) _ ended others
    have begun := (scans_before_newLine '\x7b' rfl (level + 1) _).append (scans_member key value)
    rw [← List.append_assoc] at begun
    exact scans_after_newLine '\x7d' rfl (begun.append later)

/-- The written form of the items after the first is scanned to the tokens of their documents. -/
theorem scans_renderItems (level : Nat) (rest : Text) (ends : Ends rest) : ∀ items : List Json,
    Scans (Json.renderItems level items) (Document.laterItems (Json.documents items)) rest
  | [] => by simp [Scans, Json.renderItems, Json.documents, Document.laterItems]
  | item :: others => by
    rw [Json.renderItems, Json.documents, Document.laterItems]
    have value := scans_render level _ (ends_renderItems level ends others) item
    have later := scans_renderItems level rest ends others
    exact ((scans_before_newLine ',' rfl level _).append value).append later

/-- The written form of the members after the first is scanned to the tokens of their documents. -/
theorem scans_renderMembers (level : Nat) (rest : Text) (ends : Ends rest) :
    ∀ members : List (Text × Json),
      Scans (Json.renderMembers level members)
        (Document.laterMembers (Json.memberDocuments members)) rest
  | [] => by simp [Scans, Json.renderMembers, Json.memberDocuments, Document.laterMembers]
  | (key, value) :: others => by
    rw [Json.renderMembers, Json.memberDocuments, Document.laterMembers]
    have value := scans_render level _ (ends_renderMembers level ends others) value
    have later := scans_renderMembers level rest ends others
    have begun := (scans_before_newLine ',' rfl level _).append (scans_member key value)
    rw [← List.append_assoc] at begun
    exact begun.append later

end

end Scanner

/-- A value is read back from its written form. -/
theorem Json.read?_text (value : Json) : Document.read? value.text = some value.document := by
  have scanned := Scanner.scans_render 0 [] (fun _ first => nomatch first) value
  unfold Scanner.Scans at scanned
  rw [List.append_nil] at scanned
  unfold Document.read? Json.text
  rw [scanned, Scanner.scan, Scanner.end?, Option.map_some, List.append_nil, Option.bind_some]
  exact Document.ofTokens?_eq_some_iff.mpr rfl

end LineCensus
