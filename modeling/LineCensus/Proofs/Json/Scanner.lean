import LineCensus.Proofs.Json.Document
import LineCensus.Proofs.Json.Numeral

/-!
# Reading JSON from text

A text is scanned character by character for tokens. Between them stand blanks. A string lies
between quotes, with its escapes replaced by the characters that they stand for; it may not
hold a control character. Any other run of characters up to a blank, a quote or a punctuation
mark is a word, which is a numeral or the name of a value.

What is written of a string is scanned to that string (`Scanner.scans_quote`), and a word to the
token that it stands for, when it is followed by the end of the text or by a character that ends
words (`Scanner.scans_word`).
-/
namespace LineCensus

/-- Where the scanner stands. -/
inductive Scanner where
  /-- Between two tokens. -/
  | between
  /-- In a word, after the given characters. -/
  | word (run : Text)
  /-- In a string, after the given characters. -/
  | inside (run : Text)
  /-- In a string, after a backslash. -/
  | escape (run : Text)
  /-- In a string, between the hexadecimal digits of a code unit, perhaps after a leading
  surrogate. -/
  | code (run : Text) (lead : Option Nat) (digits : List Nat)
  /-- In a string, after a leading surrogate. -/
  | trail (run : Text) (lead : Nat)
  /-- In a string, after a leading surrogate and a backslash. -/
  | trailEscape (run : Text) (lead : Nat)

namespace Scanner

/-- The blanks between tokens. -/
def layout : List Char := [' ', '\t', '\n', '\r']

/-- The token that a punctuation mark is. -/
def punctuation? : Char → Option JsonToken
  | '[' => some .openArray
  | ']' => some .closeArray
  | '\x7b' => some .openObject
  | '\x7d' => some .closeObject
  | ',' => some .comma
  | ':' => some .colon
  | _ => none

/-- A character does not belong to a word before it. -/
def endsWord (char : Char) : Bool :=
  layout.contains char || char = '\x22' || (punctuation? char).isSome

/-- The token that a word stands for. -/
def ofWord? (word : Text) : Option JsonToken :=
  match Numeral.read? word with
  | some (negative, decimal) => some (.number negative decimal)
  | none =>
    if word = "null".toList then some .null
    else if word = "true".toList then some (.boolean true)
    else if word = "false".toList then some (.boolean false)
    else none

/-- The character that a character after a backslash stands for. -/
def ofEscape? : Char → Option Char
  | '\x22' => some '\x22'
  | '\\' => some '\\'
  | '/' => some '/'
  | 'b' => some '\u0008'
  | 'f' => some '\u000C'
  | 'n' => some '\n'
  | 'r' => some '\r'
  | 't' => some '\t'
  | _ => none

/-- The number that a hexadecimal digit stands for. -/
def hexValue? (char : Char) : Option Nat :=
  if '0' ≤ char ∧ char ≤ '9' then some (char.toNat - 48)
  else if 'a' ≤ char ∧ char ≤ 'f' then some (char.toNat - 87)
  else if 'A' ≤ char ∧ char ≤ 'F' then some (char.toNat - 55)
  else none

/-- Takes a code unit inside a string. A leading surrogate makes one character with the trailing
surrogate after it, and neither may stand alone. -/
def takeUnit? (run : Text) (lead : Option Nat) (unit : Nat) : Option Scanner :=
  let trails := 0xDC00 ≤ unit ∧ unit ≤ 0xDFFF
  match lead with
  | none =>
    if 0xD800 ≤ unit ∧ unit ≤ 0xDBFF then some (trail run unit)
    else if trails then none
    else some (inside (run ++ [Char.ofNat unit]))
  | some lead =>
    if trails then
      some (inside
        (run ++ [Char.ofNat (0x10000 + (lead - 0xD800) * 0x400 + (unit - 0xDC00))]))
    else none

/-- Takes a character that does not belong to the token before it. -/
def start (char : Char) : Scanner × List JsonToken :=
  if layout.contains char then (between, [])
  else if char = '\x22' then (inside [], [])
  else match punctuation? char with
    | some token => (between, [token])
    | none => (word [char], [])

/-- Takes a character, and gives the tokens that end with it or before it. -/
def step? : Scanner → Char → Option (Scanner × List JsonToken)
  | between, char => some (start char)
  | word run, char =>
    if endsWord char then
      (ofWord? run).map fun token => ((start char).1, token :: (start char).2)
    else some (word (run ++ [char]), [])
  | inside run, char =>
    if char = '\x22' then some (between, [.string run])
    else if char = '\\' then some (escape run, [])
    else if char.toNat < 0x20 then none
    else some (inside (run ++ [char]), [])
  | escape run, char =>
    if char = 'u' then some (code run none [], [])
    else (ofEscape? char).map fun meant => (inside (run ++ [meant]), [])
  | code run lead [first, second, third], char =>
    (hexValue? char).bind fun fourth =>
      (takeUnit? run lead (16 * (16 * (16 * first + second) + third) + fourth)).map fun next =>
        (next, [])
  | code run lead digits, char =>
    (hexValue? char).map fun digit => (code run lead (digits ++ [digit]), [])
  | trail run lead, char => if char = '\\' then some (trailEscape run lead, []) else none
  | trailEscape run lead, char => if char = 'u' then some (code run (some lead) [], []) else none

/-- The tokens that end with the text. -/
def end? : Scanner → Option (List JsonToken)
  | between => some []
  | word run => (ofWord? run).map fun token => [token]
  | _ => none

/-- The tokens of a text from where the scanner stands. -/
def scan (scanner : Scanner) : Text → Option (List JsonToken)
  | [] => scanner.end?
  | char :: rest =>
    (scanner.step? char).bind fun taken => (taken.1.scan rest).map fun later => taken.2 ++ later

end Scanner

/-- The document that a text is read to. -/
def Document.read? (text : Text) : Option Document :=
  (Scanner.between.scan text).bind Document.ofTokens?

namespace Scanner

variable {scanner next : Scanner} {char : Char} {token : JsonToken} {rest : Text}

/-- What is scanned after a character. -/
theorem scan_cons {tokens : List JsonToken} (taken : scanner.step? char = some (next, tokens))
    (rest : Text) :
    scanner.scan (char :: rest) = (next.scan rest).map fun later => tokens ++ later := by
  rw [scan, taken, Option.bind_some]

/-- A character that does not end a token is passed over. -/
theorem scan_cons_silent (taken : scanner.step? char = some (next, [])) (rest : Text) :
    scanner.scan (char :: rest) = next.scan rest := by
  have nothing : (fun later : List JsonToken => [] ++ later) = id := rfl
  rw [scan_cons taken, nothing, Option.map_id_apply]

/-- A text in front of another one is scanned to tokens, wherever the other one leads. -/
def Scans (text : Text) (tokens : List JsonToken) (rest : Text) : Prop :=
  between.scan (text ++ rest) = (between.scan rest).map fun later => tokens ++ later

/-- What is scanned to tokens one after the other is scanned to all of them. -/
theorem Scans.append {first second : Text} {before after : List JsonToken}
    (one : Scans first before (second ++ rest)) (two : Scans second after rest) :
    Scans (first ++ second) (before ++ after) rest := by
  unfold Scans at one two ⊢
  rw [List.append_assoc, one, two, Option.map_map]
  simp only [Function.comp_def, List.append_assoc]

/-- What has no tokens may follow. -/
theorem Scans.append_silent {first second : Text} {tokens : List JsonToken}
    (one : Scans first tokens (second ++ rest)) (two : Scans second [] rest) :
    Scans (first ++ second) tokens rest := by
  have both := one.append two
  rwa [List.append_nil] at both

/-- A blank between tokens is passed over. -/
theorem scans_layout (blank : layout.contains char = true) (rest : Text) :
    Scans [char] [] rest := by
  apply scan_cons
  simp only [step?, start, blank, if_true]

/-- A punctuation mark is a token. -/
theorem scans_punctuation (mark : punctuation? char = some token) (rest : Text) :
    Scans [char] [token] rest := by
  have others : layout.contains char = false ∧ char ≠ '\x22' := by
    unfold punctuation? at mark
    split at mark <;> first | exact ⟨rfl, by decide⟩ | cases mark
  apply scan_cons
  simp only [step?, start, others.1, others.2, mark, if_false, Bool.false_eq_true]

/-- The line break before a value is passed over with the blanks after it. -/
theorem scans_newLine (level : Nat) (rest : Text) : Scans (Json.newLine level) [] rest := by
  have blanks : ∀ count : Nat, Scans (List.replicate count ' ') [] rest := by
    intro count
    induction count with
    | zero => simp [Scans]
    | succ count step => exact (scans_layout rfl _).append step
  exact (scans_layout rfl _).append (blanks (2 * level))

/-- The digit of a number below sixteen stands for it. -/
theorem hexValue?_hexDigit {number : Nat} (small : number < 16) :
    hexValue? (Json.hexDigit number) = some number := by
  have each : ∀ number, number < 16 → hexValue? (Json.hexDigit number) = some number := by decide
  exact each number small

/-- Four hexadecimal digits after a backslash and a letter are a code unit. -/
theorem scan_code {run : Text} {first second third fourth : Nat} (firstSmall : first < 16)
    (secondSmall : second < 16) (thirdSmall : third < 16) (fourthSmall : fourth < 16)
    (taken : takeUnit? run none (16 * (16 * (16 * first + second) + third) + fourth) = some next)
    (rest : Text) :
    (inside run).scan ('\\' :: 'u' :: Json.hexDigit first :: Json.hexDigit second ::
      Json.hexDigit third :: Json.hexDigit fourth :: rest) = next.scan rest := by
  have opened : (inside run).step? '\\' = some (escape run, []) := rfl
  have marked : (escape run).step? 'u' = some (code run none [], []) := rfl
  have one : (code run none []).step? (Json.hexDigit first) =
      some (code run none [first], []) := by
    simp only [step?, hexValue?_hexDigit firstSmall, Option.map_some, List.nil_append]
  have two : (code run none [first]).step? (Json.hexDigit second) =
      some (code run none [first, second], []) := by
    simp only [step?, hexValue?_hexDigit secondSmall, Option.map_some, List.singleton_append]
  have three : (code run none [first, second]).step? (Json.hexDigit third) =
      some (code run none [first, second, third], []) := by
    simp only [step?, hexValue?_hexDigit thirdSmall, Option.map_some, List.cons_append,
      List.nil_append]
  have four : (code run none [first, second, third]).step? (Json.hexDigit fourth) =
      some (next, []) := by
    simp only [step?, hexValue?_hexDigit fourthSmall, Option.bind_some, taken, Option.map_some]
  rw [scan_cons_silent opened, scan_cons_silent marked, scan_cons_silent one, scan_cons_silent two,
    scan_cons_silent three, scan_cons_silent four]

/-- A letter after a backslash that is not a code unit stands for a character. -/
theorem scan_escape {mark : Char} (run : Text) (other : mark ≠ 'u')
    (meant : ofEscape? mark = some char) (rest : Text) :
    (inside run).scan ('\\' :: mark :: rest) = (inside (run ++ [char])).scan rest := by
  have opened : (inside run).step? '\\' = some (escape run, []) := rfl
  have closed : (escape run).step? mark = some (inside (run ++ [char]), []) := by
    simp only [step?, other, meant, if_false, Option.map_some]
  rw [scan_cons_silent opened, scan_cons_silent closed]

/-- What is written of a character inside a string: a letter after a backslash, a code unit, or the
character. -/
theorem escapeChar_cases (char : Char) :
    (∃ mark, mark ≠ 'u' ∧ ofEscape? mark = some char ∧ Json.escapeChar char = ['\\', mark]) ∨
      (char.toNat < 0x20 ∧ Json.escapeChar char =
        ['\\', 'u', '0', '0', Json.hexDigit (char.toNat / 16), Json.hexDigit (char.toNat % 16)]) ∨
      (char ≠ '\x22' ∧ char ≠ '\\' ∧ ¬ char.toNat < 0x20 ∧ Json.escapeChar char = [char]) := by
  unfold Json.escapeChar
  split
  · next same => exact Or.inl ⟨'\x22', by decide, by rw [same]; rfl, rfl⟩
  split
  · next same => exact Or.inl ⟨'\\', by decide, by rw [same]; rfl, rfl⟩
  split
  · next same => exact Or.inl ⟨'b', by decide, by rw [same]; rfl, rfl⟩
  split
  · next same => exact Or.inl ⟨'f', by decide, by rw [same]; rfl, rfl⟩
  split
  · next same => exact Or.inl ⟨'n', by decide, by rw [same]; rfl, rfl⟩
  split
  · next same => exact Or.inl ⟨'r', by decide, by rw [same]; rfl, rfl⟩
  split
  · next same => exact Or.inl ⟨'t', by decide, by rw [same]; rfl, rfl⟩
  split
  · next control => exact Or.inr (Or.inl ⟨control, rfl⟩)
  · next quote backslash _ _ _ _ _ plain =>
    exact Or.inr (Or.inr ⟨quote, backslash, plain, rfl⟩)

/-- The written form of a character inside a string is scanned to that character. -/
theorem scan_escapeChar (run : Text) (char : Char) (rest : Text) :
    (inside run).scan (Json.escapeChar char ++ rest) = (inside (run ++ [char])).scan rest := by
  obtain ⟨mark, other, meant, written⟩ | ⟨control, written⟩ | ⟨quote, backslash, plain, written⟩ :=
    escapeChar_cases char
  · rw [written]
    exact scan_escape run other meant rest
  · have unit : 16 * (16 * (16 * 0 + 0) + char.toNat / 16) + char.toNat % 16 = char.toNat := by
      omega
    have taken : takeUnit? run none (16 * (16 * (16 * 0 + 0) + char.toNat / 16) + char.toNat % 16) =
        some (inside (run ++ [char])) := by
      rw [unit, takeUnit?]
      simp only [Char.ofNat_toNat]
      rw [if_neg (by omega), if_neg (by omega)]
    rw [written]
    exact scan_code (by decide) (by decide) (by omega) (by omega) taken rest
  · have taken : (inside run).step? char = some (inside (run ++ [char]), []) := by
      simp only [step?, quote, backslash, plain, if_false]
    rw [written]
    exact scan_cons_silent taken rest

/-- The characters inside a string are scanned one after another. -/
theorem scan_escaped (run text : Text) (rest : Text) :
    (inside run).scan (text.flatMap Json.escapeChar ++ rest) =
      (inside (run ++ text)).scan rest := by
  induction text generalizing run with
  | nil => simp
  | cons char others step =>
    rw [List.flatMap_cons, List.append_assoc, scan_escapeChar, step, List.append_assoc,
      List.singleton_append]

/-- The written form of a string is scanned to that string. -/
theorem scans_quote (text rest : Text) : Scans (Json.quote text) [.string text] rest := by
  have opened : between.step? '\x22' = some (inside [], []) := rfl
  have closed : (inside text).step? '\x22' = some (between, [.string text]) := rfl
  unfold Scans
  rw [Json.quote, List.append_assoc, List.cons_append, scan_cons_silent opened, scan_escaped,
    List.nil_append, List.singleton_append, scan_cons closed]

/-- A string may also be written with code units, where two surrogates make one character. -/
example : between.scan "\x22\\ud83e\\udd80\\/\x22".toList =
    some [.string [Char.ofNat 0x1F980, '/']] := rfl

/-- What follows a token: nothing, or a character that does not belong to a word before it. -/
def Ends (rest : Text) : Prop := ∀ char ∈ rest.head?, endsWord char = true

/-- A word stands for a token. -/
structure Stands (word : Text) (token : JsonToken) : Prop where
  /-- It has a character. -/
  ne_nil : word ≠ []
  /-- None of its characters ends words. -/
  plain : ∀ char ∈ word, endsWord char = false
  /-- It is read to the token. -/
  read : ofWord? word = some token

/-- The characters of a word are scanned one after another. -/
theorem scan_run (run word : Text) (plain : ∀ char ∈ word, endsWord char = false) (rest : Text) :
    (Scanner.word run).scan (word ++ rest) = (Scanner.word (run ++ word)).scan rest := by
  induction word generalizing run with
  | nil => simp
  | cons char others step =>
    have taken : (Scanner.word run).step? char = some (Scanner.word (run ++ [char]), []) := by
      simp only [step?, plain char (List.mem_cons_self ..), Bool.false_eq_true, if_false]
    rw [List.cons_append, scan_cons_silent taken,
      step _ fun later member => plain later (List.mem_cons_of_mem char member),
      List.append_assoc, List.singleton_append]

/-- A word ends where another character follows that does not belong to it. -/
theorem scan_run_end {run : Text} (read : ofWord? run = some token) (ends : Ends rest) :
    (Scanner.word run).scan rest = (between.scan rest).map fun later => token :: later := by
  cases rest with
  | nil => simp only [scan, end?, read, Option.map_some]
  | cons char others =>
    have closed : (Scanner.word run).step? char =
        some ((start char).1, token :: (start char).2) := by
      simp only [step?, ends char rfl, if_true, read, Option.map_some]
    have opened : between.step? char = some ((start char).1, (start char).2) := rfl
    rw [scan_cons closed, scan_cons opened, Option.map_map]
    rfl

/-- A word is scanned to the token that it stands for. -/
theorem scans_word {word : Text} (stands : Stands word token) (ends : Ends rest) :
    Scans word [token] rest := by
  obtain ⟨given, plain, read⟩ := stands
  cases word with
  | nil => exact absurd rfl given
  | cons first others =>
    have taken : between.step? first = some (Scanner.word [first], []) := by
      have inner := plain first (List.mem_cons_self ..)
      simp only [endsWord, Bool.or_eq_false_iff, decide_eq_false_iff_not,
        Option.isSome_eq_false_iff, Option.isNone_iff_eq_none] at inner
      simp only [step?, start, inner.1.1, inner.1.2, inner.2, if_false, Bool.false_eq_true]
    unfold Scans
    rw [List.cons_append, scan_cons_silent taken,
      scan_run _ _ fun char member => plain char (List.mem_cons_of_mem first member)]
    exact scan_run_end read ends

/-- No character of a numeral ends words. -/
theorem endsWord_of_isPart (part : Numeral.isPart char = true) : endsWord char = false := by
  cases ends : endsWord char with
  | false => rfl
  | true =>
    simp only [endsWord, layout, List.contains_eq_mem, List.mem_cons, List.not_mem_nil, or_false,
      Bool.or_eq_true, decide_eq_true_eq] at ends
    rcases ends with ((rfl | rfl | rfl | rfl) | rfl) | mark
    · cases part
    · cases part
    · cases part
    · cases part
    · cases part
    · unfold punctuation? at mark
      split at mark <;> first | cases part | cases mark

/-- A numeral stands for the normal form of its decimal. -/
theorem stands_numeral (numeral : Numeral) :
    Stands numeral.text (.number false numeral.decimal.normal) where
  ne_nil := by
    obtain ⟨first, rest, same, -⟩ := numeral.exists_text_eq_cons
    rw [same]
    exact List.cons_ne_nil first rest
  plain := fun _ member => endsWord_of_isPart (Numeral.isPart_of_mem_text member)
  read := by rw [ofWord?, numeral.read?_text]

/-- A numeral after a sign stands for the normal form of its decimal, with the sign. -/
theorem stands_negative (numeral : Numeral) :
    Stands ('-' :: numeral.text) (.number true numeral.decimal.normal) where
  ne_nil := List.cons_ne_nil _ _
  plain := by
    intro char member
    rcases List.mem_cons.mp member with rfl | later
    · rfl
    · exact endsWord_of_isPart (Numeral.isPart_of_mem_text later)
  read := by rw [ofWord?, numeral.read?_negative]

end Scanner

end LineCensus
