import LineCensus.Text.Basic

/-!
# Texts as bytes

A text is written as the UTF-8 bytes of its characters, and bytes are read as a text without
ever failing: each longest run of bytes that begins a character and cannot be completed is
read as one replacement character. The reader takes one byte at a time and holds no more
than the unfinished character, so what it makes of a byte below 0x80 never depends on what
comes later: such a byte is always read as a character of its own
(`Utf8.Reader.step_of_ascii`).

The bytes of texts are compared like words in a dictionary, which orders texts by their
code points.
-/
namespace LineCensus

/-- Bytes in order. -/
abbrev Bytes := List UInt8

namespace Bytes

/-- Dictionary order of byte sequences: the first difference decides, and a sequence comes
before each of its continuations. -/
def atMost : Bytes → Bytes → Bool
  | [], _ => true
  | _ :: _, [] => false
  | left :: lefts, right :: rights =>
    if left = right then atMost lefts rights else left.toNat < right.toNat

end Bytes

namespace Text

/-- The UTF-8 bytes of a text. -/
def utf8 (text : Text) : Bytes := text.flatMap String.utf8EncodeChar

end Text

namespace Utf8

/-- The character that stands for bytes that are no character. -/
def replacement : Char := '\uFFFD'

/-- A character of which the leading bytes have been read. -/
structure Unfinished where
  /-- The bits read so far. -/
  code : Nat
  /-- The bytes still to come, at least one. -/
  missing : Nat
  /-- The least byte that may come next. -/
  least : Nat
  /-- The greatest byte that may come next. -/
  greatest : Nat
  deriving DecidableEq, Repr

/-- What a byte between two characters begins. -/
inductive Lead where
  /-- A character of one byte. -/
  | whole (char : Char)
  /-- A character of several bytes. -/
  | first (unfinished : Unfinished)
  /-- Nothing: no character begins with this byte. -/
  | stray

/-- The meaning of a byte between two characters. The narrower limits after four of the
bytes exclude longer spellings of short characters, surrogates, and codes past the last. -/
def Lead.ofByte (byte : Nat) : Lead :=
  if byte < 0x80 then .whole (Char.ofNat byte)
  else if byte < 0xC2 then .stray
  else if byte < 0xE0 then .first ⟨byte - 0xC0, 1, 0x80, 0xBF⟩
  else if byte = 0xE0 then .first ⟨0, 2, 0xA0, 0xBF⟩
  else if byte = 0xED then .first ⟨0xD, 2, 0x80, 0x9F⟩
  else if byte < 0xF0 then .first ⟨byte - 0xE0, 2, 0x80, 0xBF⟩
  else if byte = 0xF0 then .first ⟨0, 3, 0x90, 0xBF⟩
  else if byte < 0xF4 then .first ⟨byte - 0xF0, 3, 0x80, 0xBF⟩
  else if byte = 0xF4 then .first ⟨4, 3, 0x80, 0x8F⟩
  else .stray

/-- A reader of bytes: the characters read, last first, and the one being read. -/
structure Reader where
  /-- The characters read so far, in reverse order. -/
  chars : Text := []
  /-- The character being read. -/
  unfinished : Option Unfinished := none
  deriving DecidableEq, Repr

namespace Reader

/-- Reads a byte between two characters. -/
def start (chars : Text) (byte : Nat) : Reader :=
  match Lead.ofByte byte with
  | .whole char => ⟨char :: chars, none⟩
  | .first unfinished => ⟨chars, some unfinished⟩
  | .stray => ⟨replacement :: chars, none⟩

/-- Reads one byte. A byte that cannot go on with the unfinished character replaces it and is
read again between two characters. -/
def step (reader : Reader) (byte : UInt8) : Reader :=
  match reader.unfinished with
  | none => start reader.chars byte.toNat
  | some held =>
    if held.least ≤ byte.toNat ∧ byte.toNat ≤ held.greatest then
      let code := held.code * 64 + (byte.toNat - 0x80)
      if held.missing ≤ 1 then ⟨Char.ofNat code :: reader.chars, none⟩
      else ⟨reader.chars, some ⟨code, held.missing - 1, 0x80, 0xBF⟩⟩
    else start (replacement :: reader.chars) byte.toNat

/-- The text read, where the end of the bytes replaces an unfinished character. -/
def text (reader : Reader) : Text :=
  match reader.unfinished with
  | none => reader.chars.reverse
  | some _ => (replacement :: reader.chars).reverse

end Reader

/-- Reads bytes as a text. -/
def decode (bytes : Bytes) : Text := (bytes.foldl Reader.step {}).text

/-- The text that bytes spell. Bytes that would be replaced spell none. -/
def decode? (bytes : Bytes) : Option Text :=
  if (decode bytes).utf8 = bytes then some (decode bytes) else none

namespace Reader

/-- A byte below 0x80 is read as a character of its own, after the text that would have been
read without it. No limit of an unfinished character is below 0x80 when the reader began with
none. -/
theorem step_of_ascii {reader : Reader} {byte : UInt8} (ascii : byte.toNat < 0x80)
    (limit : ∀ held, reader.unfinished = some held → 0x80 ≤ held.least) :
    reader.step byte = ⟨Char.ofNat byte.toNat :: reader.text.reverse, none⟩ := by
  have whole (chars : Text) :
      start chars byte.toNat = ⟨Char.ofNat byte.toNat :: chars, none⟩ := by
    simp [start, Lead.ofByte, ascii]
  unfold step text
  split
  · rw [whole, List.reverse_reverse]
  · next held same =>
    have above := limit held same
    rw [if_neg (by omega), whole, List.reverse_reverse]

/-- Starting a character never lowers the limit of the next byte below 0x80. -/
theorem least_start (chars : Text) (byte : Nat) (held : Unfinished)
    (same : (start chars byte).unfinished = some held) : 0x80 ≤ held.least := by
  unfold start at same
  split at same
  · cases same
  · next begun lead =>
    cases same
    unfold Lead.ofByte at lead
    repeat' split at lead
    all_goals first
      | (injection lead with limits; subst limits; dsimp only; omega)
      | cases lead
  · cases same

/-- A byte keeps every limit at 0x80 or above. -/
theorem least_step {reader : Reader} {byte : UInt8} (held : Unfinished)
    (same : (reader.step byte).unfinished = some held) : 0x80 ≤ held.least := by
  unfold step at same
  split at same
  · exact least_start _ _ held same
  · split at same
    · split at same
      · cases same
      · injection same with limits
        subst limits
        dsimp only
        omega
    · exact least_start _ _ held same

/-- A reader that began with no character holds none with a limit below 0x80. -/
theorem least_foldl (bytes : Bytes) (held : Unfinished)
    (same : (bytes.foldl step {}).unfinished = some held) : 0x80 ≤ held.least := by
  rcases bytes.eq_nil_or_concat with rfl | ⟨front, byte, rfl⟩
  · cases same
  · rw [List.concat_eq_append, List.foldl_append] at same
    exact least_step held same

end Reader

end Utf8

end LineCensus
