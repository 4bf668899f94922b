import LineCensus.Text.Utf8

/-!
# Physical lines

A file is read in chunks, each up to and including a line feed. A chunk may still hold
several physical lines, because a carriage return ends a line too: the line feed at the end
of a chunk goes first, then one carriage return before it, and the carriage returns that
remain separate lines. Chunks are the same for bytes and for characters, since a line feed is
one byte.
-/
namespace LineCensus

/-- The chunks of a sequence, each up to and including an element that ends it. Nothing is
lost, no chunk is empty, and only the last may lack its end. -/
def chunks {α : Type} (ends : α → Bool) (items : List α) : List (List α) :=
  items.foldr (fun item later =>
    if ends item then [item] :: later
    else match later with
      | [] => [[item]]
      | chunk :: others => (item :: chunk) :: others) []

namespace Text

/-- A text without one given character at its end, when that is its last. -/
def dropLastChar (last : Char) (text : Text) : Text :=
  if text.getLast? = some last then text.dropLast else text

/-- The physical lines of one chunk. -/
def chunkLines (chunk : Text) : List Text :=
  pieces '\r' (dropLastChar '\r' (dropLastChar '\n' chunk))

/-- The physical lines of a text: those of its chunks. -/
def lines (text : Text) : List Text :=
  (chunks (· = '\n') text).flatMap chunkLines

end Text

namespace Bytes

/-- The physical lines of a file: each chunk of its bytes is read as text on its own. -/
def lines (bytes : Bytes) : List Text :=
  (chunks (· = 0x0A) bytes).flatMap fun chunk => (Utf8.decode chunk).chunkLines

end Bytes

end LineCensus
