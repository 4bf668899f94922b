import LineCensus.Proofs.Text.Decoding
import LineCensus.Proofs.Text.PhysicalLines
import LineCensus.Scan

/-!
# What is counted

A count says how many lines there are of each kind, where each line is classified in the context
that the line before it leaves (`Grammar.kinds`). The lines of a text are those of one pass from
left to right (`countText_eq_ofKinds`), and the lines of a file are those of the text that all of
its bytes are read as, though each chunk of them is read on its own (`lines_decode`). So a file is
counted like the text that it holds, whatever its bytes (`countBytes_eq_countText`).
-/
namespace LineCensus

/-- The count of lines of the given kinds. -/
def LineCount.ofKinds (kinds : List LineKind) : LineCount where
  total := kinds.length
  code := kinds.count .code
  comment := kinds.count .comment
  blank := kinds.count .blank

namespace Grammar

/-- The kinds of lines, where each line begins in the context that the line before it leaves. -/
def kinds (grammar : Grammar) : Context → List Text → List LineKind
  | _, [] => []
  | context, line :: others =>
    (grammar.classify context line).1 :: grammar.kinds (grammar.classify context line).2 others

/-- Recording kinds adds up how often each occurs. -/
theorem foldl_record (kinds : List LineKind) (count : LineCount) :
    kinds.foldl LineCount.record count =
      ⟨count.total + kinds.length, count.code + kinds.count .code,
        count.comment + kinds.count .comment, count.blank + kinds.count .blank⟩ := by
  induction kinds generalizing count with
  | nil => rfl
  | cons kind kinds step =>
    rw [List.foldl_cons, step]
    cases kind <;> simp [LineCount.record] <;> omega

/-- Counting lines records their kinds. -/
theorem count_countFrom (grammar : Grammar) (counting : Counting) (lines : List Text) :
    (grammar.countFrom counting lines).count =
      (grammar.kinds counting.context lines).foldl LineCount.record counting.count := by
  induction lines generalizing counting with
  | nil => rfl
  | cons line lines step => exact step (grammar.countLine counting line)

/-- A line has one kind. -/
theorem length_kinds (grammar : Grammar) (context : Context) (lines : List Text) :
    (grammar.kinds context lines).length = lines.length := by
  induction lines generalizing context with
  | nil => rfl
  | cons line lines step => exact congrArg (· + 1) (step _)

/-- Counting lines adds how often each kind occurs. -/
theorem count_countFrom_add (grammar : Grammar) (context : Context) (count : LineCount)
    (lines : List Text) : (grammar.countFrom ⟨count, context⟩ lines).count =
      ⟨count.total + lines.length, count.code + (grammar.kinds context lines).count .code,
        count.comment + (grammar.kinds context lines).count .comment,
        count.blank + (grammar.kinds context lines).count .blank⟩ := by
  rw [count_countFrom, foldl_record, length_kinds]

/-- A count from the outside is that of the kinds of the lines. -/
theorem count_eq_ofKinds (grammar : Grammar) (lines : List Text) :
    (grammar.countFrom {} lines).count = LineCount.ofKinds (grammar.kinds .outside lines) := by
  rw [count_countFrom, foldl_record]
  simp [LineCount.ofKinds]

/-- The count of a text is that of the lines read from left to right, each classified in the
context that the line before it leaves. There are as many as places where a line ends, and one more
for an open last line, and each is of one kind. -/
theorem countText_eq_ofKinds (grammar : Grammar) (text : Text) :
    grammar.countText text = LineCount.ofKinds (grammar.kinds .outside (Text.scanLines text)) ∧
    (grammar.countText text).total =
      Text.lineEnds text + (if Text.LeavesOpen text then 1 else 0) ∧
    (grammar.countText text).total = (grammar.countText text).code +
      (grammar.countText text).comment + (grammar.countText text).blank := by
  have counted := grammar.count_eq_ofKinds (Text.lines text)
  have balanced : ({} : Counting).count.Balanced := rfl
  refine ⟨?_, ?_, grammar.balanced_countFrom balanced (Text.lines text)⟩
  · rw [← Text.lines_eq_scanLines]
    exact counted
  · unfold countText
    rw [counted, ← Text.length_lines, ← grammar.length_kinds .outside]
    rfl

-- a carriage return before the one of a line end is a line end of its own
example : Text.scanLines "a\r\r\nb\n\rc".toList = ["a".toList, [], "b".toList, [], "c".toList] := by
  decide

end Grammar

/-- The lines of a file are those of the text that its bytes are read as. -/
theorem Bytes.lines_decode (bytes : Bytes) :
    Bytes.lines bytes = Text.lines (Utf8.decode bytes) := by
  unfold Bytes.lines Text.lines
  rw [chunks_decode, List.flatMap_map]

namespace Grammar

/-- All bytes are read as exactly one text, and they are counted like it, also as a file. The bytes
of a text are counted like that text. -/
theorem countBytes_eq_countText (grammar : Grammar) (bytes : Bytes) :
    (∃ text, Utf8.Decodes bytes text ∧ (∀ other, Utf8.Decodes bytes other → other = text) ∧
      grammar.countBytes bytes = grammar.countText text ∧
      ∀ (tree : FileTree) (path : Path), tree.read? path = some bytes →
        tree.countFile grammar path = .ok (grammar.countText text)) ∧
    ∀ text : Text, grammar.countBytes text.utf8 = grammar.countText text := by
  have counted : ∀ bytes, grammar.countBytes bytes = grammar.countText (Utf8.decode bytes) := by
    intro bytes
    unfold countBytes countText
    rw [Bytes.lines_decode]
  refine ⟨⟨Utf8.decode bytes, Utf8.decodes_iff.mpr rfl, ?_, counted bytes, ?_⟩, ?_⟩
  · exact fun other decodes => (Utf8.decodes_iff.mp decodes).symm
  · intro tree path found
    unfold FileTree.countFile
    rw [found, ← counted]
  · intro text
    rw [counted, Utf8.decode_utf8]

-- the bytes before the line feed begin a character that it does not go on with
example : Utf8.decode [0xE2, 0x82, 0x0A, 0x82] = ['\uFFFD', '\n', '\uFFFD'] := by decide

end Grammar

end LineCensus
