import LineCensus.Proofs.Line.Resuming
import LineCensus.Proofs.Text.Boundaries

/-!
# Reading lines by offsets

A line can be read in its bytes: a token is looked for as bytes, and what is left is cut out at the
offset of the token and the offset after it. The offsets are sums of the place of a token and the
number of its bytes, counted from different cuts, and some of them are offsets in text that has been
put together from parts. Such a reading fails where an offset is out of bounds or inside of a
character, or where parts put together are no text (`SliceFault`).

What it carries from line to line is a flag for an open comment, and apart from it the token to look
for (`Carried`). Nothing in the type keeps the two in step.

Neither goes wrong. The reading in bytes gives the bytes of what the reading in characters gives,
and carries what stands for its context (`Grammar.slices_stored`); so no offset is ever refused
(`Grammar.slices_eq_ok`), and an open comment always has the token of a declared pair to look for
(`Grammar.slices_sound`).
-/
namespace LineCensus

open Text Bytes

/-- What is carried from one line to the next. -/
structure Carried where
  /-- A block comment is open. -/
  inComment : Bool := false
  /-- The bytes of the token that closes it. -/
  closer? : Option Bytes := none
  deriving DecidableEq, Repr

namespace Carried

/-- What is carried when a comment has been opened. -/
def enter (closer : Bytes) : Carried := ⟨true, some closer⟩

/-- What is carried when no comment is open. -/
def leave : Carried := ⟨false, none⟩

/-- A comment is open that nothing can close. -/
def endless : Carried := ⟨true, none⟩

/-- The offset in a line after the token that closes the comment. -/
def resumeAt? (carried : Carried) (line : Bytes) : Option Nat :=
  carried.closer?.bind fun closer => (line.offsetOf? closer).map (· + closer.length)

/-- An open comment has a token to look for, which closes a declared pair, and there is no token
without an open comment. -/
structure Sound (grammar : Grammar) (carried : Carried) : Prop where
  /-- The flag is set exactly when there is a token. -/
  paired : carried.inComment = carried.closer?.isSome
  /-- The token closes a declared pair. -/
  declared : ∀ closer, carried.closer? = some closer →
    ∃ pair ∈ grammar.blockPairs, closer = pair.closer.utf8

end Carried

/-- What is carried in a context. -/
def Context.stored : Context → Carried
  | .outside => .leave
  | .inside closer => .enter closer.utf8

/-- A line is given to be classified, or for what is left of it. -/
inductive LineCall where
  /-- The kind of the line is asked for. -/
  | classify (line : Text)
  /-- What is left of the line is asked for. -/
  | residual (line : Text)

/-- What is answered for a line. -/
inductive LineAnswer where
  /-- Its kind. -/
  | kind (kind : LineKind)
  /-- The bytes of what is left of it. -/
  | left (text : Bytes)
  deriving DecidableEq, Repr

/-- The answer where a line is all in a comment. -/
def LineCall.hidden : LineCall → LineAnswer
  | .classify line => .kind (if line.isBlank then .blank else .comment)
  | .residual _ => .left []

namespace Grammar

/-- Tries block pairs in order, each once, on the bytes that the pairs before left. -/
def sliceBlocks : List BlockPair → Bytes → Carried → Except SliceFault (Bytes × Carried)
  | [], text, carried => .ok (text.trim, carried)
  | pair :: others, text, carried =>
    match text.offsetOf? pair.opener.utf8 with
    | none => sliceBlocks others text carried
    | some start => do
      let inner ← text.onward (start + pair.opener.utf8.length)
      match inner.offsetOf? pair.closer.utf8 with
      | some stop => do
        let front ← text.upTo start
        let back ← text.onward (start + pair.opener.utf8.length + stop + pair.closer.utf8.length)
        let rest ← front.joined back
        sliceBlocks others rest carried
      | none => do
        let front ← text.upTo start
        .ok (front.trim, .enter pair.closer.utf8)

/-- What is left of bytes outside of block comments, and what is carried on. -/
def sliceOutside (grammar : Grammar) (text : Bytes) (carried : Carried) :
    Except SliceFault (Bytes × Carried) :=
  match grammar.lineTokens.findSome? fun token => text.offsetOf? token.utf8 with
  | none => sliceBlocks grammar.blockPairs text carried
  | some place => do
    let uncommented ← text.upTo place
    sliceBlocks grammar.blockPairs uncommented carried

/-- What is left of the bytes of a line, and what is carried on. -/
def sliceResidual (grammar : Grammar) (carried : Carried) (line : Bytes) :
    Except SliceFault (Bytes × Carried) :=
  if line.trim = [] then .ok ([], carried)
  else if carried.inComment then
    match carried.resumeAt? line.trim with
    | none => .ok ([], carried)
    | some place => do
      let rest ← line.trim.onward place
      grammar.sliceOutside rest .leave
  else grammar.sliceOutside line.trim carried

/-- What the bytes of a line count as, and what is carried on. -/
def sliceClassify (grammar : Grammar) (carried : Carried) (line : Bytes) :
    Except SliceFault (LineKind × Carried) :=
  if line.trim = [] then .ok (.blank, carried)
  else do
    let (left, next) ← grammar.sliceResidual carried line
    .ok (if left.trim = [] then .comment else .code, next)

/-- Answers one call in bytes. -/
def sliceCall (grammar : Grammar) (carried : Carried) :
    LineCall → Except SliceFault (LineAnswer × Carried)
  | .classify line => do
    let (kind, next) ← grammar.sliceClassify carried line.utf8
    .ok (.kind kind, next)
  | .residual line => do
    let (left, next) ← grammar.sliceResidual carried line.utf8
    .ok (.left left, next)

/-- Answers calls in bytes, one after another. -/
def slices (grammar : Grammar) (carried : Carried) :
    List LineCall → Except SliceFault (List LineAnswer × Carried)
  | [] => .ok ([], carried)
  | call :: calls => do
    let (answer, next) ← grammar.sliceCall carried call
    let (answers, last) ← grammar.slices next calls
    .ok (answer :: answers, last)

/-- The answer to one call, and the context after it. -/
def answerCall (grammar : Grammar) (context : Context) : LineCall → LineAnswer × Context
  | .classify line =>
    (.kind (grammar.classify context line).1, (grammar.classify context line).2)
  | .residual line =>
    (.left (grammar.residual context line).text.utf8, (grammar.residual context line).context)

/-- The answers to calls, one after another, and the context after them. -/
def answers (grammar : Grammar) (context : Context) : List LineCall → List LineAnswer × Context
  | [] => ([], context)
  | call :: calls =>
    let later := grammar.answers (grammar.answerCall context call).2 calls
    ((grammar.answerCall context call).1 :: later.1, later.2)

section Stored

/-- What follows a step that gives a value goes on with the value. -/
theorem bind_eq_of_ok {ε α β : Type} {first : Except ε α} {value : α} (given : first = .ok value)
    (next : α → Except ε β) : first >>= next = next value := by
  rw [given]
  rfl

/-- Trying the block pairs in bytes leaves the bytes of what trying them in characters does. -/
theorem sliceBlocks_utf8 (pairs : List BlockPair) (text : Text) :
    sliceBlocks pairs text.utf8 .leave = .ok
      ((withoutBlocks pairs text).text.trim.utf8,
        (withoutBlocks pairs text).context.stored) := by
  induction pairs generalizing text with
  | nil =>
    unfold sliceBlocks withoutBlocks
    rw [trim_utf8]
    rfl
  | cons pair others step =>
    unfold sliceBlocks withoutBlocks
    rw [offsetOf?_utf8]
    rcases opening : text.cut? pair.opener with - | opened
    · exact step text
    · have front := upTo_of_cut? opening
      simp only [Option.map_some]
      rw [bind_eq_of_ok (onward_of_cut? opening), offsetOf?_utf8]
      rcases closing : opened.after.cut? pair.closer with - | closed
      · simp only [Option.map_none]
        rw [bind_eq_of_ok front, trim_utf8]
        rfl
      · -- the closer is found in a cut of the text, but what follows it is cut out of the whole
        have split : text =
            (opened.before ++ pair.opener ++ closed.before ++ pair.closer) ++ closed.after := by
          rw [eq_of_cut? opening, eq_of_cut? closing]
          simp only [List.append_assoc]
        have back : text.utf8.onward (opened.before.utf8.length + pair.opener.utf8.length +
            closed.before.utf8.length + pair.closer.utf8.length) = .ok closed.after.utf8 := by
          apply onward_utf8 split
          simp only [utf8_append, List.length_append]
        simp only [Option.map_some]
        rw [bind_eq_of_ok front, bind_eq_of_ok back, bind_eq_of_ok (joined_utf8 _ _)]
        exact step _

/-- The line token to cut at is found in bytes where it is in characters. -/
theorem findSome?_offsetOf? (tokens : List Text) (text : Text) :
    (tokens.findSome? fun token => text.utf8.offsetOf? token.utf8) =
      (tokens.findSome? fun token => text.cut? token).map fun cut => cut.before.utf8.length := by
  rw [List.map_findSome?]
  exact congrArg (tokens.findSome? ·) (funext fun token => offsetOf?_utf8 text token)

/-- Outside of block comments the bytes left are those of the text left. -/
theorem sliceOutside_utf8 (grammar : Grammar) (text : Text) :
    grammar.sliceOutside text.utf8 .leave = .ok
      ((grammar.outsideResidual text).text.utf8,
        (grammar.outsideResidual text).context.stored) := by
  unfold sliceOutside outsideResidual withoutLineComment
  rw [findSome?_offsetOf?]
  rcases found : grammar.lineTokens.findSome? fun token => text.cut? token with - | cut
  · exact sliceBlocks_utf8 _ text
  · obtain ⟨token, -, here⟩ := List.exists_of_findSome?_eq_some found
    simp only [Option.map_some]
    rw [bind_eq_of_ok (upTo_of_cut? here)]
    exact sliceBlocks_utf8 _ cut.before

/-- What is left of the bytes of a line are the bytes of what is left of the line. -/
theorem sliceResidual_stored (grammar : Grammar) (context : Context) (line : Text) :
    grammar.sliceResidual context.stored line.utf8 = .ok
      ((grammar.residual context line).text.utf8,
        (grammar.residual context line).context.stored) := by
  unfold sliceResidual residual
  rw [trim_utf8]
  dsimp only
  by_cases blank : line.trim = []
  · rw [if_pos (utf8_eq_nil_iff.mpr blank), if_pos (List.isEmpty_iff.mpr blank)]
    rfl
  · rw [if_neg fun none => blank (utf8_eq_nil_iff.mp none),
      if_neg fun none => blank (List.isEmpty_iff.mp none)]
    cases context with
    | outside => exact sliceOutside_utf8 grammar line.trim
    | inside closer =>
      have place : (Context.inside closer).stored.resumeAt? line.trim.utf8 =
          (line.trim.cut? closer).map fun cut => cut.before.utf8.length + closer.utf8.length := by
        show ((line.trim.utf8.offsetOf? closer.utf8).map (· + closer.utf8.length)) = _
        rw [offsetOf?_utf8, Option.map_map]
        rfl
      have opened : (Context.inside closer).stored.inComment = true := rfl
      rw [if_pos opened, place]
      dsimp only
      rcases closing : line.trim.cut? closer with - | cut
      · simp only [Option.map_none]
        rfl
      · simp only [Option.map_some]
        rw [bind_eq_of_ok (onward_of_cut? closing)]
        exact sliceOutside_utf8 grammar cut.after

/-- The bytes of a line count as what the line counts as. -/
theorem sliceClassify_stored (grammar : Grammar) (context : Context) (line : Text) :
    grammar.sliceClassify context.stored line.utf8 =
      .ok ((grammar.classify context line).1, (grammar.classify context line).2.stored) := by
  unfold sliceClassify classify
  rw [trim_utf8]
  by_cases blank : line.trim = []
  · rw [if_pos (utf8_eq_nil_iff.mpr blank), if_pos (List.isEmpty_iff.mpr blank)]
  · rw [if_neg fun none => blank (utf8_eq_nil_iff.mp none),
      if_neg fun none => blank (List.isEmpty_iff.mp none),
      bind_eq_of_ok (sliceResidual_stored grammar context line)]
    simp only [trim_utf8, utf8_eq_nil_iff, List.isEmpty_iff]

/-- A call is answered in bytes as it is in characters. -/
theorem sliceCall_stored (grammar : Grammar) (context : Context) (call : LineCall) :
    grammar.sliceCall context.stored call =
      .ok ((grammar.answerCall context call).1, (grammar.answerCall context call).2.stored) := by
  cases call with
  | classify line => exact bind_eq_of_ok (sliceClassify_stored grammar context line) _
  | residual line => exact bind_eq_of_ok (sliceResidual_stored grammar context line) _

/-- Calls are answered in bytes as they are in characters. -/
theorem slices_stored (grammar : Grammar) (context : Context) (calls : List LineCall) :
    grammar.slices context.stored calls =
      .ok ((grammar.answers context calls).1, (grammar.answers context calls).2.stored) := by
  induction calls generalizing context with
  | nil => rfl
  | cons call calls step =>
    unfold slices
    rw [bind_eq_of_ok (sliceCall_stored grammar context call)]
    exact bind_eq_of_ok (step _) _

/-- Reading lines by offsets from the start on is never refused: every offset at which bytes are
cut is within bounds and between two characters, and parts put together are text again. The answers
are those of the reading in characters. -/
theorem slices_eq_ok (grammar : Grammar) (calls : List LineCall) :
    grammar.slices {} calls =
      .ok ((grammar.answers .outside calls).1, (grammar.answers .outside calls).2.stored) :=
  slices_stored grammar .outside calls

-- characters of two bytes as tokens and around them, in a line that the first pair has joined
example : (ofTokens [] [("/*", "*/"), ("«", "»")]).slices {} [.residual "ö/*é*/«ü»b".toList] =
    .ok ([.left (utf8 "öb".toList)], {}) := by decide +kernel

end Stored

section Invariant

variable {grammar : Grammar} {context : Context}

/-- A call leads on to another context that reading lines leads to. -/
theorem Reachable.answerCall (reachable : grammar.Reachable context) (call : LineCall) :
    grammar.Reachable (grammar.answerCall context call).2 := by
  cases call with
  | classify line =>
    obtain ⟨kind, left, reads⟩ := grammar.exists_reads context line
    have next := reachable.line line
    rw [reads.sound.2] at next
    show grammar.Reachable (grammar.classify context line).2
    rwa [reads.sound.1]
  | residual line => exact reachable.line line

/-- So do calls one after another. -/
theorem Reachable.answers (reachable : grammar.Reachable context) (calls : List LineCall) :
    grammar.Reachable (grammar.answers context calls).2 := by
  induction calls generalizing context with
  | nil => exact reachable
  | cons call calls step => exact step (reachable.answerCall call)

/-- What is carried in a context that reading lines leads to is sound. -/
theorem Reachable.sound_stored (reachable : grammar.Reachable context) :
    context.stored.Sound grammar := by
  cases context with
  | outside => exact ⟨rfl, fun _ absent => nomatch absent⟩
  | inside closer =>
    refine ⟨rfl, ?_⟩
    rintro _ ⟨⟩
    obtain ⟨pair, inside, rfl⟩ := reachable.mem_closers rfl
    exact ⟨pair, inside, rfl⟩

/-- Nothing is left of a line in a comment that nothing can close. -/
theorem sliceResidual_endless (grammar : Grammar) (line : Bytes) :
    grammar.sliceResidual .endless line = .ok ([], .endless) := by
  unfold sliceResidual
  split
  · rfl
  · rfl

/-- In a comment that nothing can close, a call is answered as for a line that is all in a comment,
and the comment stays open. -/
theorem sliceCall_endless (grammar : Grammar) (call : LineCall) :
    grammar.sliceCall .endless call = .ok (call.hidden, .endless) := by
  cases call with
  | classify line =>
    have kind : grammar.sliceClassify .endless line.utf8 =
        .ok (if line.isBlank then .blank else .comment, .endless) := by
      unfold sliceClassify
      rw [trim_utf8, bind_eq_of_ok (sliceResidual_endless grammar line.utf8)]
      simp only [utf8_eq_nil_iff, trim_eq_nil_iff]
      split
      · rfl
      · rfl
    exact bind_eq_of_ok kind _
  | residual line => exact bind_eq_of_ok (sliceResidual_endless grammar line.utf8) _

/-- A comment that nothing can close hides all lines to the end. -/
theorem slices_endless (grammar : Grammar) (calls : List LineCall) :
    grammar.slices .endless calls = .ok (calls.map LineCall.hidden, .endless) := by
  induction calls with
  | nil => rfl
  | cons call calls step =>
    unfold slices
    rw [bind_eq_of_ok (sliceCall_endless grammar call)]
    exact bind_eq_of_ok step _

/-- Whatever lines are read from the start on, an open comment has a token to look for, which closes
a declared pair. No comment is ever open that nothing can close; one that was would hide all lines
to the end. -/
theorem slices_sound (grammar : Grammar) (calls : List LineCall) :
    (∃ answers carried, grammar.slices {} calls = .ok (answers, carried) ∧
      carried.Sound grammar ∧ carried ≠ .endless) ∧
    grammar.slices .endless calls = .ok (calls.map LineCall.hidden, .endless) := by
  have reachable : grammar.Reachable (grammar.answers .outside calls).2 :=
    Reachable.outside.answers calls
  have sound := reachable.sound_stored
  refine ⟨⟨_, _, slices_stored grammar .outside calls, sound, ?_⟩, slices_endless grammar calls⟩
  intro stuck
  rw [stuck] at sound
  exact Bool.noConfusion sound.paired

end Invariant

end Grammar

end LineCensus
