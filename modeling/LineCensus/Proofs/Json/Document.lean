import LineCensus.Decimal.Shortest

/-!
# Reading JSON from tokens

A document is a JSON value that is read. It is read from tokens, one after another and with a stack
of the arrays and objects that are not read to their end (`Awaiting.take?`).

A document has one sequence of tokens. The tokens from which it can be read are these and no others
(`Document.ofTokens?_eq_some_iff`), so two different documents never have the same tokens.
-/
namespace LineCensus

/-- A JSON value that is read. A number is kept as the decimal that it denotes. -/
inductive Document where
  /-- The null value. -/
  | null
  /-- A truth value. -/
  | boolean (value : Bool)
  /-- A number; zero has a sign too. -/
  | number (negative : Bool) (value : Decimal)
  /-- A string. -/
  | string (value : Text)
  /-- An array. -/
  | array (items : List Document)
  /-- An object, its members in order. -/
  | object (members : List (Text × Document))

/-- The smallest parts of the JSON format that have a meaning. -/
inductive JsonToken where
  /-- An array begins. -/
  | openArray
  /-- An array ends. -/
  | closeArray
  /-- An object begins. -/
  | openObject
  /-- An object ends. -/
  | closeObject
  /-- Another item or member follows. -/
  | comma
  /-- The value of a member follows. -/
  | colon
  /-- The null value. -/
  | null
  /-- A truth value. -/
  | boolean (value : Bool)
  /-- A number. -/
  | number (negative : Bool) (value : Decimal)
  /-- A string. -/
  | string (value : Text)
  deriving DecidableEq, Repr

namespace Document

mutual

/-- The tokens of a document. -/
def tokens : Document → List JsonToken
  | null => [.null]
  | boolean value => [.boolean value]
  | number negative value => [.number negative value]
  | string value => [.string value]
  | array [] => [.openArray, .closeArray]
  | array (first :: others) => .openArray :: tokens first ++ laterItems others ++ [.closeArray]
  | object [] => [.openObject, .closeObject]
  | object ((key, first) :: others) =>
    .openObject :: .string key :: .colon :: tokens first ++ laterMembers others ++ [.closeObject]

/-- The tokens of the items after the first, each after a comma. -/
def laterItems : List Document → List JsonToken
  | [] => []
  | item :: others => .comma :: tokens item ++ laterItems others

/-- The tokens of the members after the first, each after a comma. -/
def laterMembers : List (Text × Document) → List JsonToken
  | [] => []
  | (key, value) :: others =>
    .comma :: .string key :: .colon :: tokens value ++ laterMembers others

end

end Document

/-- An array or an object that is not read to its end. -/
inductive Frame where
  /-- An array, with its items so far. Another item is being read. -/
  | items (before : List Document)
  /-- An object, with its members so far. The value of the member with the key is being read. -/
  | member (before : List (Text × Document)) (key : Text)

/-- What is to follow next, in the arrays and objects that are not read to their end, the innermost
first. -/
inductive Awaiting where
  /-- A value. -/
  | value (frames : List Frame)
  /-- The first item of an array, or its end. -/
  | firstItem (frames : List Frame)
  /-- A comma, or the end of an array. -/
  | afterItem (before : List Document) (last : Document) (frames : List Frame)
  /-- The first key of an object, or its end. -/
  | firstKey (frames : List Frame)
  /-- Another key. -/
  | key (before : List (Text × Document)) (frames : List Frame)
  /-- The colon after a key. -/
  | colon (before : List (Text × Document)) (key : Text) (frames : List Frame)
  /-- A comma, or the end of an object. -/
  | afterMember (before : List (Text × Document)) (last : Text × Document) (frames : List Frame)
  /-- Nothing more. -/
  | nothing (document : Document)

namespace Awaiting

/-- What is to follow a document that is read to its end. -/
def after (document : Document) : List Frame → Awaiting
  | [] => nothing document
  | .items before :: frames => afterItem before document frames
  | .member before name :: frames => afterMember before (name, document) frames

/-- Takes the first token of a value. -/
def begin? (frames : List Frame) : JsonToken → Option Awaiting
  | .null => some (after .null frames)
  | .boolean held => some (after (.boolean held) frames)
  | .number negative decimal => some (after (.number negative decimal) frames)
  | .string text => some (after (.string text) frames)
  | .openArray => some (firstItem frames)
  | .openObject => some (firstKey frames)
  | _ => none

/-- Takes a token, if it can follow. -/
def take? : Awaiting → JsonToken → Option Awaiting
  | value frames, token => begin? frames token
  | firstItem frames, .closeArray => some (after (.array []) frames)
  | firstItem frames, token => begin? (.items [] :: frames) token
  | afterItem before last frames, .comma => some (value (.items (before ++ [last]) :: frames))
  | afterItem before last frames, .closeArray =>
    some (after (.array (before ++ [last])) frames)
  | firstKey frames, .closeObject => some (after (.object []) frames)
  | firstKey frames, .string name => some (colon [] name frames)
  | key before frames, .string name => some (colon before name frames)
  | colon before name frames, .colon => some (value (.member before name :: frames))
  | afterMember before last frames, .comma => some (key (before ++ [last]) frames)
  | afterMember before last frames, .closeObject =>
    some (after (.object (before ++ [last])) frames)
  | _, _ => none

/-- Takes tokens one after another. -/
def takeAll? (awaiting : Awaiting) (tokens : List JsonToken) : Option Awaiting :=
  tokens.foldlM take? awaiting

/-- The document that is read, when nothing more is to follow. -/
def document? : Awaiting → Option Document
  | nothing document => some document
  | _ => none

end Awaiting

/-- The document that tokens are read to. -/
def Document.ofTokens? (tokens : List JsonToken) : Option Document :=
  ((Awaiting.value []).takeAll? tokens).bind Awaiting.document?

namespace Awaiting

variable {frames : List Frame} {rest : List JsonToken}

@[simp] theorem takeAll?_nil (awaiting : Awaiting) : awaiting.takeAll? [] = some awaiting := rfl

/-- Tokens are taken one after another. -/
theorem takeAll?_cons (awaiting : Awaiting) (token : JsonToken) (rest : List JsonToken) :
    awaiting.takeAll? (token :: rest) =
      (awaiting.take? token).bind fun next => next.takeAll? rest := rfl

/-- A first item is taken like any other. -/
theorem takeAll?_firstItem (document : Document) :
    (firstItem frames).takeAll? (document.tokens ++ rest) =
      (value (.items [] :: frames)).takeAll? (document.tokens ++ rest) := by
  cases document with
  | array items => cases items <;> rfl
  | object members =>
    rcases members with - | ⟨⟨name, first⟩, others⟩ <;> rfl
  | _ => rfl

mutual

/-- The tokens of a document are taken where a value is to follow. -/
theorem takeAll?_tokens (frames : List Frame) (rest : List JsonToken) : ∀ document : Document,
    (value frames).takeAll? (document.tokens ++ rest) = (after document frames).takeAll? rest
  | .null => rfl
  | .boolean _ => rfl
  | .number _ _ => rfl
  | .string _ => rfl
  | .array [] => rfl
  | .array (first :: others) => by
    have opened : (value frames).takeAll? ((Document.array (first :: others)).tokens ++ rest) =
        (firstItem frames).takeAll?
          (first.tokens ++ (Document.laterItems others ++ .closeArray :: rest)) := by
      rw [Document.tokens]
      simp only [List.cons_append, List.append_assoc, List.nil_append]
      rfl
    rw [opened, takeAll?_firstItem, takeAll?_tokens _ _ first]
    exact takeAll?_laterItems [] first frames rest others
  | .object [] => rfl
  | .object ((name, first) :: others) => by
    have opened :
        (value frames).takeAll? ((Document.object ((name, first) :: others)).tokens ++ rest) =
          (value (.member [] name :: frames)).takeAll?
            (first.tokens ++ (Document.laterMembers others ++ .closeObject :: rest)) := by
      rw [Document.tokens]
      simp only [List.cons_append, List.append_assoc, List.nil_append]
      rfl
    rw [opened, takeAll?_tokens _ _ first]
    exact takeAll?_laterMembers [] (name, first) frames rest others

/-- The other items of an array and its end are taken after an item. -/
theorem takeAll?_laterItems (before : List Document) (last : Document) (frames : List Frame)
    (rest : List JsonToken) : ∀ others : List Document,
    (afterItem before last frames).takeAll? (Document.laterItems others ++ .closeArray :: rest) =
      (after (.array (before ++ last :: others)) frames).takeAll? rest
  | [] => rfl
  | item :: others => by
    have another : (afterItem before last frames).takeAll?
        (Document.laterItems (item :: others) ++ .closeArray :: rest) =
          (value (.items (before ++ [last]) :: frames)).takeAll?
            (item.tokens ++ (Document.laterItems others ++ .closeArray :: rest)) := by
      rw [Document.laterItems]
      simp only [List.cons_append, List.append_assoc]
      rfl
    have joined : before ++ last :: item :: others = before ++ [last] ++ item :: others :=
      List.append_cons before last (item :: others)
    rw [another, takeAll?_tokens _ _ item, joined]
    exact takeAll?_laterItems (before ++ [last]) item frames rest others

/-- The other members of an object and its end are taken after a member. -/
theorem takeAll?_laterMembers (before : List (Text × Document)) (last : Text × Document)
    (frames : List Frame) (rest : List JsonToken) : ∀ others : List (Text × Document),
    (afterMember before last frames).takeAll?
        (Document.laterMembers others ++ .closeObject :: rest) =
      (after (.object (before ++ last :: others)) frames).takeAll? rest
  | [] => rfl
  | (name, item) :: others => by
    have another : (afterMember before last frames).takeAll?
        (Document.laterMembers ((name, item) :: others) ++ .closeObject :: rest) =
          (value (.member (before ++ [last]) name :: frames)).takeAll?
            (item.tokens ++ (Document.laterMembers others ++ .closeObject :: rest)) := by
      rw [Document.laterMembers]
      simp only [List.cons_append, List.append_assoc]
      rfl
    have joined : before ++ last :: (name, item) :: others =
        before ++ [last] ++ (name, item) :: others :=
      List.append_cons before last ((name, item) :: others)
    rw [another, takeAll?_tokens _ _ item, joined]
    exact takeAll?_laterMembers (before ++ [last]) (name, item) frames rest others

end

end Awaiting

namespace Document

/-- The tokens of items that are each followed by a comma. -/
def leadingItems (items : List Document) : List JsonToken :=
  items.flatMap fun item => item.tokens ++ [.comma]

/-- The tokens of members that are each followed by a comma. -/
def leadingMembers (members : List (Text × Document)) : List JsonToken :=
  members.flatMap fun member => .string member.1 :: .colon :: member.2.tokens ++ [.comma]

/-- The commas of an array may be counted with the items before them. -/
theorem tokens_laterItems (first last : Document) (items : List Document) :
    first.tokens ++ laterItems (items ++ [last]) =
      leadingItems (first :: items) ++ last.tokens := by
  induction items generalizing first with
  | nil =>
    rw [List.nil_append, laterItems, laterItems]
    simp [leadingItems]
  | cons item others step =>
    rw [List.cons_append, laterItems]
    have rest := step item
    simp only [leadingItems, List.flatMap_cons, List.append_assoc, List.cons_append,
      List.nil_append] at rest ⊢
    rw [rest]

/-- The commas of an object may be counted with the members before them. -/
theorem tokens_laterMembers (first last : Text × Document) (members : List (Text × Document)) :
    .string first.1 :: .colon :: first.2.tokens ++ laterMembers (members ++ [last]) =
      leadingMembers (first :: members) ++ .string last.1 :: .colon :: last.2.tokens := by
  induction members generalizing first with
  | nil =>
    rcases last with ⟨name, item⟩
    rw [List.nil_append, laterMembers, laterMembers]
    simp [leadingMembers]
  | cons member others step =>
    have rest := step member
    rcases member with ⟨name, item⟩
    have another : laterMembers ((name, item) :: others ++ [last]) =
        .comma :: .string name :: .colon :: item.tokens ++ laterMembers (others ++ [last]) := by
      rw [List.cons_append, laterMembers]
    rw [another]
    simp only [leadingMembers, List.flatMap_cons, List.append_assoc, List.cons_append,
      List.nil_append] at rest ⊢
    rw [rest]

/-- The tokens of an array by its last item. -/
theorem tokens_array_concat (before : List Document) (last : Document) :
    (array (before ++ [last])).tokens =
      .openArray :: leadingItems before ++ last.tokens ++ [.closeArray] := by
  cases before with
  | nil =>
    rw [List.nil_append, tokens, laterItems]
    simp [leadingItems]
  | cons first others =>
    rw [List.cons_append, tokens, List.cons_append, tokens_laterItems]
    simp

/-- The tokens of an object by its last member. -/
theorem tokens_object_concat (before : List (Text × Document)) (last : Text × Document) :
    (object (before ++ [last])).tokens =
      .openObject :: leadingMembers before ++ .string last.1 :: .colon :: last.2.tokens ++
        [.closeObject] := by
  cases before with
  | nil =>
    rw [List.nil_append, tokens, laterMembers]
    simp [leadingMembers]
  | cons first others =>
    have joined := tokens_laterMembers first last others
    rcases first with ⟨name, item⟩
    calc (object ((name, item) :: others ++ [last])).tokens
        = .openObject :: (.string name :: .colon :: item.tokens ++ laterMembers (others ++ [last]))
          ++ [.closeObject] := by rw [List.cons_append, tokens]; rfl
      _ = .openObject :: leadingMembers ((name, item) :: others) ++
          .string last.1 :: .colon :: last.2.tokens ++ [.closeObject] := by rw [joined]; simp

end Document

namespace Awaiting

open Document (leadingItems leadingMembers)

/-- The tokens of arrays and objects that are not read to their end. -/
def framesRead : List Frame → List JsonToken
  | [] => []
  | .items before :: frames => framesRead frames ++ .openArray :: leadingItems before
  | .member before name :: frames =>
    framesRead frames ++ .openObject :: leadingMembers before ++ [.string name, .colon]

/-- The tokens that are read. -/
def read : Awaiting → List JsonToken
  | value frames => framesRead frames
  | firstItem frames => framesRead frames ++ [.openArray]
  | afterItem before last frames =>
    framesRead frames ++ .openArray :: leadingItems before ++ last.tokens
  | firstKey frames => framesRead frames ++ [.openObject]
  | key before frames => framesRead frames ++ .openObject :: leadingMembers before
  | colon before name frames =>
    framesRead frames ++ .openObject :: leadingMembers before ++ [.string name]
  | afterMember before last frames =>
    framesRead frames ++ .openObject :: leadingMembers before ++
      .string last.1 :: .colon :: last.2.tokens
  | nothing document => document.tokens

/-- After a document, its tokens are read. -/
theorem read_after (document : Document) (frames : List Frame) :
    (after document frames).read = framesRead frames ++ document.tokens := by
  rcases frames with - | ⟨⟨before⟩ | ⟨before, name⟩, frames⟩
  · rfl
  · rfl
  · simp [after, read, framesRead]

/-- The first token of a value is read. -/
theorem read_of_begin? {frames : List Frame} {token : JsonToken} {next : Awaiting}
    (taken : begin? frames token = some next) : next.read = framesRead frames ++ [token] := by
  cases token with
  | null => exact Option.some.inj taken ▸ read_after .null frames
  | boolean held => exact Option.some.inj taken ▸ read_after (.boolean held) frames
  | number negative decimal =>
    exact Option.some.inj taken ▸ read_after (.number negative decimal) frames
  | string text => exact Option.some.inj taken ▸ read_after (.string text) frames
  | openArray => exact Option.some.inj taken ▸ rfl
  | openObject => exact Option.some.inj taken ▸ rfl
  | _ => cases taken

/-- A token that is taken is read. -/
theorem read_of_take? {awaiting next : Awaiting} {token : JsonToken}
    (taken : awaiting.take? token = some next) : next.read = awaiting.read ++ [token] := by
  unfold take? at taken
  split at taken
  · exact read_of_begin? taken
  · cases taken
    rw [read_after]
    simp [read, Document.tokens]
  · rw [read_of_begin? taken]
    simp [framesRead, read, leadingItems]
  · cases taken
    simp [framesRead, read, leadingItems]
  · cases taken
    rw [read_after, Document.tokens_array_concat]
    simp [read]
  · cases taken
    rw [read_after]
    simp [read, Document.tokens]
  · cases taken
    simp [read, leadingMembers]
  · cases taken
    simp [read]
  · cases taken
    simp [read, framesRead]
  · cases taken
    simp [read, leadingMembers]
  · cases taken
    rw [read_after, Document.tokens_object_concat]
    simp [read]
  · cases taken

/-- Tokens that are taken are read. -/
theorem read_of_takeAll? {awaiting last : Awaiting} {tokens : List JsonToken}
    (taken : awaiting.takeAll? tokens = some last) : last.read = awaiting.read ++ tokens := by
  induction tokens generalizing awaiting with
  | nil =>
    cases taken
    exact (List.append_nil _).symm
  | cons token rest step =>
    rw [takeAll?_cons] at taken
    obtain ⟨next, first, later⟩ := Option.bind_eq_some_iff.mp taken
    rw [step later, read_of_take? first, List.append_assoc]
    rfl

end Awaiting

/-- A document is read from its tokens, and from no others. -/
theorem Document.ofTokens?_eq_some_iff {tokens : List JsonToken} {document : Document} :
    ofTokens? tokens = some document ↔ tokens = document.tokens := by
  constructor
  · intro given
    obtain ⟨last, taken, ended⟩ := Option.bind_eq_some_iff.mp given
    have read := Awaiting.read_of_takeAll? taken
    cases last with
    | nothing found =>
      cases ended
      exact read.symm
    | _ => cases ended
  · rintro rfl
    have taken := Awaiting.takeAll?_tokens [] [] document
    rw [List.append_nil] at taken
    unfold ofTokens?
    rw [taken]
    rfl

end LineCensus
