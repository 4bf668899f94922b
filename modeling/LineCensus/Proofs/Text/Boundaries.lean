import LineCensus.Proofs.Text.Decoding
import LineCensus.Text.Cut

/-!
# Offsets in the bytes of a text

The bytes of a text can be cut where one character ends and the next begins, and nowhere else. A
byte shows by itself whether it begins a character (`Bytes.isInner`), so an offset can be checked
before bytes are cut at it, and the check passes exactly where the text has a place between two
characters (`Bytes.isBoundary_utf8_iff`). Cutting refuses all other offsets, and putting parts
together refuses what is no text.

No character is spelled by inner bytes at the front or by the front of another character. So the
bytes of a token are found in the bytes of a text where the token is found in the text, and at the
leftmost such place both agree (`Bytes.offsetOf?_utf8`). What is cut there is text again
(`Bytes.upTo_utf8`, `Bytes.onward_utf8`).
-/
namespace LineCensus

/-- What is wrong with an offset, or with parts that are put together. -/
inductive SliceFault where
  /-- The offset is past the end. -/
  | outOfBounds (offset : Nat)
  /-- The offset is inside of a character. -/
  | insideCharacter (offset : Nat)
  /-- The bytes are those of no text. -/
  | notText (bytes : Bytes)
  deriving DecidableEq, Repr

namespace Bytes

/-- A byte goes on with a character that began before it. -/
def isInner (byte : UInt8) : Bool := 0x80 ≤ byte.toNat && byte.toNat < 0xC0

/-- An offset is at the front or at the end, or the byte at it begins a character. -/
def isBoundary (bytes : Bytes) (offset : Nat) : Bool :=
  match bytes[offset]? with
  | some byte => offset = 0 || !isInner byte
  | none => offset = bytes.length

/-- Refuses an offset at which bytes cannot be cut. -/
def checkOffset (bytes : Bytes) (offset : Nat) : Except SliceFault Unit :=
  if bytes.length < offset then .error (.outOfBounds offset)
  else if bytes.isBoundary offset then .ok ()
  else .error (.insideCharacter offset)

/-- The bytes before an offset. A text that is cut short in its place is cut the same way; past the
end it would stay as it is, and is refused here too. -/
def upTo (bytes : Bytes) (offset : Nat) : Except SliceFault Bytes :=
  (bytes.checkOffset offset).map fun _ => bytes.take offset

/-- The bytes from an offset on. -/
def onward (bytes : Bytes) (offset : Nat) : Except SliceFault Bytes :=
  (bytes.checkOffset offset).map fun _ => bytes.drop offset

/-- Bytes are those of a text. -/
def isText (bytes : Bytes) : Bool := (Utf8.decode bytes).utf8 = bytes

/-- Two parts put together. -/
def joined (front back : Bytes) : Except SliceFault Bytes :=
  if isText (front ++ back) then .ok (front ++ back) else .error (.notText (front ++ back))

/-- The offset of the leftmost place at which a token goes on. -/
def offsetOf? : Bytes → Bytes → Option Nat
  | [], token => if token = [] then some 0 else none
  | byte :: rest, token =>
    if token.isPrefixOf (byte :: rest) then some 0 else (offsetOf? rest token).map (· + 1)

/-- Bytes of a text without the blanks around it. -/
def trim (bytes : Bytes) : Bytes := (Utf8.decode bytes).trim.utf8

end Bytes

namespace Text

/-- The first character comes first in the bytes. -/
theorem utf8_cons (char : Char) (text : Text) :
    utf8 (char :: text) = String.utf8EncodeChar char ++ utf8 text := rfl

/-- The bytes of two parts are the bytes of the whole. -/
theorem utf8_append (front back : Text) : utf8 (front ++ back) = utf8 front ++ utf8 back :=
  List.flatMap_append

/-- A text has no bytes only if it has no characters. -/
theorem utf8_eq_nil_iff {text : Text} : utf8 text = [] ↔ text = [] := by
  constructor
  · exact fun none => Utf8.utf8_injective none
  · rintro rfl
    rfl

end Text

namespace Bytes

open Text Utf8

/-- A byte that leads a character is no inner byte. -/
theorem isInner_of_leads {lead : UInt8} {code more : Nat} (leads : Leads lead code more) :
    isInner lead = false := by
  unfold isInner
  rw [Bool.and_eq_false_iff, decide_eq_false_iff_not, decide_eq_false_iff_not]
  cases leads <;> omega

/-- The bytes after the lead byte are inner bytes. -/
theorem isInner_of_mem_continuation {more code : Nat} {byte : UInt8}
    (inside : byte ∈ continuation more code) : isInner byte = true := by
  induction more with
  | zero => cases inside
  | succ more step =>
    rcases List.mem_cons.mp inside with rfl | later
    · unfold isInner
      rw [UInt8.toNat_ofNat', Bool.and_eq_true, decide_eq_true_eq, decide_eq_true_eq]
      omega
    · exact step later

/-- A character is spelled by a byte that is no inner byte, and inner bytes after it. -/
theorem exists_spelling (char : Char) : ∃ lead inner, String.utf8EncodeChar char = lead :: inner ∧
    isInner lead = false ∧ ∀ byte ∈ inner, isInner byte = true := by
  obtain ⟨lead, more, leads, spelled⟩ := exists_leads char
  exact ⟨lead, _, spelled, isInner_of_leads leads, fun _ => isInner_of_mem_continuation⟩

/-- The bytes of a token begin those of a text where the token begins the text. -/
theorem utf8_prefix_iff {token text : Text} : token.utf8 <+: text.utf8 ↔ token <+: text := by
  constructor
  · intro begins
    induction token generalizing text with
    | nil => exact List.nil_prefix
    | cons first token step =>
      cases text with
      | nil => exact absurd (utf8_eq_nil_iff.mp (List.prefix_nil.mp begins)) (List.cons_ne_nil _ _)
      | cons char text =>
        rw [utf8_cons, utf8_cons] at begins
        -- of two characters spelled at one place, one is spelled by the front of the other
        have spelled := (List.prefix_append _ (utf8 token)).trans begins
        have same : first = char := by
          rcases List.prefix_or_prefix_of_prefix spelled (List.prefix_append _ (utf8 text)) with
            shorter | longer
          · exact eq_of_spelling_prefix shorter
          · have back := eq_of_spelling_prefix longer
            exact back.symm
        rw [same, List.prefix_append_right_inj] at begins
        rw [same, List.cons_prefix_cons]
        exact ⟨rfl, step begins⟩
  · rintro ⟨rest, rfl⟩
    rw [utf8_append]
    exact List.prefix_append _ _

/-- The bytes of a text can be cut where the text can. -/
theorem isBoundary_utf8_iff {text : Text} {offset : Nat} : isBoundary text.utf8 offset = true ↔
    ∃ front back : Text, text = front ++ back ∧ front.utf8.length = offset := by
  constructor
  · intro boundary
    induction text generalizing offset with
    | nil =>
      have front : offset = 0 := of_decide_eq_true boundary
      exact ⟨[], [], rfl, front.symm⟩
    | cons char rest step =>
      obtain ⟨lead, inner, spelled, -, inners⟩ := exists_spelling char
      rw [utf8_cons, spelled, List.cons_append] at boundary
      cases offset with
      | zero => exact ⟨[], char :: rest, rfl, rfl⟩
      | succ offset =>
        by_cases within : offset < inner.length
        · -- the byte at such an offset goes on with the character
          have byte : (lead :: (inner ++ (utf8 rest)))[offset + 1]? = some inner[offset] := by
            rw [List.getElem?_cons_succ, List.getElem?_append_left within,
              List.getElem?_eq_getElem within]
          unfold isBoundary at boundary
          rw [byte] at boundary
          simp [inners _ (List.getElem_mem within)] at boundary
        · have later : isBoundary (utf8 rest) (offset - inner.length) = true := by
            unfold isBoundary at boundary ⊢
            rw [List.getElem?_cons_succ, List.getElem?_append_right (by omega)] at boundary
            split at boundary
            · next byte found =>
              have outer : (!isInner byte) = true := by simpa using boundary
              rw [found]
              simp only [outer, Bool.or_true]
            · next missing =>
              rw [missing]
              simp only [List.length_cons, List.length_append, decide_eq_true_eq] at boundary ⊢
              omega
          obtain ⟨front, back, rfl, length⟩ := step later
          refine ⟨char :: front, back, rfl, ?_⟩
          rw [utf8_cons, spelled, List.length_append, List.length_cons, length]
          omega
  · rintro ⟨front, back, rfl, rfl⟩
    unfold isBoundary
    rw [utf8_append]
    cases back with
    | nil => simp [utf8]
    | cons char back =>
      obtain ⟨lead, inner, spelled, outer, -⟩ := exists_spelling char
      rw [utf8_cons, spelled, List.cons_append, List.getElem?_append_right (Nat.le_refl _),
        Nat.sub_self, List.getElem?_cons_zero]
      simp [outer]

/-- A text is that of its bytes. -/
theorem isText_utf8 (text : Text) : isText text.utf8 = true := by
  unfold isText
  rw [decode_utf8, decide_eq_true_eq]

/-- An offset between two parts of a text is not refused. -/
theorem checkOffset_utf8 (front back : Text) :
    checkOffset (front ++ back).utf8 front.utf8.length = .ok () := by
  have within : ¬ (front ++ back).utf8.length < front.utf8.length := by
    rw [utf8_append, List.length_append]
    omega
  unfold checkOffset
  rw [if_neg within, if_pos (isBoundary_utf8_iff.mpr ⟨front, back, rfl, rfl⟩)]

section Parts

variable {text front back : Text} {offset : Nat}

/-- The bytes before the place between two parts are those of the first. -/
theorem upTo_utf8 (whole : text = front ++ back) (place : offset = front.utf8.length) :
    text.utf8.upTo offset = .ok front.utf8 := by
  unfold upTo
  rw [whole, place, checkOffset_utf8, utf8_append]
  exact congrArg Except.ok List.take_left

/-- The bytes from the place between two parts on are those of the second. -/
theorem onward_utf8 (whole : text = front ++ back) (place : offset = front.utf8.length) :
    text.utf8.onward offset = .ok back.utf8 := by
  unfold onward
  rw [whole, place, checkOffset_utf8, utf8_append]
  exact congrArg Except.ok List.drop_left

variable {token : Text} {cut : Cut}

/-- The bytes before a token are those of the text before it. -/
theorem upTo_of_cut? (here : text.cut? token = some cut) :
    text.utf8.upTo cut.before.utf8.length = .ok cut.before.utf8 := by
  have whole : text = cut.before ++ (token ++ cut.after) := by
    rw [eq_of_cut? here, List.append_assoc]
  exact upTo_utf8 whole rfl

/-- The bytes after a token are those of the text after it. -/
theorem onward_of_cut? (here : text.cut? token = some cut) :
    text.utf8.onward (cut.before.utf8.length + token.utf8.length) = .ok cut.after.utf8 := by
  have place : cut.before.utf8.length + token.utf8.length = (cut.before ++ token).utf8.length := by
    rw [utf8_append, List.length_append]
  exact onward_utf8 (eq_of_cut? here) place

end Parts

/-- Two texts can be put together. -/
theorem joined_utf8 (front back : Text) :
    joined front.utf8 back.utf8 = .ok (front ++ back).utf8 := by
  unfold joined
  rw [← utf8_append, if_pos (isText_utf8 _)]

/-- Trimming the bytes of a text is trimming the text. -/
theorem trim_utf8 (text : Text) : trim text.utf8 = text.trim.utf8 := by
  unfold trim
  rw [decode_utf8]

/-- A token goes on at the front of bytes that begin with it. -/
theorem offsetOf?_of_prefix {bytes token : Bytes} (begins : token <+: bytes) :
    bytes.offsetOf? token = some 0 := by
  cases bytes with
  | nil => exact if_pos (List.prefix_nil.mp begins)
  | cons byte rest => exact if_pos (List.isPrefixOf_iff_prefix.mpr begins)

/-- Where a token does not go on, its place is one in the rest. -/
theorem offsetOf?_cons {byte : UInt8} {rest token : Bytes} (absent : ¬ token <+: byte :: rest) :
    offsetOf? (byte :: rest) token = (offsetOf? rest token).map (· + 1) :=
  if_neg fun begins => absent (List.isPrefixOf_iff_prefix.mp begins)

/-- No token goes on at an inner byte. -/
theorem offsetOf?_inner {token : Text} (some_token : token ≠ []) {inner : Bytes}
    (inners : ∀ byte ∈ inner, isInner byte = true) (rest : Bytes) :
    offsetOf? (inner ++ rest) token.utf8 =
      (offsetOf? rest token.utf8).map (· + inner.length) := by
  induction inner with
  | nil => simp
  | cons byte inner step =>
    have absent : ¬ token.utf8 <+: byte :: (inner ++ rest) := by
      obtain ⟨first, more, rfl⟩ := List.exists_cons_of_ne_nil some_token
      obtain ⟨lead, others, spelled, outer, -⟩ := exists_spelling first
      rw [utf8_cons, spelled, List.cons_append, List.cons_prefix_cons]
      rintro ⟨rfl, -⟩
      rw [inners lead List.mem_cons_self] at outer
      cases outer
    have later := step fun other inside => inners other (List.mem_cons_of_mem byte inside)
    rw [List.cons_append, offsetOf?_cons absent, later, Option.map_map, List.length_cons]
    rfl

/-- The bytes of a token are found in those of a text where the text is cut at the token. -/
theorem offsetOf?_utf8 (text token : Text) : offsetOf? text.utf8 token.utf8 =
    (text.cut? token).map fun cut => cut.before.utf8.length := by
  induction text with
  | nil =>
    cases token with
    | nil => rfl
    | cons first more =>
      have some_bytes : utf8 (first :: more) ≠ [] := fun none =>
        List.cons_ne_nil first more (utf8_eq_nil_iff.mp none)
      exact if_neg some_bytes
  | cons char rest step =>
    rw [cut?_cons]
    rcases start : afterToken? token (char :: rest) with - | after
    · have absent : ¬ token.utf8 <+: utf8 (char :: rest) := by
        intro begins
        obtain ⟨after, whole⟩ := utf8_prefix_iff.mp begins
        rw [afterToken?_eq_some_iff.mpr whole.symm] at start
        cases start
      have some_token : token ≠ [] := by
        rintro rfl
        exact absent List.nil_prefix
      obtain ⟨lead, inner, spelled, -, inners⟩ := exists_spelling char
      rw [utf8_cons, spelled, List.cons_append] at absent
      rw [utf8_cons, spelled, List.cons_append, offsetOf?_cons absent,
        offsetOf?_inner some_token inners, step, Option.map_map, Option.map_map, Option.map_map]
      congr 1
      funext cut
      simp only [Function.comp_apply, utf8_cons, spelled, List.length_append, List.length_cons]
      omega
    · have begins : token <+: char :: rest := ⟨after, (afterToken?_eq_some_iff.mp start).symm⟩
      exact offsetOf?_of_prefix (utf8_prefix_iff.mpr begins)

-- the second byte of a character is no place to cut at
example : upTo (utf8 "é".toList) 1 = .error (.insideCharacter 1) := by decide +kernel

end Bytes

end LineCensus
