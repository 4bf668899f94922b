import LineCensus.Proofs.Text.Spelling
import LineCensus.Text.Lines

/-!
# What bytes are read as

Bytes are read from the front: a character where one is spelled, and otherwise one replacement
character for the longest run of bytes that begins a character, or for a single byte that begins
none (`Decodes`). Every sequence of bytes is read as exactly one text, and the reader that takes one
byte at a time finds it (`decodes_iff`).

The reader holds a character begun, and `Reader.Holds` says which bytes it stands for. A byte goes
on with the character, ends it, or makes the reader start again, and what the reader holds follows
the bytes (`Reader.Holds.step`, `Reader.Holds.ends`, `Reader.Holds.refuses`).

A line feed is never part of another character and never goes on with a run that is replaced. So
bytes can be cut after line feeds before they are read, and the texts read are the text of the whole
cut after its line feeds (`chunks_decode`).
-/
namespace LineCensus.Utf8

/-- Bytes with which a character begins, or all of its bytes. -/
def Begins (bytes : Bytes) : Prop := ∃ char, bytes <+: String.utf8EncodeChar char

/-- The bytes at the front of the rest that are read as one replacement character. -/
structure IllFormed (run rest : Bytes) : Prop where
  /-- There is a byte to be replaced. -/
  nonempty : run ≠ []
  /-- No character is spelled there. -/
  absent : ∀ char, ¬ String.utf8EncodeChar char <+: run ++ rest
  /-- The bytes begin a character, unless there is just one. -/
  begins : Begins run ∨ run.length = 1
  /-- No longer run begins a character. -/
  longest : ∀ longer, longer <+: run ++ rest → Begins longer → longer.length ≤ run.length

/-- Bytes are read as a text. -/
inductive Decodes : Bytes → Text → Prop where
  /-- Nothing is left to be read. -/
  | nil : Decodes [] []
  /-- A character is spelled at the front. -/
  | char (char : Char) {rest : Bytes} {text : Text} (later : Decodes rest text) :
    Decodes (String.utf8EncodeChar char ++ rest) (char :: text)
  /-- No character is spelled at the front. -/
  | illFormed {run rest : Bytes} {text : Text} (illFormed : IllFormed run rest)
    (later : Decodes rest text) : Decodes (run ++ rest) (replacement :: text)

/-- Bytes that begin something begin with bytes that do. -/
theorem Begins.shorter {bytes longer : Bytes} (begins : Begins longer)
    (front : bytes <+: longer) : Begins bytes := by
  obtain ⟨char, spelled⟩ := begins
  exact ⟨char, front.trans spelled⟩

namespace Reader

/-- A reader has read characters, and then bytes that begin another one. -/
inductive Holds : Reader → Text → Bytes → Prop where
  /-- No byte has been read after the characters. -/
  | between (chars : Text) : Holds ⟨chars, none⟩ chars []
  /-- The bytes are held as an unfinished character. -/
  | within (chars : Text) {unfinished : Unfinished} {held : Bytes}
    (after : unfinished.After held) : Holds ⟨chars, some unfinished⟩ chars held

variable {reader : Reader} {chars : Text} {held : Bytes} {byte : UInt8}

/-- Within the limits, a reader goes on with the unfinished character or ends it. -/
theorem step_of_admits {unfinished : Unfinished} (within : unfinished.Admits byte) :
    step ⟨chars, some unfinished⟩ byte =
      if unfinished.missing ≤ 1 then ⟨Char.ofNat (unfinished.extend byte).code :: chars, none⟩
      else ⟨chars, some (unfinished.extend byte)⟩ := by
  unfold step
  exact if_pos within

/-- Outside of the limits, a reader replaces the unfinished character and starts again. -/
theorem step_of_not_admits {unfinished : Unfinished} (outside : ¬ unfinished.Admits byte) :
    step ⟨chars, some unfinished⟩ byte = step ⟨replacement :: chars, none⟩ byte := by
  unfold step
  exact if_neg outside

/-- A byte that goes on with a character, but does not end it, is held with the others. -/
theorem Holds.step (holds : reader.Holds chars held) (begins : Begins (held ++ [byte]))
    (unended : ∀ char, String.utf8EncodeChar char ≠ held ++ [byte]) :
    (reader.step byte).Holds chars (held ++ [byte]) := by
  cases holds with
  | between =>
    unfold Reader.step
    simp only [start, List.nil_append] at unended begins ⊢
    split
    · next char whole => exact absurd (spelling_of_whole whole) (unended char)
    · next first => exact .within chars (after_lead first)
    · next stray =>
      obtain ⟨char, front⟩ := begins
      exact absurd front (not_begins_of_stray stray char)
  | @within _ unfinished _ after =>
    have within : unfinished.Admits byte := by
      by_contra outside
      obtain ⟨char, front⟩ := begins
      exact after.refuses outside char front
    rw [step_of_admits within]
    split
    · next last => exact absurd (after.completes within last) (unended _)
    · next more => exact .within chars (after.continues within (Nat.lt_of_not_le more))

/-- A byte that ends a character makes it one of those read. -/
theorem Holds.ends (holds : reader.Holds chars held) {char : Char}
    (spelled : String.utf8EncodeChar char = held ++ [byte]) :
    reader.step byte = ⟨char :: chars, none⟩ := by
  have begins : held ++ [byte] <+: String.utf8EncodeChar char := by rw [spelled]
  have only : ∀ other, String.utf8EncodeChar other = held ++ [byte] → other = char :=
    fun other same => eq_of_spelling_prefix (same ▸ begins)
  cases holds with
  | between =>
    unfold Reader.step
    simp only [start, List.nil_append] at begins only spelled ⊢
    split
    · next other whole => rw [only other (spelling_of_whole whole)]
    · next first => exact absurd spelled ((after_lead first).unended char)
    · next stray => exact absurd begins (not_begins_of_stray stray char)
  | @within _ unfinished _ after =>
    have within : unfinished.Admits byte := by
      by_contra outside
      exact after.refuses outside char begins
    rw [step_of_admits within]
    split
    · next last => rw [only _ (after.completes within last)]
    · next more =>
      have longer := after.continues within (Nat.lt_of_not_le more)
      exact absurd spelled (longer.unended char)

/-- A byte with which no character goes on makes the reader replace what it holds and start
again. -/
theorem Holds.refuses (holds : reader.Holds chars held) (some_held : held ≠ [])
    (stops : ¬ Begins (held ++ [byte])) :
    reader.step byte = Reader.step ⟨replacement :: chars, none⟩ byte := by
  cases holds with
  | between => exact absurd rfl some_held
  | within _ after => exact step_of_not_admits fun within => stops (after.admits within)

/-- A byte with which no character begins is replaced. -/
theorem step_stray (stops : ¬ Begins [byte]) :
    Reader.step ⟨chars, none⟩ byte = ⟨replacement :: chars, none⟩ := by
  unfold Reader.step
  simp only [start]
  split
  · next char whole => exact absurd ⟨char, by rw [spelling_of_whole whole]⟩ stops
  · next first => exact absurd (after_lead first).begins stops
  · rfl

/-- Bytes that begin a character, without the whole of one among them, are held. -/
theorem holds_foldl (chars : Text) {held : Bytes} (begins : Begins held)
    (unended : ∀ char, ¬ String.utf8EncodeChar char <+: held) :
    (held.foldl Reader.step ⟨chars, none⟩).Holds chars held := by
  induction held using List.reverseRecOn with
  | nil => exact .between chars
  | append_singleton held byte step =>
    have front : held <+: held ++ [byte] := List.prefix_append _ _
    have before := step (begins.shorter front)
      fun char spelled => unended char (spelled.trans front)
    rw [List.foldl_append]
    exact before.step begins fun char spelled => unended char (by rw [spelled])

/-- The bytes of a character are read as the character. -/
theorem foldl_spelling (chars : Text) (char : Char) :
    (String.utf8EncodeChar char).foldl Reader.step ⟨chars, none⟩ = ⟨char :: chars, none⟩ := by
  rcases List.eq_nil_or_concat (String.utf8EncodeChar char) with none | ⟨held, byte, spelled⟩
  · exact absurd none String.utf8EncodeChar_ne_nil
  · rw [List.concat_eq_append] at spelled
    have front : held <+: String.utf8EncodeChar char := ⟨[byte], spelled.symm⟩
    have unended : ∀ other, ¬ String.utf8EncodeChar other <+: held := by
      intro other ended
      obtain rfl := eq_of_spelling_prefix (ended.trans front)
      have short := ended.length_le
      rw [spelled, List.length_append, List.length_singleton] at short
      omega
    rw [spelled, List.foldl_append]
    exact (holds_foldl chars ⟨char, front⟩ unended).ends spelled

/-- The characters read before only lead those read after. -/
theorem step_chars (read chars : Text) (unfinished : Option Unfinished) (byte : UInt8) :
    Reader.step ⟨chars ++ read, unfinished⟩ byte =
      ⟨(Reader.step ⟨chars, unfinished⟩ byte).chars ++ read,
        (Reader.step ⟨chars, unfinished⟩ byte).unfinished⟩ := by
  have starts : ∀ chars : Text, start (chars ++ read) byte.toNat =
      ⟨(start chars byte.toNat).chars ++ read, (start chars byte.toNat).unfinished⟩ := by
    intro chars
    unfold start
    cases Lead.ofByte byte.toNat <;> rfl
  cases unfinished with
  | none => exact starts chars
  | some held =>
    by_cases within : held.Admits byte
    · rw [step_of_admits within, step_of_admits within]
      split <;> rfl
    · rw [step_of_not_admits within, step_of_not_admits within]
      exact starts (replacement :: chars)

/-- Reading on between two characters reads the rest as a text of its own. -/
theorem text_foldl (chars : Text) (bytes : Bytes) :
    (bytes.foldl Reader.step ⟨chars, none⟩).text = chars.reverse ++ decode bytes := by
  have run : ∀ (bytes : Bytes) (read : Text) (unfinished : Option Unfinished),
      (bytes.foldl Reader.step ⟨read ++ chars, unfinished⟩).text =
        chars.reverse ++ (bytes.foldl Reader.step ⟨read, unfinished⟩).text := by
    intro bytes
    induction bytes with
    | nil =>
      intro read unfinished
      cases unfinished <;> simp [text]
    | cons byte bytes step =>
      intro read unfinished
      rw [List.foldl_cons, step_chars, step]
      rfl
  exact run bytes [] none

end Reader

/-- A character spelled at the front is read. -/
theorem decode_spelling_append (char : Char) (rest : Bytes) :
    decode (String.utf8EncodeChar char ++ rest) = char :: decode rest := by
  have read := Reader.text_foldl [char] rest
  unfold decode at read ⊢
  rw [List.foldl_append, Reader.foldl_spelling, read]
  rfl

/-- A run of bytes that are no character is read as the replacement character. -/
theorem decode_illFormed_append {run rest : Bytes} (illFormed : IllFormed run rest) :
    decode (run ++ rest) = replacement :: decode rest := by
  have replaced := Reader.text_foldl [replacement] rest
  by_cases begins : Begins run
  · have unended : ∀ char, ¬ String.utf8EncodeChar char <+: run := fun char spelled =>
      illFormed.absent char (spelled.trans (List.prefix_append run rest))
    have holds := Reader.holds_foldl [] begins unended
    unfold decode at replaced ⊢
    rw [List.foldl_append]
    cases rest with
    | nil =>
      rw [List.foldl_nil]
      generalize run.foldl Reader.step {} = reader at holds ⊢
      cases holds with
      | between => exact absurd rfl illFormed.nonempty
      | within => rfl
    | cons byte rest =>
      have stops : ¬ Begins (run ++ [byte]) := by
        intro longer
        have short := illFormed.longest _ (by simp) longer
        rw [List.length_append, List.length_singleton] at short
        omega
      rw [List.foldl_cons, holds.refuses illFormed.nonempty stops]
      exact replaced
  · obtain ⟨byte, rfl⟩ := List.length_eq_one_iff.mp (illFormed.begins.resolve_left begins)
    unfold decode at replaced ⊢
    rw [List.singleton_append, List.foldl_cons, Reader.step_stray begins, replaced]
    rfl

/-- Where no character is spelled, a run of bytes is to be replaced. -/
theorem exists_illFormed {bytes : Bytes} (some_bytes : bytes ≠ [])
    (absent : ∀ char, ¬ String.utf8EncodeChar char <+: bytes) :
    ∃ run rest, bytes = run ++ rest ∧ IllFormed run rest := by
  classical
  -- the longest part at the front that begins a character, or one byte
  let count := Nat.findGreatest (fun count => Begins (bytes.take count)) bytes.length
  have length_pos : 0 < bytes.length := List.length_pos_of_ne_nil some_bytes
  have count_le : count ≤ bytes.length := Nat.findGreatest_le _
  have length_run : (bytes.take (max count 1)).length = max count 1 := by
    rw [List.length_take]
    omega
  refine ⟨bytes.take (max count 1), bytes.drop (max count 1),
    (List.take_append_drop _ _).symm, ?_⟩
  constructor
  case nonempty =>
    apply List.ne_nil_of_length_pos
    omega
  case absent =>
    rwa [List.take_append_drop]
  case begins =>
    by_cases found : 0 < count
    · left
      have begins : Begins (bytes.take count) :=
        Nat.findGreatest_spec (P := fun count => Begins (bytes.take count)) (Nat.zero_le _)
          ⟨'\n', List.nil_prefix⟩
      rwa [max_eq_left found]
    · right
      omega
  case longest =>
    intro longer front begins
    rw [List.take_append_drop] at front
    rw [List.prefix_iff_eq_take.mp front] at begins
    have least : longer.length ≤ count := Nat.le_findGreatest front.length_le begins
    omega

/-- All bytes are read as some text. -/
theorem exists_decodes (bytes : Bytes) : ∃ text, Decodes bytes text := by
  by_cases empty : bytes = []
  · exact ⟨[], empty ▸ .nil⟩
  · by_cases spelled : ∃ char, String.utf8EncodeChar char <+: bytes
    · obtain ⟨char, rest, whole⟩ := spelled
      have shorter : rest.length < bytes.length := by
        have some_bytes := List.length_pos_of_ne_nil (String.utf8EncodeChar_ne_nil (c := char))
        rw [← whole, List.length_append]
        omega
      obtain ⟨text, later⟩ := exists_decodes rest
      exact ⟨char :: text, whole ▸ .char char later⟩
    · obtain ⟨run, rest, whole, illFormed⟩ := exists_illFormed empty (not_exists.mp spelled)
      have shorter : rest.length < bytes.length := by
        have some_bytes := List.length_pos_of_ne_nil illFormed.nonempty
        rw [whole, List.length_append]
        omega
      obtain ⟨text, later⟩ := exists_decodes rest
      exact ⟨replacement :: text, whole ▸ .illFormed illFormed later⟩
termination_by bytes.length

/-- Bytes are read as what the reader makes of them, and as nothing else. -/
theorem decodes_iff {bytes : Bytes} {text : Text} : Decodes bytes text ↔ decode bytes = text := by
  have sound : ∀ {text : Text}, Decodes bytes text → decode bytes = text := by
    intro text decodes
    induction decodes with
    | nil => rfl
    | char char _ step => rw [decode_spelling_append, step]
    | illFormed illFormed _ step => rw [decode_illFormed_append illFormed, step]
  constructor
  · exact sound
  · rintro rfl
    obtain ⟨text, decodes⟩ := exists_decodes bytes
    exact (sound decodes).symm ▸ decodes

/-- The bytes of a text are read as the text. -/
theorem decode_utf8 (text : Text) : decode text.utf8 = text := by
  induction text with
  | nil => rfl
  | cons char text step =>
    have spelled : Text.utf8 (char :: text) = String.utf8EncodeChar char ++ Text.utf8 text := rfl
    rw [spelled, decode_spelling_append, step]

/-- Different texts have different bytes. -/
theorem utf8_injective : Function.Injective Text.utf8 := Function.LeftInverse.injective decode_utf8

/-- A line feed is read from no other byte. -/
theorem newline_not_mem_decode {bytes : Bytes} (absent : 0x0A ∉ bytes) :
    '\n' ∉ decode bytes := by
  have read : ∀ {text : Text}, Decodes bytes text → '\n' ∉ text := by
    intro text decodes
    induction decodes with
    | nil => exact List.not_mem_nil
    | char char _ step =>
      rw [List.mem_append, not_or] at absent
      rw [List.mem_cons, not_or]
      refine ⟨?_, step absent.2⟩
      rintro rfl
      exact absent.1 (by decide)
    | illFormed _ _ step =>
      rw [List.mem_append, not_or] at absent
      rw [List.mem_cons, not_or]
      exact ⟨by decide, step absent.2⟩
  exact read (decodes_iff.mpr rfl)

/-- Bytes are read as some character if there are any. -/
theorem decode_ne_nil {bytes : Bytes} (some_bytes : bytes ≠ []) : decode bytes ≠ [] := by
  intro none
  have decodes := decodes_iff.mpr none
  cases decodes
  exact some_bytes rfl

/-- Bytes before a line feed and bytes after it are read apart. -/
theorem decode_append_newline (front back : Bytes) :
    decode (front ++ 0x0A :: back) = decode front ++ '\n' :: decode back := by
  have fed : (front.foldl Reader.step {}).step 0x0A =
      ⟨'\n' :: (front.foldl Reader.step {}).text.reverse, none⟩ :=
    Reader.step_of_ascii (by decide) (Reader.least_foldl front)
  unfold decode
  rw [List.foldl_append, List.foldl_cons, fed, Reader.text_foldl, List.reverse_cons,
    List.reverse_reverse, List.append_assoc]
  rfl

end LineCensus.Utf8

namespace LineCensus

variable {α : Type} {ends : α → Bool}

/-- A chunk goes up to and including the first item that ends one. -/
theorem chunks_append_cons {front : List α} (inside : ∀ item ∈ front, ends item = false)
    {last : α} (ended : ends last = true) (back : List α) :
    chunks ends (front ++ last :: back) = (front ++ [last]) :: chunks ends back := by
  induction front with
  | nil => simp [chunks, ended]
  | cons item front step =>
    have later := step fun other present => inside other (List.mem_cons_of_mem _ present)
    have goes_on := inside item List.mem_cons_self
    unfold chunks at later ⊢
    rw [List.cons_append, List.foldr_cons, later, goes_on]
    rfl

/-- Items of which none ends a chunk are one chunk. -/
theorem chunks_of_inside {items : List α} (some_items : items ≠ [])
    (inside : ∀ item ∈ items, ends item = false) : chunks ends items = [items] := by
  induction items with
  | nil => exact absurd rfl some_items
  | cons item items step =>
    have goes_on := inside item List.mem_cons_self
    by_cases last : items = []
    · subst last
      simp [chunks, goes_on]
    · have later := step last fun other present => inside other (List.mem_cons_of_mem _ present)
      unfold chunks at later ⊢
      rw [List.foldr_cons, later, goes_on]
      rfl

/-- The chunks of the text read are read from the chunks of the bytes. -/
theorem chunks_decode (bytes : Bytes) :
    chunks (· = '\n') (Utf8.decode bytes) = (chunks (· = 0x0A) bytes).map Utf8.decode := by
  by_cases ended : 0x0A ∈ bytes
  · obtain ⟨front, back, rfl, absent⟩ := List.eq_append_cons_of_mem ended
    have shorter : back.length < (front ++ 0x0A :: back).length := by
      rw [List.length_append, List.length_cons]
      omega
    have later := chunks_decode back
    have newline := Utf8.newline_not_mem_decode absent
    have chunk := Utf8.decode_append_newline front []
    rw [Utf8.decode_append_newline, chunks_append_cons _ (by decide),
      chunks_append_cons _ (by decide), later, List.map_cons, chunk]
    · rfl
    · intro byte present
      exact decide_eq_false fun same => absent (same ▸ present)
    · intro char present
      exact decide_eq_false fun same => newline (same ▸ present)
  · by_cases empty : bytes = []
    · subst empty
      rfl
    · have newline := Utf8.newline_not_mem_decode ended
      rw [chunks_of_inside (Utf8.decode_ne_nil empty), chunks_of_inside empty]
      · rfl
      · intro byte present
        exact decide_eq_false fun same => ended (same ▸ present)
      · intro char present
        exact decide_eq_false fun same => newline (same ▸ present)
termination_by bytes.length

end LineCensus
