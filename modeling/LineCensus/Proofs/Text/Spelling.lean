import Mathlib
import LineCensus.Text.Utf8

/-!
# The bytes of a character

A character is spelled by a lead byte and up to three bytes with six bits each. What a reader
holds of a character after some of its bytes is a set of code points (`Unfinished.Allows`): those
whose spelling begins with the bytes read. `Unfinished.After` says so, and that every code point in
the set is a character. It holds after a lead byte (`after_lead`), and every byte within the limits
of the reader keeps it (`Unfinished.After.continues`), ends a character (`completes`), or else no
character goes on like that (`refuses`).
-/
namespace LineCensus.Utf8

/-- The last bytes of the spelling of a code point, so many of them. -/
def continuation : Nat → Nat → Bytes
  | 0, _ => []
  | more + 1, code => UInt8.ofNat (code / 64 ^ more % 64 + 0x80) :: continuation more code

/-- A byte begins the spelling of a code point, and so many bytes come after it. -/
inductive Leads (lead : UInt8) (code : Nat) : Nat → Prop where
  /-- The code point is a byte of its own. -/
  | alone (below : code < 0x80) (same : lead.toNat = code) : Leads lead code 0
  /-- There is one more byte. -/
  | one (above : 0x80 ≤ code) (below : code < 0x800) (same : lead.toNat = code / 64 + 0xC0) :
    Leads lead code 1
  /-- There are two more bytes. -/
  | two (above : 0x800 ≤ code) (below : code < 0x10000)
    (same : lead.toNat = code / 4096 + 0xE0) : Leads lead code 2
  /-- There are three more bytes. -/
  | three (above : 0x10000 ≤ code) (below : code < 0x110000)
    (same : lead.toNat = code / 262144 + 0xF0) : Leads lead code 3

/-- A code point of a character is one up to the last. -/
theorem toNat_lt (char : Char) : char.toNat < 0x110000 := by
  have valid : char.toNat.isValidChar := char.valid
  unfold Nat.isValidChar at valid
  omega

/-- A character is spelled by a lead byte and the bytes after it. -/
theorem exists_leads (char : Char) : ∃ lead more, Leads lead char.toNat more ∧
    String.utf8EncodeChar char = lead :: continuation more char.toNat := by
  have last := toNat_lt char
  unfold String.utf8EncodeChar
  simp only [show char.val.toNat = char.toNat from rfl]
  split
  · next one =>
    refine ⟨UInt8.ofNat char.toNat, 0, .alone (by omega) ?_, rfl⟩
    rw [UInt8.toNat_ofNat']
    omega
  · split
    · next above below =>
      rw [show char.toNat / 64 % 32 = char.toNat / 64 by omega]
      refine ⟨UInt8.ofNat (char.toNat / 64 + 0xC0), 1, .one (by omega) (by omega) ?_,
        by simp [continuation]⟩
      rw [UInt8.toNat_ofNat']
      omega
    · split
      · next above below =>
        rw [show char.toNat / 4096 % 16 = char.toNat / 4096 by omega]
        refine ⟨UInt8.ofNat (char.toNat / 4096 + 0xE0), 2, .two (by omega) (by omega) ?_,
          by simp [continuation]⟩
        rw [UInt8.toNat_ofNat']
        omega
      · next above =>
        rw [show char.toNat / 262144 % 8 = char.toNat / 262144 by omega]
        refine ⟨UInt8.ofNat (char.toNat / 262144 + 0xF0), 3, .three (by omega) (by omega) ?_,
          by simp [continuation]⟩
        rw [UInt8.toNat_ofNat']
        omega

/-- No character is spelled by the first bytes of another one. -/
theorem eq_of_spelling_prefix {char other : Char}
    (begins : String.utf8EncodeChar char <+: String.utf8EncodeChar other) : char = other := by
  have read : ∀ (char : Char) (rest : Bytes),
      (String.utf8EncodeChar char ++ rest).toByteArray.utf8DecodeChar? 0 = some char := by
    intro char rest
    rw [List.toByteArray_append]
    exact ByteArray.utf8DecodeChar?_utf8EncodeChar_append
  obtain ⟨rest, whole⟩ := begins
  have same := read other []
  rw [List.append_nil, ← whole, read char rest] at same
  exact Option.some.inj same

namespace Unfinished

/-- The code points that an unfinished character can still become. -/
def Allows (unfinished : Unfinished) (code : Nat) : Prop :=
  code / 64 ^ unfinished.missing = unfinished.code ∧
    unfinished.least ≤ code / 64 ^ (unfinished.missing - 1) % 64 + 0x80 ∧
    code / 64 ^ (unfinished.missing - 1) % 64 + 0x80 ≤ unfinished.greatest

/-- An unfinished character is what a reader holds after the first bytes of a character. -/
structure After (unfinished : Unfinished) (held : Bytes) : Prop where
  /-- At least one byte is still to come. -/
  missing_pos : 0 < unfinished.missing
  /-- The next byte is one that can follow a lead byte, and there is one. -/
  limits : 0x80 ≤ unfinished.least ∧ unfinished.least ≤ unfinished.greatest ∧
    unfinished.greatest ≤ 0xBF
  /-- What it can still become is a character that is spelled with the bytes read. -/
  spelled : ∀ code, unfinished.Allows code → ∃ char : Char, char.toNat = code ∧
    String.utf8EncodeChar char = held ++ continuation unfinished.missing code
  /-- It can still become every character that is spelled with the bytes read. -/
  allowed : ∀ char : Char, held <+: String.utf8EncodeChar char → unfinished.Allows char.toNat

end Unfinished

/-- A valid code point is that of a character. -/
theorem exists_char {code : Nat} (valid : code.isValidChar) : ∃ char : Char, char.toNat = code :=
  ⟨Char.ofNat code, by rw [Char.toNat_ofNat, if_pos valid]⟩

/-- The lead byte of a code point is settled by it. -/
theorem spelling_of_leads {lead : UInt8} {char : Char} {more : Nat}
    (leads : Leads lead char.toNat more) :
    String.utf8EncodeChar char = lead :: continuation more char.toNat := by
  obtain ⟨lead', more', leads', spelled⟩ := exists_leads char
  have same : lead.toNat = lead'.toNat ∧ more = more' := by
    cases leads <;> cases leads' <;> omega
  rw [spelled, same.2, UInt8.toNat_inj.mp same.1]

/-- A first byte of a character is its lead byte. -/
theorem leads_of_prefix {lead : UInt8} {char : Char}
    (begins : [lead] <+: String.utf8EncodeChar char) : ∃ more, Leads lead char.toNat more := by
  obtain ⟨lead', more, leads, spelled⟩ := exists_leads char
  rw [spelled, List.cons_prefix_cons] at begins
  obtain ⟨rfl, _⟩ := begins
  exact ⟨more, leads⟩

/-- A byte that is a character of its own spells that character. -/
theorem spelling_of_whole {byte : UInt8} {char : Char}
    (whole : Lead.ofByte byte.toNat = .whole char) : String.utf8EncodeChar char = [byte] := by
  unfold Lead.ofByte at whole
  split at whole
  · next below =>
    cases whole
    have same : (Char.ofNat byte.toNat).toNat = byte.toNat := by
      rw [Char.toNat_ofNat, if_pos]
      unfold Nat.isValidChar
      omega
    exact spelling_of_leads (.alone (by omega) same.symm)
  · repeat' split at whole
    all_goals cases whole

/-- No character begins with a stray byte. -/
theorem not_begins_of_stray {byte : UInt8} (stray : Lead.ofByte byte.toNat = .stray)
    (char : Char) : ¬ [byte] <+: String.utf8EncodeChar char := by
  intro begins
  obtain ⟨more, leads⟩ := leads_of_prefix begins
  have outside : 0x80 ≤ byte.toNat ∧ byte.toNat < 0xC2 ∨ 0xF4 < byte.toNat := by
    unfold Lead.ofByte at stray
    repeat' split at stray
    all_goals first
      | omega
      | cases stray
  cases leads <;> omega

/-- The lead bytes of characters of several bytes, with what they say. -/
theorem first_cases {byte : Nat} {unfinished : Unfinished}
    (first : Lead.ofByte byte = .first unfinished) :
    (0xC2 ≤ byte ∧ byte < 0xE0 ∧ unfinished = ⟨byte - 0xC0, 1, 0x80, 0xBF⟩) ∨
    (byte = 0xE0 ∧ unfinished = ⟨0, 2, 0xA0, 0xBF⟩) ∨
    (byte = 0xED ∧ unfinished = ⟨0xD, 2, 0x80, 0x9F⟩) ∨
    (0xE0 < byte ∧ byte < 0xF0 ∧ byte ≠ 0xED ∧ unfinished = ⟨byte - 0xE0, 2, 0x80, 0xBF⟩) ∨
    (byte = 0xF0 ∧ unfinished = ⟨0, 3, 0x90, 0xBF⟩) ∨
    (0xF0 < byte ∧ byte < 0xF4 ∧ unfinished = ⟨byte - 0xF0, 3, 0x80, 0xBF⟩) ∨
    (byte = 0xF4 ∧ unfinished = ⟨4, 3, 0x80, 0x8F⟩) := by
  unfold Lead.ofByte at first
  grind

/-- After the lead byte of a character of several bytes, the reader holds what the byte says. -/
theorem after_lead {byte : UInt8} {unfinished : Unfinished}
    (first : Lead.ofByte byte.toNat = .first unfinished) : unfinished.After [byte] := by
  -- the code points that the limits leave are those that the byte leads, and all are valid
  have led : ∀ code, unfinished.Allows code →
      code.isValidChar ∧ Leads byte code unfinished.missing := by
    rintro code ⟨top, above, below⟩
    unfold Nat.isValidChar
    rcases first_cases first with ⟨_, _, rfl⟩ | ⟨_, rfl⟩ | ⟨_, rfl⟩ | ⟨_, _, _, rfl⟩ | ⟨_, rfl⟩ |
      ⟨_, _, rfl⟩ | ⟨_, rfl⟩ <;> norm_num at top above below
    · exact ⟨by omega, .one (by omega) (by omega) (by omega)⟩
    · exact ⟨by omega, .two (by omega) (by omega) (by omega)⟩
    · exact ⟨by omega, .two (by omega) (by omega) (by omega)⟩
    · exact ⟨by omega, .two (by omega) (by omega) (by omega)⟩
    · exact ⟨by omega, .three (by omega) (by omega) (by omega)⟩
    · exact ⟨by omega, .three (by omega) (by omega) (by omega)⟩
    · exact ⟨by omega, .three (by omega) (by omega) (by omega)⟩
  constructor
  case missing_pos =>
    rcases first_cases first with ⟨_, _, rfl⟩ | ⟨_, rfl⟩ | ⟨_, rfl⟩ | ⟨_, _, _, rfl⟩ | ⟨_, rfl⟩ |
      ⟨_, _, rfl⟩ | ⟨_, rfl⟩ <;> dsimp only <;> omega
  case limits =>
    rcases first_cases first with ⟨_, _, rfl⟩ | ⟨_, rfl⟩ | ⟨_, rfl⟩ | ⟨_, _, _, rfl⟩ | ⟨_, rfl⟩ |
      ⟨_, _, rfl⟩ | ⟨_, rfl⟩ <;> dsimp only <;> omega
  case spelled =>
    intro code allows
    obtain ⟨char, rfl⟩ := exists_char (led code allows).1
    exact ⟨char, rfl, spelling_of_leads (led _ allows).2⟩
  case allowed =>
    intro char begins
    obtain ⟨more, leads⟩ := leads_of_prefix begins
    have valid : char.toNat.isValidChar := char.valid
    unfold Nat.isValidChar at valid
    unfold Unfinished.Allows
    rcases first_cases first with ⟨_, _, rfl⟩ | ⟨_, rfl⟩ | ⟨_, rfl⟩ | ⟨_, _, _, rfl⟩ | ⟨_, rfl⟩ |
      ⟨_, _, rfl⟩ | ⟨_, rfl⟩ <;> norm_num <;> cases leads <;> omega

namespace Unfinished

variable {unfinished : Unfinished} {held : Bytes} {byte : UInt8} {char : Char}

/-- The byte is within the limits of an unfinished character. -/
def Admits (unfinished : Unfinished) (byte : UInt8) : Prop :=
  unfinished.least ≤ byte.toNat ∧ byte.toNat ≤ unfinished.greatest

/-- An unfinished character with one more byte. -/
def extend (unfinished : Unfinished) (byte : UInt8) : Unfinished :=
  ⟨unfinished.code * 64 + (byte.toNat - 0x80), unfinished.missing - 1, 0x80, 0xBF⟩

/-- A character that begins with the bytes read is spelled by them and the bytes to come. -/
theorem After.spelling (after : unfinished.After held)
    (begins : held <+: String.utf8EncodeChar char) :
    String.utf8EncodeChar char = held ++ continuation unfinished.missing char.toNat := by
  obtain ⟨other, same, spelled⟩ := after.spelled _ (after.allowed char begins)
  rwa [Char.toNat_inj.mp same] at spelled

/-- In a character that begins with the bytes read, the byte after them has the next six bits. -/
theorem After.next_byte (after : unfinished.After held)
    (begins : held ++ [byte] <+: String.utf8EncodeChar char) :
    byte.toNat = char.toNat / 64 ^ (unfinished.missing - 1) % 64 + 0x80 := by
  have spelling := after.spelling ((List.prefix_append held [byte]).trans begins)
  obtain ⟨more, missing⟩ := Nat.exists_eq_add_of_lt after.missing_pos
  rw [spelling, List.prefix_append_right_inj, missing, Nat.zero_add, continuation,
    List.cons_prefix_cons] at begins
  rw [begins.1, UInt8.toNat_ofNat', missing, Nat.zero_add, Nat.add_sub_cancel]
  omega

/-- A byte outside of the limits goes on with no character. -/
theorem After.refuses (after : unfinished.After held) (outside : ¬ unfinished.Admits byte)
    (char : Char) : ¬ held ++ [byte] <+: String.utf8EncodeChar char := by
  intro begins
  have next := after.next_byte begins
  have allows := after.allowed char ((List.prefix_append held [byte]).trans begins)
  apply outside
  unfold Admits
  rw [next]
  exact allows.2

/-- A byte within the limits takes part in the code points that it leaves. -/
theorem After.allows_of_extend (after : unfinished.After held) (within : unfinished.Admits byte)
    {code : Nat} (next : code / 64 ^ (unfinished.missing - 1) = (unfinished.extend byte).code) :
    unfinished.Allows code ∧ continuation unfinished.missing code =
      byte :: continuation (unfinished.missing - 1) code := by
  obtain ⟨more, missing⟩ := Nat.exists_eq_add_of_lt after.missing_pos
  obtain ⟨above, below⟩ := within
  have limits := after.limits
  rw [missing, Nat.zero_add, Nat.add_sub_cancel] at next
  have top : code / 64 ^ (more + 1) = unfinished.code := by
    rw [Nat.pow_succ, ← Nat.div_div_eq_div_mul, next]
    unfold extend
    dsimp only
    omega
  have bits : code / 64 ^ more % 64 + 0x80 = byte.toNat := by
    rw [next]
    unfold extend
    dsimp only
    omega
  unfold Allows
  rw [missing, Nat.zero_add, Nat.add_sub_cancel, continuation, bits, UInt8.ofNat_toNat]
  exact ⟨⟨top, above, below⟩, rfl⟩

/-- A byte within the limits, where more are to come, leaves the characters spelled with it. -/
theorem After.continues (after : unfinished.After held) (within : unfinished.Admits byte)
    (more : 1 < unfinished.missing) : (unfinished.extend byte).After (held ++ [byte]) where
  missing_pos := by
    unfold extend
    dsimp only
    omega
  limits := by
    unfold extend
    dsimp only
    omega
  spelled code allows := by
    obtain ⟨allows', bytes⟩ := after.allows_of_extend within allows.1
    obtain ⟨char, same, spelled⟩ := after.spelled code allows'
    refine ⟨char, same, ?_⟩
    rw [spelled, bytes, List.append_assoc]
    rfl
  allowed char begins := by
    have allows := after.allowed char ((List.prefix_append held [byte]).trans begins)
    have next := after.next_byte begins
    obtain ⟨fewer, missing⟩ := Nat.exists_eq_add_of_lt more
    have top := allows.1
    unfold Allows extend
    dsimp only
    rw [show unfinished.missing = fewer + 1 + 1 by omega] at top next ⊢
    rw [Nat.pow_succ, ← Nat.div_div_eq_div_mul] at top
    rw [Nat.add_sub_cancel] at next ⊢
    omega

/-- The last byte within the limits ends a character. -/
theorem After.completes (after : unfinished.After held) (within : unfinished.Admits byte)
    (last : unfinished.missing ≤ 1) :
    String.utf8EncodeChar (Char.ofNat (unfinished.extend byte).code) = held ++ [byte] := by
  have missing : unfinished.missing = 1 := Nat.le_antisymm last after.missing_pos
  have next : (unfinished.extend byte).code / 64 ^ (unfinished.missing - 1) =
      (unfinished.extend byte).code := by
    rw [missing]
    exact Nat.div_one _
  obtain ⟨allows, bytes⟩ := after.allows_of_extend within next
  obtain ⟨char, same, spelled⟩ := after.spelled _ allows
  rw [← same, Char.ofNat_toNat, spelled, bytes, missing]
  rfl

/-- There is a character that begins with the bytes read and a byte within the limits. -/
theorem After.admits (after : unfinished.After held) (within : unfinished.Admits byte) :
    ∃ char, held ++ [byte] <+: String.utf8EncodeChar char := by
  have next : (unfinished.extend byte).code * 64 ^ (unfinished.missing - 1) /
      64 ^ (unfinished.missing - 1) = (unfinished.extend byte).code :=
    Nat.mul_div_cancel _ (by positivity)
  obtain ⟨allows, bytes⟩ := after.allows_of_extend within next
  obtain ⟨char, same, spelled⟩ := after.spelled _ allows
  refine ⟨char, ?_⟩
  rw [spelled, bytes, List.prefix_append_right_inj, List.cons_prefix_cons]
  exact ⟨rfl, List.nil_prefix⟩

/-- There is a character that begins with the bytes read. -/
theorem After.begins (after : unfinished.After held) :
    ∃ char, held <+: String.utf8EncodeChar char := by
  have limits := after.limits
  have least : (UInt8.ofNat unfinished.least).toNat = unfinished.least := by
    rw [UInt8.toNat_ofNat']
    omega
  have within : unfinished.Admits (UInt8.ofNat unfinished.least) :=
    ⟨least.ge, least.le.trans limits.2.1⟩
  obtain ⟨char, longer⟩ := after.admits within
  exact ⟨char, (List.prefix_append _ _).trans longer⟩

/-- The bytes read are not the whole of a character. -/
theorem After.unended (after : unfinished.After held) (char : Char) :
    String.utf8EncodeChar char ≠ held := by
  intro spelled
  have begins : held <+: String.utf8EncodeChar char := by rw [spelled]
  have spelling := after.spelling begins
  obtain ⟨more, missing⟩ := Nat.exists_eq_add_of_lt after.missing_pos
  rw [spelled, List.self_eq_append_right, missing, continuation] at spelling
  cases spelling

end Unfinished

end LineCensus.Utf8
