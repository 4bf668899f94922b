import Mathlib.Algebra.GroupWithZero.Nat
import Mathlib.Data.List.Nodup
import LineCensus.FirstSeen

/-!
# What a log of writes leaves in a table

A table is the trace of a log: a list of entries, each written to its key in turn. The keys
are the first occurrences in the log (`keys_writeAll`), and the value of a key is what the
entries of that key make of it, whatever stands between them (`get?_writeAll`). A table is
determined by these two, so two logs that agree on both leave the same table.

The main statement is `writeAll_entries`: where one write of a finished value does what the
writes behind that value did, writing the entries of a finished table is the same as writing
its log. It turns a merge of two tables into one longer log.
-/
namespace LineCensus

variable {κ : Type}

section FirstOccurrences

variable [BEq κ] [LawfulBEq κ]

/-- Keeping first occurrences and keeping the items with a property can be done in either
order. -/
theorem eraseDups_filter (keep : κ → Bool) (items : List κ) :
    (items.filter keep).eraseDups = items.eraseDups.filter keep := by
  match items with
  | [] => rfl
  | item :: rest =>
    have shorter : (rest.filter fun other => !other == item).length < rest.length + 1 :=
      Nat.lt_succ_of_le (List.length_filter_le _ rest)
    have later := eraseDups_filter keep (rest.filter fun other => !other == item)
    rw [List.eraseDups_cons]
    by_cases kept : keep item = true
    · rw [List.filter_cons_of_pos kept, List.filter_cons_of_pos kept, List.eraseDups_cons,
        ← later, List.filter_filter, List.filter_filter]
      simp only [Bool.and_comm]
    · rw [List.filter_cons_of_neg kept, List.filter_cons_of_neg kept, ← later,
        List.filter_filter]
      congr 1
      apply List.filter_congr
      intro other _
      by_cases same : other = item
      · subst same
        simp [kept]
      · simp [same]
termination_by items.length

/-- First occurrences have no repetition. -/
theorem nodup_eraseDups (items : List κ) : items.eraseDups.Nodup := by
  match items with
  | [] => exact List.nodup_nil
  | item :: rest =>
    have shorter : (rest.filter fun other => !other == item).length < rest.length + 1 :=
      Nat.lt_succ_of_le (List.length_filter_le _ rest)
    rw [List.eraseDups_cons, List.nodup_cons]
    exact ⟨by simp, nodup_eraseDups _⟩
termination_by items.length

/-- A list without repetition is its own first occurrences. -/
theorem eraseDups_of_nodup {items : List κ} (nodup : items.Nodup) : items.eraseDups = items := by
  induction items with
  | nil => rfl
  | cons item rest step =>
    obtain ⟨absent, others⟩ := List.nodup_cons.mp nodup
    have same : (rest.filter fun other => !other == item) = rest := by
      rw [List.filter_eq_self]
      intro other present
      have different : other ≠ item := fun equal => absent (equal ▸ present)
      simpa using different
    rw [List.eraseDups_cons, same, step others]

/-- Repetitions in a first part do not matter. -/
theorem eraseDups_eraseDups_append (front back : List κ) :
    (front.eraseDups ++ back).eraseDups = (front ++ back).eraseDups := by
  have removed : back.removeAll front.eraseDups = back.removeAll front := by
    unfold List.removeAll
    apply List.filter_congr
    intro item _
    simp
  rw [List.eraseDups_append, List.eraseDups_append, eraseDups_of_nodup (nodup_eraseDups front),
    removed]

/-- Repetitions in a second part do not matter. -/
theorem eraseDups_append_eraseDups (front back : List κ) :
    (front ++ back.eraseDups).eraseDups = (front ++ back).eraseDups := by
  have removed : (back.eraseDups.removeAll front).eraseDups = (back.removeAll front).eraseDups := by
    unfold List.removeAll
    rw [← eraseDups_filter, eraseDups_of_nodup (nodup_eraseDups _)]
  rw [List.eraseDups_append, List.eraseDups_append, removed]

end FirstOccurrences

namespace FirstSeen

variable [DecidableEq κ] {α β γ : Type}

/-- A key is listed exactly when it has a value. -/
theorem mem_keys_iff {table : FirstSeen κ α} {key : κ} :
    key ∈ table.keys ↔ ∃ value, table.get? key = some value := by
  rw [← Option.isSome_iff_exists]
  unfold get? keys entryKeys
  rw [List.lookup_isSome_iff, List.mem_map]
  constructor
  · rintro ⟨entry, inside, rfl⟩
    exact ⟨entry, inside, by simp⟩
  · rintro ⟨entry, inside, same⟩
    exact ⟨entry, inside, (by simpa using same : key = entry.1).symm⟩

/-- A key without a value is not listed. -/
theorem get?_eq_none_iff {table : FirstSeen κ α} {key : κ} :
    table.get? key = none ↔ key ∉ table.keys := by
  rw [mem_keys_iff]
  cases table.get? key <;> simp

/-- An entry is listed exactly when its key has its value. -/
theorem mem_entries_iff {table : FirstSeen κ α} {key : κ} {value : α} :
    (key, value) ∈ table.entries ↔ table.get? key = some value := by
  obtain ⟨entries, nodup⟩ := table
  unfold get?
  dsimp only
  induction entries with
  | nil => simp
  | cons entry others step =>
    obtain ⟨head, stored⟩ := entry
    obtain ⟨absent, distinct⟩ := List.nodup_cons.mp nodup
    rw [List.lookup_cons, List.mem_cons, step distinct]
    by_cases same : key = head
    · subst same
      have missing : ∀ other, (key, other) ∉ others := fun other inside =>
        absent (List.mem_map.mpr ⟨_, inside, rfl⟩)
      have nowhere : others.lookup key ≠ some value := fun found =>
        missing value ((step distinct).mpr found)
      simp [nowhere, eq_comm]
    · have later : (key == head) = false := by simpa using same
      simp [same, later]

/-- A table is determined by its keys in order and by their values. -/
theorem ext_keys {left right : FirstSeen κ α} (keys : left.keys = right.keys)
    (values : ∀ key, left.get? key = right.get? key) : left = right := by
  obtain ⟨front, nodupFront⟩ := left
  obtain ⟨back, nodupBack⟩ := right
  suffices same : front = back by subst same; rfl
  unfold FirstSeen.keys at keys
  unfold get? at values
  dsimp only at keys values
  induction front generalizing back with
  | nil => exact (List.map_eq_nil_iff.mp keys.symm).symm
  | cons entry others step =>
    cases back with
    | nil => simp [entryKeys] at keys
    | cons entry' others' =>
      obtain ⟨key, value⟩ := entry
      obtain ⟨key', value'⟩ := entry'
      obtain ⟨sameKey, sameKeys⟩ := List.cons.inj keys
      dsimp only at sameKey
      subst sameKey
      obtain ⟨absent, distinct⟩ := List.nodup_cons.mp nodupFront
      obtain ⟨absent', distinct'⟩ := List.nodup_cons.mp nodupBack
      have sameValue : value = value' := by simpa using values key
      subst sameValue
      congr 1
      apply step distinct others' distinct' sameKeys
      intro other
      by_cases same : other = key
      · subst same
        let front : FirstSeen κ α := ⟨others, distinct⟩
        let back : FirstSeen κ α := ⟨others', distinct'⟩
        have nothing : front.get? other = none := get?_eq_none_iff.mpr absent
        have nothing' : back.get? other = none := get?_eq_none_iff.mpr absent'
        exact nothing.trans nothing'.symm
      · have later : (other == key) = false := by simpa using same
        simpa only [List.lookup_cons, later] using values other

/-- Reading a property of every key in order is reading it of every value in order. -/
theorem map_keys_get? (table : FirstSeen κ α) (read : Option α → γ) :
    (table.keys.map fun key => read (table.get? key)) =
      table.values.map fun value => read (some value) := by
  unfold keys values entryKeys
  rw [List.map_map, List.map_map]
  apply List.map_congr_left
  intro entry inside
  have found : table.get? entry.1 = some entry.2 := mem_entries_iff.mp inside
  simp only [Function.comp_apply, found]

/-- The keys after a write are the first occurrences of the keys before it and the new one. -/
theorem keys_alter [BEq κ] [LawfulBEq κ] (table : FirstSeen κ α) (key : κ) (write : Option α → α) :
    (table.alter key write).keys = (table.keys ++ [key]).eraseDups := by
  rw [List.eraseDups_append, eraseDups_of_nodup table.keys_nodup]
  by_cases present : key ∈ table.keys
  · rw [keys_alter_of_mem present]
    simp [List.removeAll, present]
  · rw [keys_alter_of_not_mem present]
    simp [List.removeAll, present, List.eraseDups_cons]

/-- Two writes to a key are one write. -/
theorem alter_alter (table : FirstSeen κ α) (key : κ) (first second : Option α → α) :
    (table.alter key first).alter key second =
      table.alter key fun present => second (some (first present)) := by
  apply ext_keys
  · have present : key ∈ (table.alter key first).keys := by simp [keys_alter]
    rw [keys_alter_of_mem present, keys_alter, keys_alter]
  · intro other
    rw [get?_alter, get?_alter, get?_alter, get?_alter, if_pos rfl]
    split
    · rfl
    · rfl

/-- Writes the entries of a log to their keys, one after another. -/
def writeAll (write : Option α → β → α) (table : FirstSeen κ α) (log : List (κ × β)) :
    FirstSeen κ α :=
  log.foldl (fun table entry => table.alter entry.1 fun present => write present entry.2) table

@[simp] theorem writeAll_nil (write : Option α → β → α) (table : FirstSeen κ α) :
    table.writeAll write [] = table := rfl

@[simp] theorem writeAll_cons (write : Option α → β → α) (table : FirstSeen κ α)
    (entry : κ × β) (log : List (κ × β)) :
    table.writeAll write (entry :: log) =
      (table.alter entry.1 fun present => write present entry.2).writeAll write log := rfl

/-- Two logs after each other are one log. -/
theorem writeAll_append (write : Option α → β → α) (table : FirstSeen κ α)
    (front back : List (κ × β)) :
    table.writeAll write (front ++ back) = (table.writeAll write front).writeAll write back :=
  List.foldl_append

/-- The keys after a log are the first occurrences of the keys before it and those in it. -/
theorem keys_writeAll [BEq κ] [LawfulBEq κ] (write : Option α → β → α)
    (table : FirstSeen κ α) (log : List (κ × β)) :
    (table.writeAll write log).keys = (table.keys ++ log.map Prod.fst).eraseDups := by
  induction log generalizing table with
  | nil => rw [writeAll_nil, List.map_nil, List.append_nil, eraseDups_of_nodup table.keys_nodup]
  | cons entry log step =>
    rw [writeAll_cons, step, keys_alter, eraseDups_eraseDups_append, List.append_assoc]
    rfl

/-- The entries that a log has for a key. -/
def entriesOf (log : List (κ × β)) (key : κ) : List β :=
  (log.filter fun entry => entry.1 = key).map Prod.snd

/-- A log has entries for exactly the keys that occur in it. -/
theorem entriesOf_eq_nil_iff {log : List (κ × β)} {key : κ} :
    entriesOf log key = [] ↔ key ∉ log.map Prod.fst := by
  unfold entriesOf
  rw [List.map_eq_nil_iff, List.filter_eq_nil_iff, List.mem_map]
  constructor
  · rintro nothing ⟨entry, inside, same⟩
    exact nothing entry inside (decide_eq_true same)
  · intro absent entry inside same
    exact absent ⟨entry, inside, of_decide_eq_true same⟩

/-- The value of a key after a log is what the entries of the key make of the value before. -/
theorem get?_writeAll (write : Option α → β → α) (table : FirstSeen κ α) (log : List (κ × β))
    (key : κ) :
    (table.writeAll write log).get? key =
      (entriesOf log key).foldl (fun present entry => some (write present entry))
        (table.get? key) := by
  induction log generalizing table with
  | nil => rfl
  | cons entry log step =>
    rw [writeAll_cons, step, get?_alter]
    by_cases same : entry.1 = key
    · have next : entriesOf (entry :: log) key = entry.2 :: entriesOf log key := by
        simp [entriesOf, same]
      rw [next, List.foldl_cons, if_pos same.symm, same]
    · have next : entriesOf (entry :: log) key = entriesOf log key := by
        simp [entriesOf, same]
      rw [next, if_neg fun equal => same equal.symm]

/-- The entries of a table have at most one value for a key. -/
theorem entriesOf_entries (table : FirstSeen κ α) (key : κ) :
    entriesOf table.entries key = (table.get? key).toList := by
  obtain ⟨entries, nodup⟩ := table
  unfold get?
  dsimp only
  induction entries with
  | nil => rfl
  | cons entry others step =>
    obtain ⟨head, value⟩ := entry
    obtain ⟨absent, distinct⟩ := List.nodup_cons.mp nodup
    rw [List.lookup_cons]
    by_cases same : key = head
    · subst same
      have nothing : entriesOf others key = [] := entriesOf_eq_nil_iff.mpr absent
      simpa [entriesOf] using nothing
    · have different : head ≠ key := fun equal => same equal.symm
      have later : (key == head) = false := by simpa using same
      simpa [entriesOf, different, later] using step distinct

/-- Entries written to a key that has a value leave it with one. -/
theorem foldl_write_some (write : Option α → β → α) (value : α) (entries : List β) :
    entries.foldl (fun present entry => some (write present entry)) (some value) =
      some (entries.foldl (fun value entry => write (some value) entry) value) := by
  induction entries generalizing value with
  | nil => rfl
  | cons entry entries step => exact step _

/-- Where writing a finished value does what the writes behind it did, writing the entries of
the table that a log leaves is writing the log. -/
theorem writeAll_entries {write : Option α → β → α} {combine : Option α → α → α}
    (replays : ∀ (present : Option α) (first : β) (rest : List β),
      combine present (rest.foldl (fun value entry => write (some value) entry)
        (write none first)) =
      rest.foldl (fun value entry => write (some value) entry) (write present first))
    (table : FirstSeen κ α) (log : List (κ × β)) :
    table.writeAll combine ((∅ : FirstSeen κ α).writeAll write log).entries =
      table.writeAll write log := by
  apply ext_keys
  · have keys := keys_writeAll write ∅ log
    rw [keys_empty, List.nil_append] at keys
    have listed : ((∅ : FirstSeen κ α).writeAll write log).entries.map Prod.fst =
        (log.map Prod.fst).eraseDups := keys
    rw [keys_writeAll, keys_writeAll, listed, eraseDups_append_eraseDups]
  · intro key
    rw [get?_writeAll, get?_writeAll, entriesOf_entries, get?_writeAll, get?_empty]
    cases entriesOf log key with
    | nil => rfl
    | cons first rest =>
      rw [List.foldl_cons, List.foldl_cons, foldl_write_some, foldl_write_some]
      exact congrArg some (replays _ _ _)

/-- A write changes the sum of a weight over the values by that of the value written, less
that of the value before. -/
theorem sum_values_alter (weight : α → Nat) (table : FirstSeen κ α) (key : κ)
    (write : Option α → α) :
    ((table.alter key write).values.map weight).sum + ((table.get? key).map weight).getD 0 =
      (table.values.map weight).sum + weight (write (table.get? key)) := by
  obtain ⟨entries, nodup⟩ := table
  simp only [get?, alter, values]
  clear nodup
  induction entries with
  | nil => simp [alterEntries]
  | cons entry others step =>
    obtain ⟨head, value⟩ := entry
    unfold alterEntries
    rw [List.lookup_cons]
    by_cases same : head = key
    · subst same
      simp only [↓reduceIte, List.map_cons, List.sum_cons, BEq.rfl, Option.map_some,
        Option.getD_some]
      omega
    · have later : (key == head) = false := by simpa using fun equal : key = head => same equal.symm
      simp only [if_neg same, List.map_cons, List.sum_cons, later]
      omega

/-- Where every write adds to a weight what its entry is worth, a log adds what its entries
are worth. -/
theorem sum_values_writeAll (weight : α → Nat) (worth : β → Nat) {write : Option α → β → α}
    (adds : ∀ present entry, weight (write present entry) =
      (present.map weight).getD 0 + worth entry)
    (table : FirstSeen κ α) (log : List (κ × β)) :
    ((table.writeAll write log).values.map weight).sum =
      (table.values.map weight).sum + (log.map fun entry => worth entry.2).sum := by
  induction log generalizing table with
  | nil => rfl
  | cons entry log step =>
    have written := sum_values_alter weight table entry.1 fun present => write present entry.2
    rw [adds] at written
    rw [writeAll_cons, step, List.map_cons, List.sum_cons]
    omega

end FirstSeen

end LineCensus
