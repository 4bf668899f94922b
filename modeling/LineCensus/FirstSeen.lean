/-!
# Tables in first-seen order

A table holds one value for each of its keys and lists the keys in the order in which they
were first written. Writing to a key that is present changes its value and moves nothing; a
new key goes to the end. That no key is listed twice is part of the table, so its entries can
be added up without counting anything double. Two tables agree when they hold the same values
for the same keys, whatever the order.
-/
namespace LineCensus

variable {κ α : Type}

/-- The keys of a list of entries. -/
abbrev entryKeys (entries : List (κ × α)) : List κ := entries.map Prod.fst

/-- Writes to a key in a list of entries: in its place when it is present, else at the end. -/
def alterEntries [DecidableEq κ] (key : κ) (write : Option α → α) :
    List (κ × α) → List (κ × α)
  | [] => [(key, write none)]
  | entry :: others =>
    if entry.1 = key then (entry.1, write (some entry.2)) :: others
    else entry :: alterEntries key write others

/-- Writing to a key adds it at the end, and only when it was absent. -/
theorem entryKeys_alterEntries [DecidableEq κ] (key : κ) (write : Option α → α)
    (entries : List (κ × α)) :
    entryKeys (alterEntries key write entries) =
      if key ∈ entryKeys entries then entryKeys entries else entryKeys entries ++ [key] := by
  induction entries with
  | nil => simp [alterEntries, entryKeys]
  | cons entry others step =>
    unfold alterEntries
    by_cases same : entry.1 = key
    · simp [same, entryKeys]
    · have different : key ≠ entry.1 := fun equal => same equal.symm
      rw [if_neg same]
      simp only [entryKeys, List.map_cons, List.mem_cons, different, false_or] at step ⊢
      rw [step]
      split <;> simp

/-- Writing to a key lists no key twice. -/
theorem nodup_alterEntries [DecidableEq κ] (key : κ) (write : Option α → α)
    {entries : List (κ × α)} (nodup : (entryKeys entries).Nodup) :
    (entryKeys (alterEntries key write entries)).Nodup := by
  rw [entryKeys_alterEntries]
  split
  · exact nodup
  · next absent =>
    exact List.nodup_append.mpr ⟨nodup, by simp, fun present inside other only => by
      simp only [List.mem_singleton] at only
      subst only
      intro equal
      exact absent (equal ▸ inside)⟩

/-- A table of values by key, in the order in which the keys were first written. -/
structure FirstSeen (κ α : Type) where
  /-- The keys with their values. -/
  entries : List (κ × α)
  /-- No key is listed twice. -/
  nodup : (entryKeys entries).Nodup
  deriving DecidableEq

namespace FirstSeen

/-- The table without keys. -/
def empty : FirstSeen κ α := ⟨[], List.nodup_nil⟩

instance : EmptyCollection (FirstSeen κ α) := ⟨empty⟩

instance : Inhabited (FirstSeen κ α) := ⟨empty⟩

/-- The keys in the order in which they were first written. -/
def keys (table : FirstSeen κ α) : List κ := entryKeys table.entries

/-- The values in the order of their keys. -/
def values (table : FirstSeen κ α) : List α := table.entries.map Prod.snd

/-- The value of a key. -/
def get? [DecidableEq κ] (table : FirstSeen κ α) (key : κ) : Option α :=
  table.entries.lookup key

/-- Writes to a key, with the value that it has, if any, at hand. -/
def alter [DecidableEq κ] (table : FirstSeen κ α) (key : κ) (write : Option α → α) :
    FirstSeen κ α :=
  ⟨alterEntries key write table.entries, nodup_alterEntries key write table.nodup⟩

/-- Two tables hold the same values for the same keys, where values are compared by the given
test. -/
def agrees [DecidableEq κ] (same : α → α → Bool) (left right : FirstSeen κ α) : Bool :=
  left.entries.length = right.entries.length &&
    left.entries.all fun entry =>
      match right.get? entry.1 with
      | some value => same entry.2 value
      | none => false

@[simp] theorem keys_empty : (∅ : FirstSeen κ α).keys = [] := rfl

/-- No key is listed twice. -/
theorem keys_nodup (table : FirstSeen κ α) : table.keys.Nodup := table.nodup

/-- A present key stays where it is. -/
theorem keys_alter_of_mem [DecidableEq κ] {table : FirstSeen κ α} {key : κ}
    (present : key ∈ table.keys) (write : Option α → α) :
    (table.alter key write).keys = table.keys := by
  exact (entryKeys_alterEntries key write table.entries).trans (if_pos present)

/-- An absent key goes to the end. -/
theorem keys_alter_of_not_mem [DecidableEq κ] {table : FirstSeen κ α} {key : κ}
    (absent : key ∉ table.keys) (write : Option α → α) :
    (table.alter key write).keys = table.keys ++ [key] := by
  exact (entryKeys_alterEntries key write table.entries).trans (if_neg absent)

@[simp] theorem get?_empty [DecidableEq κ] (key : κ) : (∅ : FirstSeen κ α).get? key = none := rfl

/-- The key written to has the written value, and every other key the value it had. -/
theorem get?_alter [DecidableEq κ] (table : FirstSeen κ α) (key other : κ)
    (write : Option α → α) :
    (table.alter key write).get? other =
      if other = key then some (write (table.get? key)) else table.get? other := by
  obtain ⟨entries, nodup⟩ := table
  simp only [get?, alter]
  clear nodup
  induction entries with
  | nil =>
    by_cases same : other = key
    · simp [alterEntries, same]
    · simp [alterEntries, List.lookup_cons, same, beq_eq_false_iff_ne.mpr same]
  | cons entry others step =>
    obtain ⟨present, value⟩ := entry
    unfold alterEntries
    by_cases here : present = key
    · subst here
      by_cases same : other = present
      · simp [same]
      · simp [List.lookup_cons, same, beq_eq_false_iff_ne.mpr same]
    · rw [if_neg here]
      by_cases atHead : other = present
      · subst atHead
        simp [here]
      · have later : (key == present) = false := by
          simpa using fun equal : key = present => here equal.symm
        simp only [List.lookup_cons, beq_eq_false_iff_ne.mpr atHead, later]
        exact step

end FirstSeen

end LineCensus
