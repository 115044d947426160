/-!
# Tables

A table maps keys to values and remembers the order in which keys first came in. Storing under a
known key keeps the key's place and takes the new value.
-/

namespace MirAudit

/-- A table with keys in order of first insertion. -/
structure Table (κ ν : Type) where
  entries : List (κ × ν) := []
deriving DecidableEq

namespace Table

variable {κ ν : Type} [DecidableEq κ]

/-- The value stored under a key. -/
def get? (t : Table κ ν) (key : κ) : Option ν :=
  t.entries.lookup key

/-- Whether a key has a value. -/
def contains (t : Table κ ν) (key : κ) : Bool :=
  (t.get? key).isSome

/-- Puts a value under a key: in the key's place, or last for a new key. -/
def insertEntry (key : κ) (value : ν) : List (κ × ν) → List (κ × ν)
  | [] => [(key, value)]
  | entry :: rest =>
    if entry.1 = key then (key, value) :: rest else entry :: insertEntry key value rest

/-- The table with a value stored under a key. -/
def insert (t : Table κ ν) (key : κ) (value : ν) : Table κ ν :=
  ⟨insertEntry key value t.entries⟩

omit [DecidableEq κ] in
/-- The values in order of first insertion. -/
def values (t : Table κ ν) : List ν :=
  t.entries.map Prod.snd

theorem lookup_insertEntry (key other : κ) (value : ν) (entries : List (κ × ν)) :
    (insertEntry key value entries).lookup other =
      if other = key then some value else entries.lookup other := by
  induction entries with
  | nil =>
    by_cases h : other = key
    · simp [insertEntry, h]
    · simp [insertEntry, List.lookup_cons, h, beq_eq_false_iff_ne.2 h]
  | cons entry rest ih =>
    obtain ⟨known, old⟩ := entry
    by_cases hk : known = key
    · subst hk
      by_cases h : other = known
      · simp [insertEntry, h]
      · simp [insertEntry, h, List.lookup_cons, beq_eq_false_iff_ne.2 h]
    · by_cases ho : other = known
      · subst ho
        simp [insertEntry, hk]
      · simp [insertEntry, hk, List.lookup_cons, beq_eq_false_iff_ne.2 ho, ih]

/-- Looking up a stored key gives the value just stored; other keys are untouched. -/
theorem get?_insert (t : Table κ ν) (key other : κ) (value : ν) :
    (t.insert key value).get? other = if other = key then some value else t.get? other :=
  lookup_insertEntry key other value t.entries

end Table

end MirAudit
