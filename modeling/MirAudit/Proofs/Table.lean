import Mathlib.Data.List.Nodup
import MirAudit.Table

/-!
# Tables keyed by their values

The tables of a program store each value under a key of its own. `KeyedBy` is kept by every
insertion, and in such a table a value is found under its key exactly if it is listed
(`KeyedBy.mem_values`). Values that are stored one after another are all listed exactly if no two of
them have the same key, see `values_insert_all_eq_iff`.
-/

namespace MirAudit.Table

variable {κ ν : Type} [DecidableEq κ]

/-- No key occurs twice, and each value stands under its own key. -/
structure KeyedBy (t : Table κ ν) (key : ν → κ) : Prop where
  own : ∀ entry ∈ t.entries, entry.1 = key entry.2
  distinct : (t.entries.map Prod.fst).Nodup

/-- An insertion keeps the place of a known key and puts a new one last. -/
theorem keys_insert_entry (key : κ) (value : ν) (entries : List (κ × ν)) :
    (insertEntry key value entries).map Prod.fst =
      if key ∈ entries.map Prod.fst then entries.map Prod.fst
      else entries.map Prod.fst ++ [key] := by
  induction entries with
  | nil => rfl
  | cons entry rest ih =>
      unfold insertEntry
      by_cases h : entry.1 = key
      · rw [if_pos h, if_pos (by simp [h])]
        simp [h]
      · rw [if_neg h, List.map_cons, ih]
        have hne : ¬ key = entry.1 := fun hkey => h hkey.symm
        by_cases hmem : key ∈ rest.map Prod.fst
        · rw [if_pos hmem, if_pos (by simp [hmem])]
          rfl
        · rw [if_neg hmem, if_neg (by simp [hne, hmem])]
          rfl

theorem mem_insert_entry {key : κ} {value : ν} {entries : List (κ × ν)} {entry : κ × ν}
    (h : entry ∈ insertEntry key value entries) : entry = (key, value) ∨ entry ∈ entries := by
  induction entries with
  | nil => exact Or.inl (List.mem_singleton.mp h)
  | cons first rest ih =>
      unfold insertEntry at h
      split at h
      next =>
        rcases List.mem_cons.mp h with h | h
        · exact Or.inl h
        · exact Or.inr (List.mem_cons_of_mem first h)
      next =>
        rcases List.mem_cons.mp h with rfl | h
        · exact Or.inr List.mem_cons_self
        · exact (ih h).imp_right (List.mem_cons_of_mem first)

theorem mem_entries_of_get {t : Table κ ν} {key : κ} {value : ν} (h : t.get? key = some value) :
    (key, value) ∈ t.entries := by
  obtain ⟨before, behind, hentries, _⟩ := List.lookup_eq_some_iff.mp h
  rw [hentries]
  simp

/-- A value under a new key comes last. -/
theorem values_insert_new {t : Table κ ν} {key : κ} {value : ν} (h : t.get? key = none) :
    (t.insert key value).values = t.values ++ [value] := by
  suffices hentries : ∀ entries : List (κ × ν), entries.lookup key = none →
      (insertEntry key value entries).map Prod.snd = entries.map Prod.snd ++ [value] from
    hentries t.entries h
  intro entries hnone
  induction entries with
  | nil => rfl
  | cons entry rest ih =>
      rw [List.lookup_eq_none_iff] at hnone
      have hne : entry.1 ≠ key := by
        rintro rfl
        simpa using hnone entry List.mem_cons_self
      rw [insertEntry, if_neg hne, List.map_cons, ih]
      · rfl
      · exact List.lookup_eq_none_iff.mpr fun other hother =>
          hnone other (List.mem_cons_of_mem entry hother)

/-- A stored value is found again by any key that had a value before. -/
theorem get_insert_of_get {t : Table κ ν} {key other : κ} {value found : ν}
    (hnew : t.get? key = none) (h : t.get? other = some found) :
    (t.insert key value).get? other = some found := by
  rw [get?_insert, if_neg, h]
  rintro rfl
  simp [hnew] at h

namespace KeyedBy

variable {t : Table κ ν} {key : ν → κ}

omit [DecidableEq κ] in
theorem empty (key : ν → κ) : ({} : Table κ ν).KeyedBy key where
  own _ h := absurd h List.not_mem_nil
  distinct := List.nodup_nil

/-- A value is stored under its own key. -/
theorem insert (h : t.KeyedBy key) (value : ν) : (t.insert (key value) value).KeyedBy key where
  own entry hentry := by
    rcases mem_insert_entry hentry with rfl | hentry
    · rfl
    · exact h.own entry hentry
  distinct := by
    show ((insertEntry (key value) value t.entries).map Prod.fst).Nodup
    rw [keys_insert_entry]
    split
    next => exact h.distinct
    next hnew =>
      refine List.nodup_append.mpr ⟨h.distinct, by simp, fun a ha b hb => ?_⟩
      rintro rfl
      exact hnew (List.mem_singleton.mp hb ▸ ha)

/-- What is found under a key has that key. -/
theorem key_of_get (h : t.KeyedBy key) {k : κ} {value : ν} (hget : t.get? k = some value) :
    key value = k :=
  (h.own (k, value) (mem_entries_of_get hget)).symm

/-- A value is listed exactly if it is found under its key. -/
theorem mem_values (h : t.KeyedBy key) {value : ν} :
    value ∈ t.values ↔ t.get? (key value) = some value := by
  constructor
  · intro hvalue
    obtain ⟨⟨k, stored⟩, hentry, hstored⟩ := List.mem_map.mp hvalue
    obtain rfl : stored = value := hstored
    obtain rfl : k = key stored := h.own _ hentry
    obtain ⟨before, behind, hentries⟩ := List.append_of_mem hentry
    have hdistinct := h.distinct
    rw [hentries, List.map_append, List.map_cons] at hdistinct
    refine List.lookup_eq_some_iff.mpr ⟨before, behind, hentries, fun other hother => ?_⟩
    rw [bne_iff_ne]
    intro hkey
    exact (List.nodup_append.mp hdistinct).2.2 _ (List.mem_map_of_mem hother) _
      List.mem_cons_self hkey.symm
  · intro hget
    exact List.mem_map.mpr ⟨_, mem_entries_of_get hget, rfl⟩

omit [DecidableEq κ] in
/-- The values have distinct keys. -/
theorem nodup_values (h : t.KeyedBy key) : (t.values.map key).Nodup := by
  have hkeys : t.values.map key = t.entries.map Prod.fst := by
    rw [values, List.map_map]
    exact List.map_congr_left fun entry hentry => (h.own entry hentry).symm
  rw [hkeys]
  exact h.distinct

end KeyedBy

/-! ## Values one after another -/

section InsertAll

variable {key : ν → κ}

/-- The table with some values stored under their own keys, one after another. -/
def insertAll (key : ν → κ) (t : Table κ ν) (values : List ν) : Table κ ν :=
  values.foldl (fun t value => t.insert (key value) value) t

theorem KeyedBy.insert_all {t : Table κ ν} (h : t.KeyedBy key) (values : List ν) :
    (insertAll key t values).KeyedBy key := by
  induction values generalizing t with
  | nil => exact h
  | cons value values ih => exact ih (h.insert value)

theorem insert_all_append (t : Table κ ν) (values more : List ν) :
    insertAll key t (values ++ more) = insertAll key (insertAll key t values) more :=
  List.foldl_append

/-- Where no value has the key, what was stored under it is still there. -/
theorem get_insert_all_of_not_mem {t : Table κ ν} {values : List ν} {k : κ}
    (h : k ∉ values.map key) : (insertAll key t values).get? k = t.get? k := by
  induction values generalizing t with
  | nil => rfl
  | cons value values ih =>
      rw [List.map_cons, List.mem_cons, not_or] at h
      show (insertAll key (t.insert (key value) value) values).get? k = _
      rw [ih h.2, get?_insert, if_neg h.1]

/-- A value is found under its key if no later one has the same key. -/
theorem get_insert_all_of_mem {t : Table κ ν} {values : List ν} {value : ν}
    (hdistinct : (values.map key).Nodup) (h : value ∈ values) :
    (insertAll key t values).get? (key value) = some value := by
  induction values generalizing t with
  | nil => cases h
  | cons first values ih =>
      rw [List.map_cons, List.nodup_cons] at hdistinct
      rcases List.mem_cons.mp h with rfl | h
      · show (insertAll key (t.insert (key value) value) values).get? (key value) = _
        rw [get_insert_all_of_not_mem hdistinct.1, get?_insert, if_pos rfl]
      · exact ih hdistinct.2 h

/-- Values with distinct new keys are listed behind the others. -/
theorem values_insert_all {t : Table κ ν} {values : List ν} (hdistinct : (values.map key).Nodup)
    (hnew : ∀ value ∈ values, t.get? (key value) = none) :
    (insertAll key t values).values = t.values ++ values := by
  induction values generalizing t with
  | nil => exact (List.append_nil _).symm
  | cons value values ih =>
      rw [List.map_cons, List.nodup_cons] at hdistinct
      obtain ⟨hfirst, hrest⟩ := List.forall_mem_cons.mp hnew
      show (insertAll key (t.insert (key value) value) values).values = _
      rw [ih hdistinct.2, values_insert_new hfirst, List.append_assoc, List.singleton_append]
      intro other hother
      have hne : key other ≠ key value := fun heq =>
        hdistinct.1 (heq ▸ List.mem_map_of_mem hother)
      rw [get?_insert, if_neg hne, hrest other hother]

/-- A new table lists all values that are stored exactly if their keys are distinct. -/
theorem values_insert_all_eq_iff {values : List ν} :
    (insertAll key {} values).values = values ↔ (values.map key).Nodup := by
  constructor
  · intro h
    have hdistinct := ((KeyedBy.empty key).insert_all values).nodup_values
    rwa [h] at hdistinct
  · intro h
    rw [values_insert_all h fun _ _ => rfl]
    rfl

/-- A new table finds all values that are stored exactly if only equal ones have the same key. -/
theorem get_insert_all_iff {values : List ν} (hvalues : values.Nodup) :
    (∀ value ∈ values, (insertAll key {} values).get? (key value) = some value) ↔
      (values.map key).Nodup := by
  constructor
  · intro h
    refine hvalues.map_on fun value hvalue other hother heq => ?_
    have hfound := h value hvalue
    rw [heq, h other hother] at hfound
    exact (Option.some.inj hfound).symm
  · exact fun h value hvalue => get_insert_all_of_mem h hvalue

end InsertAll

end MirAudit.Table
