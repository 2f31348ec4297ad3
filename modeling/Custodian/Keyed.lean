/-!
# Entries in the order of their keys

A small map from texts to values, kept as a list of entries sorted by key. Keys are compared
character by character by code point, which is also the byte order of their UTF-8 form.
Inserting replaces the entry of the same key.
-/

namespace Custodian

/-- Entries sorted by key, at most one for each key. -/
abbrev Keyed (α : Type) := List (String × α)

namespace Keyed

variable {α : Type}

/-- The value of a key. -/
def find? (key : String) (entries : Keyed α) : Option α := entries.lookup key

/-- Puts a value at its key, replacing the one that was there. -/
def insert (key : String) (value : α) : Keyed α → Keyed α
  | [] => [(key, value)]
  | (k, v) :: rest =>
    if key = k then (key, value) :: rest
    else if key < k then (key, value) :: (k, v) :: rest
    else (k, v) :: insert key value rest

/-- Takes a key out. -/
def erase (key : String) (entries : Keyed α) : Keyed α := entries.filter fun e => e.1 != key

/-- Changes the value of a key, if there is one. -/
def modify (key : String) (f : α → α) (entries : Keyed α) : Keyed α :=
  entries.map fun e => if e.1 = key then (e.1, f e.2) else e

/-- The entries of a list, later ones replacing earlier ones of the same key. -/
def ofList (entries : List (String × α)) : Keyed α :=
  entries.foldl (fun acc e => acc.insert e.1 e.2) []

theorem find?_insert_self (key : String) (value : α) (entries : Keyed α) :
    (entries.insert key value).find? key = some value := by
  induction entries with
  | nil => simp [insert, find?]
  | cons e rest ih =>
    obtain ⟨k, v⟩ := e
    simp only [insert]
    split
    · simp [find?]
    · split
      · simp [find?]
      · rename_i h _
        simp only [find?, List.lookup_cons, beq_eq_false_iff_ne.mpr h]
        exact ih

theorem find?_insert_of_ne {key other : String} (h : other ≠ key) (value : α)
    (entries : Keyed α) : (entries.insert key value).find? other = entries.find? other := by
  induction entries with
  | nil => simp [insert, find?, List.lookup_cons, beq_eq_false_iff_ne.mpr h]
  | cons e rest ih =>
    obtain ⟨k, v⟩ := e
    simp only [insert]
    split
    · rename_i hk
      subst hk
      simp [find?, List.lookup_cons, beq_eq_false_iff_ne.mpr h]
    · split
      · simp [find?, List.lookup_cons, beq_eq_false_iff_ne.mpr h]
      · simp only [find?, List.lookup_cons] at ih ⊢
        rw [ih]

end Keyed

end Custodian
