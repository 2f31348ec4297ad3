import Custodian.Keyed
import Mathlib.Data.String.Basic

/-!
# Maps of sorted entries

Entries are `Sorted` when their keys ascend strictly. Every operation on entries keeps them
sorted, and sorted entries are determined by the value of each key (`Sorted.ext`), so two such
maps are compared key by key.

Besides the look-up rules of the operations, `tabulate` lists the values that a partial
function takes on given keys.
-/

namespace Custodian.Keyed

variable {α β : Type} {key other : String} {entries entries' : Keyed α}

/-! ## Looking up -/

theorem find?_cons (key k : String) (v : α) (rest : Keyed α) :
    find? key ((k, v) :: rest) = if key = k then some v else find? key rest := by
  unfold find?
  rw [List.lookup_cons]
  by_cases h : key = k
  · rw [if_pos h, beq_iff_eq.mpr h]
  · rw [if_neg h, beq_eq_false_iff_ne.mpr h]

theorem find?_insert (key other : String) (value : α) (entries : Keyed α) :
    (entries.insert key value).find? other =
      if other = key then some value else entries.find? other := by
  by_cases h : other = key
  · rw [if_pos h, h, find?_insert_self]
  · rw [if_neg h, find?_insert_of_ne h]

theorem find?_erase (key other : String) (entries : Keyed α) :
    (entries.erase key).find? other = if other = key then none else entries.find? other := by
  induction entries with
  | nil => rw [erase, List.filter_nil]; exact (ite_self _).symm
  | cons e rest ih =>
    obtain ⟨k, v⟩ := e
    rw [erase, List.filter_cons]
    by_cases hk : k = key
    · rw [if_neg (by simp [hk]), ← erase, ih, find?_cons, hk]
      by_cases h : other = key
      · rw [if_pos h, if_pos h]
      · rw [if_neg h, if_neg h, if_neg h]
    · rw [if_pos (by simp [hk]), ← erase, find?_cons, find?_cons, ih]
      by_cases h : other = k
      · rw [if_pos h, if_pos h, if_neg (h ▸ hk)]
      · rw [if_neg h, if_neg h]

theorem find?_modify (key other : String) (f : α → α) (entries : Keyed α) :
    (entries.modify key f).find? other =
      if other = key then (entries.find? key).map f else entries.find? other := by
  induction entries with
  | nil => rw [modify, List.map_nil]; exact (ite_self _).symm
  | cons e rest ih =>
    obtain ⟨k, v⟩ := e
    rw [modify, List.map_cons, ← modify]
    by_cases hk : k = key
    · rw [if_pos hk, find?_cons, find?_cons, find?_cons, ih, hk, if_pos rfl]
      by_cases h : other = key
      · rw [if_pos h, if_pos h, Option.map_some]
      · simp only [if_neg h]
    · rw [if_neg hk, find?_cons, find?_cons, find?_cons, ih, if_neg (Ne.symm hk)]
      by_cases h : other = k
      · rw [if_pos h, if_pos h, if_neg (h ▸ hk)]
      · rw [if_neg h, if_neg h]

theorem find?_eq_none_iff : entries.find? key = none ↔ ∀ e ∈ entries, e.1 ≠ key := by
  rw [find?, List.lookup_eq_none_iff]
  refine forall₂_congr fun e _ => ?_
  rw [bne_iff_ne]
  exact ne_comm

/-! ## Order of the keys -/

/-- The keys ascend strictly. -/
def Sorted (entries : Keyed α) : Prop := entries.Pairwise fun a b => a.1 < b.1

theorem sorted_nil : Sorted ([] : Keyed α) := List.Pairwise.nil

theorem Sorted.tail {k : String} {v : α} {rest : Keyed α} (h : Sorted ((k, v) :: rest)) :
    Sorted rest := (List.pairwise_cons.mp h).2

/-- The first key of sorted entries does not come again. -/
theorem Sorted.find?_tail {k : String} {v : α} {rest : Keyed α} (h : Sorted ((k, v) :: rest))
    (hle : key ≤ k) : find? key rest = none := by
  rw [find?_eq_none_iff]
  intro e he
  exact (lt_of_le_of_lt hle ((List.pairwise_cons.mp h).1 e he)).ne'

/-- What is inserted is the only entry that is new. -/
theorem mem_insert {value : α} {e : String × α} :
    ∀ {entries : Keyed α}, e ∈ entries.insert key value → e = (key, value) ∨ e ∈ entries := by
  intro entries
  induction entries with
  | nil => exact fun h => .inl (List.mem_singleton.mp h)
  | cons e' rest ih =>
    obtain ⟨k, v⟩ := e'
    rw [insert]
    intro h
    split at h
    · rcases List.mem_cons.mp h with rfl | h
      · exact .inl rfl
      · exact .inr (List.mem_cons_of_mem _ h)
    · split at h
      · exact List.mem_cons.mp h
      · rcases List.mem_cons.mp h with rfl | h
        · exact .inr List.mem_cons_self
        · exact (ih h).imp_right (List.mem_cons_of_mem _)

theorem Sorted.insert (h : entries.Sorted) (key : String) (value : α) :
    (entries.insert key value).Sorted := by
  induction entries with
  | nil => exact List.pairwise_singleton _ _
  | cons e rest ih =>
    obtain ⟨k, v⟩ := e
    have hk := (List.pairwise_cons.mp h).1
    rw [Keyed.insert]
    split
    · rename_i hkey
      subst hkey
      exact List.pairwise_cons.mpr ⟨hk, h.tail⟩
    · rename_i hne
      split
      · rename_i hlt
        refine List.pairwise_cons.mpr ⟨fun e he => ?_, h⟩
        rcases List.mem_cons.mp he with rfl | he
        · exact hlt
        · exact hlt.trans (hk e he)
      · rename_i hnlt
        have hgt : k < key := lt_of_le_of_ne (not_lt.mp hnlt) (Ne.symm hne)
        refine List.pairwise_cons.mpr ⟨fun e he => ?_, ih h.tail⟩
        rcases mem_insert he with rfl | he
        · exact hgt
        · exact hk e he

theorem Sorted.erase (h : entries.Sorted) (key : String) : (entries.erase key).Sorted :=
  h.filter _

theorem Sorted.modify (h : entries.Sorted) (key : String) (f : α → α) :
    (entries.modify key f).Sorted := by
  have hkey : ∀ e : String × α, (if e.1 = key then (e.1, f e.2) else e).1 = e.1 := fun e => by
    split
    · rfl
    · rfl
  refine List.pairwise_map.mpr (h.imp fun hlt => ?_)
  rw [hkey, hkey]
  exact hlt

/-- Sorted entries have one value for each key. -/
theorem Sorted.find?_of_mem (h : entries.Sorted) {e : String × α} (he : e ∈ entries) :
    entries.find? e.1 = some e.2 := by
  induction entries with
  | nil => cases he
  | cons e' rest ih =>
    obtain ⟨k, v⟩ := e'
    rw [find?_cons]
    rcases List.mem_cons.mp he with rfl | he
    · exact if_pos rfl
    · have hlt := (List.pairwise_cons.mp h).1 e he
      rw [if_neg hlt.ne']
      exact ih h.tail he

/-- Sorted entries are determined by the values of the keys. -/
theorem Sorted.ext (h : entries.Sorted) (h' : entries'.Sorted)
    (hfind : ∀ key, entries.find? key = entries'.find? key) : entries = entries' := by
  induction entries generalizing entries' with
  | nil =>
    cases entries' with
    | nil => rfl
    | cons e rest =>
      have := hfind e.1
      rw [find?_cons, if_pos rfl] at this
      cases this
  | cons e rest ih =>
    obtain ⟨k, v⟩ := e
    cases entries' with
    | nil =>
      have := hfind k
      rw [find?_cons, if_pos rfl] at this
      cases this
    | cons e' rest' =>
      obtain ⟨k', v'⟩ := e'
      -- a key smaller than the first one of the other side is missing there
      have hkk' : k = k' := by
        rcases lt_trichotomy k k' with hlt | heq | hgt
        · have := hfind k
          rw [find?_cons, if_pos rfl, find?_cons, if_neg hlt.ne, h'.find?_tail hlt.le] at this
          cases this
        · exact heq
        · have := hfind k'
          rw [find?_cons, if_neg hgt.ne, h.find?_tail hgt.le, find?_cons, if_pos rfl] at this
          cases this
      subst hkk'
      have hv := hfind k
      rw [find?_cons, if_pos rfl, find?_cons, if_pos rfl, Option.some.injEq] at hv
      rw [hv, ih h.tail h'.tail fun key => ?_]
      by_cases hkey : key = k
      · rw [hkey, h.find?_tail le_rfl, h'.find?_tail le_rfl]
      · have := hfind key
        rwa [find?_cons, if_neg hkey, find?_cons, if_neg hkey] at this

/-! ## Choosing and tabulating -/

/-- The values that `f` gives for some of the entries, under the same keys. -/
def choose (f : String → α → Option β) (entries : Keyed α) : Keyed β :=
  entries.filterMap fun e => (f e.1 e.2).map (e.1, ·)

theorem choose_cons (f : String → α → Option β) (k : String) (v : α) (rest : Keyed α) :
    choose f ((k, v) :: rest) =
      match f k v with
      | some b => (k, b) :: choose f rest
      | none => choose f rest := by
  rw [choose, List.filterMap_cons]
  cases f k v with
  | none => rfl
  | some b => rfl

theorem Sorted.choose (h : entries.Sorted) (f : String → α → Option β) :
    (entries.choose f).Sorted := by
  refine List.Pairwise.filterMap _ (fun a a' hlt b hb b' hb' => ?_) h
  rw [Option.map_eq_some_iff] at hb hb'
  obtain ⟨_, _, rfl⟩ := hb
  obtain ⟨_, _, rfl⟩ := hb'
  exact hlt

theorem Sorted.find?_choose (h : entries.Sorted) (f : String → α → Option β) (key : String) :
    (entries.choose f).find? key = (entries.find? key).bind (f key) := by
  induction entries with
  | nil => rfl
  | cons e rest ih =>
    obtain ⟨k, v⟩ := e
    rw [choose_cons, find?_cons]
    by_cases hk : key = k
    · subst hk
      rw [if_pos rfl, Option.bind_some]
      cases hf : f key v with
      | some b => rw [find?_cons, if_pos rfl]
      | none => rw [ih h.tail, h.find?_tail le_rfl, Option.bind_none]
    · rw [if_neg hk, ← ih h.tail]
      cases f k v with
      | some b => rw [find?_cons, if_neg hk]
      | none => rfl

/-- The values of `f` at those of the keys where it has one. -/
def tabulate (f : String → Option α) : List String → Keyed α
  | [] => []
  | key :: keys =>
    match f key with
    | some value => (tabulate f keys).insert key value
    | none => tabulate f keys

theorem sorted_tabulate (f : String → Option α) (keys : List String) :
    (tabulate f keys).Sorted := by
  induction keys with
  | nil => exact sorted_nil
  | cons key keys ih =>
    rw [tabulate]
    split
    · exact ih.insert _ _
    · exact ih

theorem find?_tabulate (f : String → Option α) (keys : List String) (key : String) :
    (tabulate f keys).find? key = if key ∈ keys then f key else none := by
  induction keys with
  | nil => rfl
  | cons k keys ih =>
    rw [tabulate]
    by_cases hk : key = k
    · subst hk
      rw [if_pos List.mem_cons_self]
      split
      · rename_i value hf
        rw [find?_insert_self, hf]
      · rename_i hf
        rw [ih, hf, ite_self]
    · have hmem : key ∈ k :: keys ↔ key ∈ keys := by
        rw [List.mem_cons, or_iff_right hk]
      rw [if_congr hmem rfl rfl, ← ih]
      split
      · rw [find?_insert_of_ne hk]
      · rfl

end Custodian.Keyed
