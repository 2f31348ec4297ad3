import Mathlib.Data.Finset.Card
import Mathlib.Data.Finset.Dedup
import Mathlib.Data.List.Nodup
import Mathlib.Data.List.Perm.Basic

/-!
# The first of each key

Items come one by one, and each is kept unless one with its key is there (`keepFirst`). What is kept
has, of every key, the first item that came with it (`find?_keepFirst`), and so does not depend on
the order in which parts came that have no key in common (`perm_keepFirst`).
-/

namespace Custodian

variable {α κ : Type} [DecidableEq κ] {key : α → κ}

/-- Adds items to those that are kept, but for items whose key is there. -/
def keepFirst (key : α → κ) (kept items : List α) : List α :=
  items.foldl (fun kept a => if kept.any (fun b => key b == key a) then kept else kept ++ [a]) kept

theorem keepFirst_nil (kept : List α) : keepFirst key kept [] = kept := rfl

theorem keepFirst_cons (kept : List α) (a : α) (items : List α) :
    keepFirst key kept (a :: items) =
      if kept.any (fun b => key b == key a) then keepFirst key kept items
      else keepFirst key (kept ++ [a]) items := by
  unfold keepFirst
  rw [List.foldl_cons]
  split
  · rfl
  · rfl

theorem keepFirst_append (kept items items' : List α) :
    keepFirst key kept (items ++ items') = keepFirst key (keepFirst key kept items) items' :=
  List.foldl_append

theorem key_of_find?_eq_some {items : List α} {a : α} {k : κ}
    (h : (items.find? fun a => key a == k) = some a) : key a = k := by
  have hkey := List.find?_some h
  exact beq_iff_eq.mp hkey

/-- What is kept stays. -/
theorem prefix_keepFirst (kept items : List α) : kept <+: keepFirst key kept items := by
  induction items generalizing kept with
  | nil => exact List.prefix_refl kept
  | cons a items ih =>
    rw [keepFirst_cons]
    split
    · exact ih kept
    · exact (List.prefix_append kept [a]).trans (ih (kept ++ [a]))

/-- No two items that are kept have one key. -/
theorem nodup_keepFirst {kept : List α} (h : (kept.map key).Nodup) (items : List α) :
    ((keepFirst key kept items).map key).Nodup := by
  induction items generalizing kept with
  | nil => exact h
  | cons a items ih =>
    rw [keepFirst_cons]
    split
    · exact ih h
    · rename_i hfree
      apply ih
      rw [List.map_append, List.map_singleton]
      refine List.nodup_append.mpr ⟨h, List.nodup_singleton _, ?_⟩
      intro k hk k' hk' heq
      obtain ⟨b, hb, rfl⟩ := List.mem_map.mp hk
      rw [List.mem_singleton] at hk'
      exact hfree (List.any_eq_true.mpr ⟨b, hb, beq_iff_eq.mpr (heq.trans hk')⟩)

/-- Of each key what was kept before is found, or else the first item. -/
theorem find?_keepFirst (kept items : List α) (k : κ) :
    (keepFirst key kept items).find? (fun a => key a == k) =
      (kept ++ items).find? fun a => key a == k := by
  induction items generalizing kept with
  | nil => rw [keepFirst_nil, List.append_nil]
  | cons a items ih =>
    rw [keepFirst_cons]
    split
    · rename_i htaken
      rw [ih, List.find?_append, List.find?_append]
      -- an item that is passed over is not found, since one with its key comes before it
      by_cases hk : key a = k
      · obtain ⟨b, hb, hkey⟩ := List.any_eq_true.mp htaken
        rw [hk] at hkey
        have hfound : (kept.find? fun a => key a == k).isSome = true :=
          List.find?_isSome.mpr ⟨b, hb, hkey⟩
        obtain ⟨found, hfound⟩ := Option.isSome_iff_exists.mp hfound
        rw [hfound]
        rfl
      · rw [List.find?_cons_of_neg (by simpa using hk)]
    · rw [ih, List.append_assoc, List.singleton_append]

/-- The keys that are kept are those that were and those of the items. -/
theorem mem_keys_keepFirst {kept items : List α} {k : κ} :
    k ∈ (keepFirst key kept items).map key ↔ k ∈ kept.map key ∨ k ∈ items.map key := by
  have hsome : ∀ l : List α, k ∈ l.map key ↔ (l.find? fun a => key a == k).isSome = true := by
    intro l
    rw [List.find?_isSome, List.mem_map]
    simp only [beq_iff_eq]
  rw [hsome, find?_keepFirst, ← hsome, List.map_append, List.mem_append]

/-- Items whose keys are there change nothing. -/
theorem keepFirst_eq_self {kept items : List α} (h : ∀ a ∈ items, ∃ b ∈ kept, key b = key a) :
    keepFirst key kept items = kept := by
  induction items with
  | nil => rfl
  | cons a items ih =>
    obtain ⟨b, hb, hkey⟩ := h a List.mem_cons_self
    have htaken : (kept.any fun b => key b == key a) = true :=
      List.any_eq_true.mpr ⟨b, hb, beq_iff_eq.mpr hkey⟩
    rw [keepFirst_cons, if_pos htaken]
    exact ih fun a ha => h a (List.mem_cons_of_mem _ ha)

/-- Where keys are distinct an item is there exactly if it is found. -/
theorem mem_iff_find?_of_nodup {items : List α} (h : (items.map key).Nodup) (a : α) :
    a ∈ items ↔ (items.find? fun b => key b == key a) = some a := by
  constructor
  · intro ha
    have hsome : (items.find? fun b => key b == key a).isSome = true :=
      List.find?_isSome.mpr ⟨a, ha, beq_self_eq_true _⟩
    obtain ⟨b, hb⟩ := Option.isSome_iff_exists.mp hsome
    rw [hb, List.inj_on_of_nodup_map h (List.mem_of_find?_eq_some hb) ha (key_of_find?_eq_some hb)]
  · exact List.mem_of_find?_eq_some

/-- Where keys are distinct at most one item has a key, the one that is found. -/
theorem filter_eq_find?_of_nodup {items : List α} (h : (items.map key).Nodup) (k : κ) :
    (items.filter fun a => key a == k) = (items.find? fun a => key a == k).toList := by
  induction items with
  | nil => rfl
  | cons a items ih =>
    rw [List.map_cons, List.nodup_cons] at h
    by_cases hk : (key a == k) = true
    · have hnone : (items.filter fun b => key b == k) = [] := by
        rw [List.filter_eq_nil_iff]
        intro b hb hkey
        have hsame : key b = key a := (beq_iff_eq.mp hkey).trans (beq_iff_eq.mp hk).symm
        exact h.1 (hsame ▸ List.mem_map_of_mem hb)
      rw [List.filter_cons, if_pos hk, List.find?_cons, hk, hnone]
      rfl
    · rw [List.filter_cons, if_neg hk, List.find?_cons, Bool.eq_false_iff.mpr hk]
      exact ih h.2

/-- Where keys are distinct items are known up to their order by what is found of each key. -/
theorem perm_of_find?_eq {items items' : List α} (h : (items.map key).Nodup)
    (h' : (items'.map key).Nodup)
    (hfind : ∀ k, (items.find? fun a => key a == k) = items'.find? fun a => key a == k) :
    items.Perm items' := by
  refine (List.perm_ext_iff_of_nodup (.of_map key h) (.of_map key h')).mpr fun a => ?_
  rw [mem_iff_find?_of_nodup h, mem_iff_find?_of_nodup h', hfind]

/-- What is found of a key in parts that have no key in common does not depend on their order. -/
theorem find?_flatten_perm {parts parts' : List (List α)} (hperm : parts.Perm parts')
    (hapart : parts.Pairwise fun p q => ∀ a ∈ p, ∀ b ∈ q, key a ≠ key b) (k : κ) :
    (parts.flatten.find? fun a => key a == k) = parts'.flatten.find? fun a => key a == k := by
  induction hperm with
  | nil => rfl
  | cons p _ ih =>
    rw [List.flatten_cons, List.flatten_cons, List.find?_append, List.find?_append,
      ih (List.pairwise_cons.mp hapart).2]
  | swap p q parts =>
    have hpq : ∀ a ∈ q, ∀ b ∈ p, key a ≠ key b :=
      (List.pairwise_cons.mp hapart).1 p List.mem_cons_self
    simp only [List.flatten_cons, List.find?_append]
    -- the key is in one of the two parts at most
    rcases hp : p.find? (fun a => key a == k) with _ | a
    · rw [Option.none_or, Option.none_or]
    · have hq : (q.find? fun a => key a == k) = none := by
        rw [List.find?_eq_none]
        intro b hb hkey
        refine hpq b hb a (List.mem_of_find?_eq_some hp) ?_
        exact (beq_iff_eq.mp hkey).trans (key_of_find?_eq_some hp).symm
      rw [hq, Option.none_or]
      rfl
  | trans hperm _ ih ih' =>
    have hsymm : ∀ {p q : List α}, (∀ a ∈ p, ∀ b ∈ q, key a ≠ key b) →
        ∀ a ∈ q, ∀ b ∈ p, key a ≠ key b := fun h a ha b hb => (h b hb a ha).symm
    exact (ih hapart).trans (ih' (hperm.pairwise hapart hsymm))

/-- Neither does what is kept of them, but for its own order. -/
theorem perm_keepFirst {kept : List α} {parts parts' : List (List α)}
    (h : (kept.map key).Nodup) (hperm : parts.Perm parts')
    (hapart : parts.Pairwise fun p q => ∀ a ∈ p, ∀ b ∈ q, key a ≠ key b) :
    (keepFirst key kept parts.flatten).Perm (keepFirst key kept parts'.flatten) := by
  refine perm_of_find?_eq (nodup_keepFirst h _) (nodup_keepFirst h _) fun k => ?_
  rw [find?_keepFirst, find?_keepFirst, List.find?_append, List.find?_append,
    find?_flatten_perm hperm hapart]

/-- As many items are added as there are new keys among them. -/
theorem length_keepFirst {kept : List α} (h : (kept.map key).Nodup) (items : List α) :
    (keepFirst key kept items).length - kept.length =
      ((items.map key).toFinset \ (kept.map key).toFinset).card := by
  have hkeys : ((keepFirst key kept items).map key).toFinset =
      (items.map key).toFinset ∪ (kept.map key).toFinset := by
    ext k
    rw [Finset.mem_union, List.mem_toFinset, List.mem_toFinset, List.mem_toFinset,
      mem_keys_keepFirst]
    exact Or.comm
  have hlength : (keepFirst key kept items).length =
      ((items.map key).toFinset \ (kept.map key).toFinset).card + kept.length := by
    rw [← List.length_map key, ← List.toFinset_card_of_nodup (nodup_keepFirst h items), hkeys,
      ← Finset.card_sdiff_add_card, List.toFinset_card_of_nodup h, List.length_map]
  omega

/-! ## From nothing on -/

/-- The first item of each key. -/
def firsts (key : α → κ) (items : List α) : List α := keepFirst key [] items

theorem firsts_append (items items' : List α) :
    firsts key (items ++ items') = keepFirst key (firsts key items) items' :=
  keepFirst_append [] items items'

theorem nodup_firsts (items : List α) : ((firsts key items).map key).Nodup := by
  apply nodup_keepFirst
  exact List.nodup_nil

theorem mem_keys_firsts {items : List α} {k : κ} :
    k ∈ (firsts key items).map key ↔ k ∈ items.map key := by
  unfold firsts
  rw [mem_keys_keepFirst]
  exact or_iff_right List.not_mem_nil

/-- An item is kept if it came when none with its key had come. -/
theorem mem_firsts_iff {items : List α} {a : α} :
    a ∈ firsts key items ↔
      ∃ before later, items = before ++ a :: later ∧ key a ∉ before.map key := by
  rw [mem_iff_find?_of_nodup (nodup_firsts items)]
  unfold firsts
  rw [find?_keepFirst, List.nil_append, List.find?_eq_some_iff_append, beq_self_eq_true,
    and_iff_right rfl]
  refine exists_congr fun before => exists_congr fun later => and_congr_right fun _ => ?_
  rw [List.mem_map, not_exists]
  refine forall_congr' fun b => ?_
  rw [Bool.not_eq_true', beq_eq_false_iff_ne, not_and]

/-- One more item is kept unless one with its key came before. -/
theorem firsts_concat (items : List α) (a : α) :
    firsts key (items ++ [a]) =
      if key a ∈ items.map key then firsts key items else firsts key items ++ [a] := by
  have htaken : ((firsts key items).any fun b => key b == key a) = true ↔
      key a ∈ items.map key := by
    rw [← mem_keys_firsts, List.any_eq_true, List.mem_map]
    simp only [beq_iff_eq]
  rw [firsts_append, keepFirst_cons, keepFirst_nil, keepFirst_nil]
  simp only [htaken]

/-- There is exactly one item of a key that came, the first. -/
theorem filter_firsts (items : List α) (k : κ) :
    ((firsts key items).filter fun a => key a == k) =
      (items.find? fun a => key a == k).toList := by
  rw [filter_eq_find?_of_nodup (nodup_firsts items)]
  unfold firsts
  rw [find?_keepFirst, List.nil_append]

/-- What came before changes nothing. -/
theorem keepFirst_firsts_of_subset {items items' : List α} (h : items' ⊆ items) :
    keepFirst key (firsts key items) items' = firsts key items := by
  apply keepFirst_eq_self
  intro a ha
  exact List.mem_map.mp (mem_keys_firsts.mpr (List.mem_map_of_mem (h ha)))

/-- As many items are added to first ones as there are keys among them that did not come before. -/
theorem length_keepFirst_firsts (items items' : List α) :
    (keepFirst key (firsts key items) items').length - (firsts key items).length =
      ((items'.map key).toFinset \ (items.map key).toFinset).card := by
  have hkeys : ((firsts key items).map key).toFinset = (items.map key).toFinset := by
    ext k
    rw [List.mem_toFinset, List.mem_toFinset, mem_keys_firsts]
  rw [length_keepFirst (nodup_firsts items), hkeys]

end Custodian
