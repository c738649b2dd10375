import Mathlib.Data.List.Nodup

/-!
# Association lists

Maps that are kept as lists of entries. `List.lookup` finds the first entry of a key; the
lemmas say what it finds after an entry is replaced, put in or taken out.
-/
namespace OpenDDS.Library.AssociationList

variable {κ β : Type} [DecidableEq κ] {entries : List (κ × β)} {k k' : κ} {v : β}

theorem mem_of_lookup (h : entries.lookup k = some v) : (k, v) ∈ entries := by
  obtain ⟨front, back, rfl, -⟩ := List.lookup_eq_some_iff.mp h
  simp

theorem lookup_isSome (h : (k, v) ∈ entries) : (entries.lookup k).isSome :=
  List.lookup_isSome_iff.mpr ⟨_, h, beq_self_eq_true k⟩

theorem mem_iff_lookup (hnodup : (entries.map Prod.fst).Nodup) :
    (k, v) ∈ entries ↔ entries.lookup k = some v := by
  constructor
  · intro hmem
    obtain ⟨w, hw⟩ := Option.isSome_iff_exists.mp (lookup_isSome hmem)
    have heq := List.inj_on_of_nodup_map hnodup hmem (mem_of_lookup hw) rfl
    cases heq
    exact hw
  · exact mem_of_lookup

/-- The value of one key is edited. -/
theorem lookup_edit (f : β → β) (entries : List (κ × β)) :
    (entries.map fun entry => if entry.1 = k then (entry.1, f entry.2) else entry).lookup k' =
      (entries.lookup k').map fun value => if k' = k then f value else value := by
  induction entries with
  | nil => rfl
  | cons entry rest ih =>
    obtain ⟨key, value⟩ := entry
    by_cases hne : k' = key
    · subst hne
      by_cases hk : k' = k
      · simp [hk]
      · simp [hk]
    · have hbeq : (k' == key) = false := by simpa using hne
      by_cases hk : key = k
      · simpa [hk, List.lookup_cons, hk ▸ hbeq] using ih
      · simpa [hk, List.lookup_cons, hbeq] using ih

theorem lookup_edit_key (f : β → β) (entries : List (κ × β)) :
    (entries.map fun entry => if entry.1 = k then (k, f entry.2) else entry).lookup k' =
      if k' = k then (entries.lookup k).map f else entries.lookup k' := by
  have hmap : (entries.map fun entry => if entry.1 = k then (k, f entry.2) else entry) =
      entries.map fun entry => if entry.1 = k then (entry.1, f entry.2) else entry := by
    refine List.map_congr_left fun entry _ => ?_
    split_ifs with hk
    · rw [hk]
    · rfl
  rw [hmap, lookup_edit]
  split_ifs with hk
  · rw [hk]
  · exact Option.map_id'

theorem lookup_replace (entries : List (κ × β)) :
    (entries.map fun entry => if entry.1 = k then (k, v) else entry).lookup k' =
      if k' = k then (entries.lookup k).map fun _ => v else entries.lookup k' :=
  lookup_edit_key (fun _ => v) entries

theorem edit_of_lookup_none (f : β → β) (h : entries.lookup k = none) :
    (entries.map fun entry => if entry.1 = k then (entry.1, f entry.2) else entry) = entries := by
  have hkeep : ∀ entry ∈ entries,
      (if entry.1 = k then (entry.1, f entry.2) else entry) = entry := by
    rintro ⟨key, value⟩ hmem
    refine if_neg fun hkey => ?_
    have hsome := lookup_isSome hmem
    rw [show key = k from hkey, h] at hsome
    cases hsome
  rw [List.map_congr_left hkeep, List.map_id']

/-- All values are edited. -/
theorem lookup_map_values (f : κ → β → β) (entries : List (κ × β)) :
    (entries.map fun entry => (entry.1, f entry.1 entry.2)).lookup k = (entries.lookup k).map (f k) := by
  induction entries with
  | nil => rfl
  | cons entry rest ih =>
    obtain ⟨key, value⟩ := entry
    by_cases hk : k = key
    · subst hk
      simp
    · have hbeq : (k == key) = false := by simpa using hk
      simpa [List.lookup_cons, hbeq] using ih

/-- A new key, wherever its entry is put. -/
theorem lookup_insert (as bs : List (κ × β)) (h : (as ++ bs).lookup k = none) :
    (as ++ (k, v) :: bs).lookup k' = if k' = k then some v else (as ++ bs).lookup k' := by
  rw [List.lookup_append] at h ⊢
  by_cases hk : k' = k
  · subst hk
    rw [if_pos rfl, List.lookup_cons_self]
    cases has : as.lookup k' with
    | none => rfl
    | some w => simp [has] at h
  · have hbeq : (k' == k) = false := by simpa using hk
    rw [if_neg hk, List.lookup_cons, hbeq, List.lookup_append]

theorem lookup_concat (h : entries.lookup k = none) :
    (entries ++ [(k, v)]).lookup k' = if k' = k then some v else entries.lookup k' := by
  have hnone : (entries ++ []).lookup k = none := by simpa using h
  rw [lookup_insert entries [] hnone, List.append_nil]

theorem lookup_erase (entries : List (κ × β)) :
    (entries.filter fun entry => entry.1 ≠ k).lookup k' =
      if k' = k then none else entries.lookup k' := by
  induction entries with
  | nil => simp
  | cons entry rest ih =>
    obtain ⟨key, value⟩ := entry
    by_cases hk : key = k
    · subst hk
      rw [List.filter_cons_of_neg (by simp), ih]
      by_cases hne : k' = key
      · simp [hne]
      · have hbeq : (k' == key) = false := by simpa using hne
        simp [List.lookup_cons, hbeq, hne]
    · rw [List.filter_cons_of_pos (by simpa using hk), List.lookup_cons, List.lookup_cons, ih]
      by_cases hne : k' = key
      · subst hne
        simp [hk]
      · have hbeq : (k' == key) = false := by simpa using hne
        simp [hbeq]

end OpenDDS.Library.AssociationList
