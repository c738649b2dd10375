import OpenDDS.Library.AssociationList

/-!
# Maps to sets

A relation that is kept as a map from keys to sets, both of them lists of entries: a set holds a
value of its own for each of its members. `alter` edits the set of a key and makes one if there
is none, `edit` edits one that is there, `discard` takes out a member and the set with it, if it
was the last. The lemmas say which pairs a map lists afterwards, and when it has no empty set.
-/
namespace OpenDDS.Library.SetMap

open AssociationList

variable {κ β γ : Type} [DecidableEq κ]

/-- The set of the key, if it has one. -/
def edit (k : κ) (f : List (β × γ) → List (β × γ)) (m : List (κ × List (β × γ))) :
    List (κ × List (β × γ)) :=
  m.map fun entry => if entry.1 = k then (k, f entry.2) else entry

def alter (k : κ) (f : List (β × γ) → List (β × γ)) (m : List (κ × List (β × γ))) :
    List (κ × List (β × γ)) :=
  if (m.lookup k).isSome then edit k f m else m ++ [(k, f [])]

/-- The map lists `v` under `k`. -/
def Lists (m : List (κ × List (β × γ))) (k : κ) (v : β) : Prop :=
  ∃ set, m.lookup k = some set ∧ v ∈ set.map Prod.fst

/-- No key has an empty set. -/
def NoneEmpty (m : List (κ × List (β × γ))) : Prop := ∀ k set, m.lookup k = some set → set ≠ []

variable {m : List (κ × List (β × γ))} {k k' : κ} {v v' : β} {set : List (β × γ)}
  {f : List (β × γ) → List (β × γ)}

section

variable (k k' : κ) (f : List (β × γ) → List (β × γ)) (m : List (κ × List (β × γ)))

theorem lookup_edit : (edit k f m).lookup k' = if k' = k then (m.lookup k).map f else m.lookup k' :=
  lookup_edit_key f m

theorem lookup_alter :
    (alter k f m).lookup k' = if k' = k then some (f ((m.lookup k).getD [])) else m.lookup k' := by
  unfold alter
  cases hset : m.lookup k with
  | none =>
    rw [if_neg (by simp), lookup_concat hset]
    rfl
  | some set =>
    rw [Option.isSome_some, if_pos rfl, lookup_edit, hset]
    rfl

end

theorem lists_iff_of_lookup (h : m.lookup k = some set) : Lists m k v ↔ v ∈ set.map Prod.fst := by
  constructor
  · rintro ⟨set', hset', hv⟩
    rw [h] at hset'
    cases hset'
    exact hv
  · exact fun hv => ⟨set, h, hv⟩

theorem not_lists_of_lookup (h : m.lookup k = none) : ¬ Lists m k v := by
  rintro ⟨set, hset, -⟩
  rw [h] at hset
  cases hset

theorem lists_congr {m' : List (κ × List (β × γ))} (h : m'.lookup k = m.lookup k) :
    Lists m' k v ↔ Lists m k v := by
  rw [Lists, Lists, h]

theorem noneEmpty_congr {m' : List (κ × List (β × γ))} (h : ∀ k, m'.lookup k = m.lookup k) :
    NoneEmpty m' ↔ NoneEmpty m := by
  simp only [NoneEmpty, h]

theorem Lists.of_noneEmpty (h : NoneEmpty m) (hset : m.lookup k = some set) : ∃ v, Lists m k v := by
  obtain ⟨entry, rest, rfl⟩ := List.exists_cons_of_ne_nil (h k set hset)
  exact ⟨entry.1, _, hset, by simp⟩

/-- A map without empty sets that lists nothing is empty. -/
theorem NoneEmpty.eq_nil (h : NoneEmpty m) : m = [] ↔ ∀ k v, ¬ Lists m k v := by
  constructor
  · rintro rfl k v
    exact not_lists_of_lookup rfl
  · intro hnothing
    cases m with
    | nil => rfl
    | cons entry rest =>
      obtain ⟨v, hv⟩ := Lists.of_noneEmpty h (List.lookup_cons_self (k := entry.1) (b := entry.2))
      exact absurd hv (hnothing _ v)

theorem lists_alter (hf : ∀ set, v' ∈ (f set).map Prod.fst ↔ v' ∈ set.map Prod.fst ∨ v' = v) :
    Lists (alter k f m) k' v' ↔ Lists m k' v' ∨ (k' = k ∧ v' = v) := by
  by_cases hk : k' = k
  · subst hk
    have hlookup : (alter k' f m).lookup k' = some (f ((m.lookup k').getD [])) := by
      rw [lookup_alter, if_pos rfl]
    rw [lists_iff_of_lookup hlookup, hf]
    cases hset : m.lookup k' with
    | none => simp [not_lists_of_lookup hset]
    | some set => simp [lists_iff_of_lookup hset]
  · have hsame : (alter k f m).lookup k' = m.lookup k' := by rw [lookup_alter, if_neg hk]
    simp [lists_congr hsame, hk]

theorem noneEmpty_alter (h : NoneEmpty m) (hf : ∀ set, f set ≠ []) : NoneEmpty (alter k f m) := by
  intro k' set hset
  rw [lookup_alter] at hset
  split_ifs at hset with hk
  · cases hset
    exact hf _
  · exact h k' set hset

theorem mem_members_filter (q : β → Prop) [DecidablePred q] (set : List (β × γ)) :
    v ∈ (set.filter fun entry => q entry.1).map Prod.fst ↔ v ∈ set.map Prod.fst ∧ q v := by
  rw [show (set.filter fun entry => q entry.1) = set.filter ((fun v => decide (q v)) ∘ Prod.fst)
    from rfl, ← List.filter_map, List.mem_filter, decide_eq_true_eq]

variable [DecidableEq β]

/-- The member is taken out of a set. -/
def unbind (v : β) (set : List (β × γ)) : List (β × γ) := set.filter fun entry => entry.1 ≠ v

def discard (k : κ) (v : β) (m : List (κ × List (β × γ))) : List (κ × List (β × γ)) :=
  match m.lookup k with
  | none => m
  | some set =>
    if (unbind v set).length = 0 then m.filter fun entry => entry.1 ≠ k else edit k (unbind v) m

theorem mem_unbind (v v' : β) (set : List (β × γ)) :
    v' ∈ (unbind v set).map Prod.fst ↔ v' ∈ set.map Prod.fst ∧ v' ≠ v :=
  mem_members_filter (· ≠ v) set

/-- What `discard` leaves under a key. -/
theorem lookup_discard : (discard k v m).lookup k' =
    if k' = k then ((m.lookup k).map (unbind v)).filter (!·.isEmpty) else m.lookup k' := by
  unfold discard
  cases hset : m.lookup k with
  | none =>
    split_ifs with hk
    · rw [hk, hset]
      rfl
    · rfl
  | some set =>
    simp only
    by_cases hlast : (unbind v set).length = 0
    · have hnil := List.length_eq_zero_iff.mp hlast
      rw [if_pos hlast, lookup_erase]
      simp [hnil, Option.filter_some]
    · have hnil : unbind v set ≠ [] := fun h => hlast (by rw [h]; rfl)
      rw [if_neg hlast, lookup_edit, hset]
      simp [hnil, Option.filter_some]

theorem lists_discard : Lists (discard k v m) k' v' ↔ Lists m k' v' ∧ ¬ (k' = k ∧ v' = v) := by
  by_cases hk : k' = k
  · subst hk
    cases hset : m.lookup k' with
    | none =>
      have hnone : (discard k' v m).lookup k' = none := by
        rw [lookup_discard, if_pos rfl, hset]
        rfl
      simp [not_lists_of_lookup hset, not_lists_of_lookup hnone]
    | some set =>
      have hunbind := mem_unbind v v' set
      rw [lists_iff_of_lookup hset]
      by_cases hnil : unbind v set = []
      · have hnone : (discard k' v m).lookup k' = none := by
          rw [lookup_discard, if_pos rfl, hset]
          simp [hnil, Option.filter_some]
        rw [hnil, List.map_nil] at hunbind
        simp only [not_lists_of_lookup hnone, false_iff, true_and]
        exact fun h => List.not_mem_nil (hunbind.mpr h)
      · have hsome : (discard k' v m).lookup k' = some (unbind v set) := by
          rw [lookup_discard, if_pos rfl, hset]
          simp [hnil, Option.filter_some]
        rw [lists_iff_of_lookup hsome, hunbind]
        simp
  · have hsame : (discard k v m).lookup k' = m.lookup k' := by rw [lookup_discard, if_neg hk]
    simp [lists_congr hsame, hk]

theorem noneEmpty_discard (h : NoneEmpty m) : NoneEmpty (discard k v m) := by
  intro k' set hset
  rw [lookup_discard] at hset
  split_ifs at hset with hk
  · obtain ⟨-, hne⟩ := Option.filter_eq_some_iff.mp hset
    simpa using hne
  · exact h k' set hset

/-- A set that is edited first and taken out afterwards, if it became empty. -/
theorem lookup_edit_unbind (hset : m.lookup k = some set) (k' : κ) :
    (if (unbind v set).length = 0 then (edit k (unbind v) m).filter fun entry => entry.1 ≠ k
      else edit k (unbind v) m).lookup k' = (discard k v m).lookup k' := by
  unfold discard
  rw [hset]
  simp only
  split_ifs with hlast
  · rw [lookup_erase, lookup_erase, lookup_edit]
    by_cases hk : k' = k
    · simp [hk]
    · simp [hk]
  · rfl

end OpenDDS.Library.SetMap
