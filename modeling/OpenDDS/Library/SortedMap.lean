import Mathlib.Order.Lattice
import Mathlib.Data.List.TakeWhile

/-!
# Sorted maps

A map with ordered keys is the list of its entries in ascending order of the keys. An iterator
is what is left of that list from the entry it points to, so that the empty list is the end.
-/
namespace OpenDDS.Library

structure SortedMap (κ β : Type) [LinearOrder κ] where
  entries : List (κ × β)
  sorted : entries.Pairwise fun a b => a.1 < b.1

namespace SortedMap

variable {κ β : Type} [LinearOrder κ]

def empty : SortedMap κ β := ⟨[], .nil⟩

def size (m : SortedMap κ β) : Nat := m.entries.length

def keys (m : SortedMap κ β) : List κ := m.entries.map Prod.fst

def findIn (k : κ) : List (κ × β) → Option β
  | [] => none
  | entry :: rest => if entry.1 = k then some entry.2 else findIn k rest

def find (m : SortedMap κ β) (k : κ) : Option β := findIn k m.entries

def putIn (k : κ) (v : β) : List (κ × β) → List (κ × β)
  | [] => [(k, v)]
  | entry :: rest =>
    if k < entry.1 then (k, v) :: entry :: rest
    else if entry.1 = k then (k, v) :: rest
    else entry :: putIn k v rest

theorem mem_putIn {k : κ} {v : β} {entries : List (κ × β)} {entry : κ × β}
    (h : entry ∈ putIn k v entries) : entry = (k, v) ∨ entry ∈ entries := by
  induction entries with
  | nil => simpa [putIn] using h
  | cons first rest ih =>
    unfold putIn at h
    split_ifs at h with hlt heq
    · simpa using h
    · rcases List.mem_cons.mp h with rfl | hrest
      · exact .inl rfl
      · exact .inr (List.mem_cons_of_mem _ hrest)
    · rcases List.mem_cons.mp h with rfl | hrest
      · exact .inr List.mem_cons_self
      · exact (ih hrest).imp_right (List.mem_cons_of_mem _)

theorem sorted_putIn {k : κ} {v : β} {entries : List (κ × β)}
    (h : entries.Pairwise fun a b => a.1 < b.1) :
    (putIn k v entries).Pairwise fun a b => a.1 < b.1 := by
  induction entries with
  | nil => simp [putIn]
  | cons first rest ih =>
    have hsorted := List.pairwise_cons.mp h
    unfold putIn
    split_ifs with hlt heq
    · refine List.pairwise_cons.mpr ⟨fun entry hentry => ?_, h⟩
      rcases List.mem_cons.mp hentry with rfl | hrest
      · exact hlt
      · exact hlt.trans (hsorted.1 entry hrest)
    · exact List.pairwise_cons.mpr ⟨fun entry hentry => heq ▸ hsorted.1 entry hentry, hsorted.2⟩
    · refine List.pairwise_cons.mpr ⟨fun entry hentry => ?_, ih hsorted.2⟩
      rcases mem_putIn hentry with rfl | hrest
      · exact lt_of_le_of_ne (not_lt.mp hlt) heq
      · exact hsorted.1 entry hrest

/-- The value of the key, or a new entry for it. -/
def put (m : SortedMap κ β) (k : κ) (v : β) : SortedMap κ β :=
  ⟨putIn k v m.entries, sorted_putIn m.sorted⟩

def erase (m : SortedMap κ β) (k : κ) : SortedMap κ β :=
  ⟨m.entries.filter fun entry => entry.1 ≠ k, m.sorted.filter _⟩

/-- The iterator to the first entry whose key is not below `k`. -/
def lowerBound (m : SortedMap κ β) (k : κ) : List (κ × β) :=
  m.entries.dropWhile fun entry => entry.1 < k

theorem findIn_eq_some {entries : List (κ × β)} (h : entries.Pairwise fun a b => a.1 < b.1)
    {k : κ} {v : β} : findIn k entries = some v ↔ (k, v) ∈ entries := by
  induction entries with
  | nil => simp [findIn]
  | cons first rest ih =>
    have hsorted := List.pairwise_cons.mp h
    unfold findIn
    split_ifs with heq
    · subst heq
      have hrest : (first.1, v) ∉ rest := fun hmem => lt_irrefl first.1 (hsorted.1 (first.1, v) hmem)
      simp [Prod.ext_iff, hrest, eq_comm]
    · rw [ih hsorted.2, List.mem_cons]
      exact (or_iff_right fun hk => heq (by rw [← hk])).symm

section

variable {m : SortedMap κ β} {k k' : κ} {v : β}

theorem find_eq_some : m.find k = some v ↔ (k, v) ∈ m.entries := findIn_eq_some m.sorted

theorem mem_keys : k ∈ m.keys ↔ ∃ v, m.find k = some v := by
  simp [keys, find_eq_some]

theorem mem_keys_iff_ne_none : k ∈ m.keys ↔ m.find k ≠ none := by
  rw [mem_keys, Option.ne_none_iff_exists']

theorem find_eq_none : m.find k = none ↔ k ∉ m.keys := by
  rw [mem_keys_iff_ne_none, not_not]

theorem findIn_putIn (k k' : κ) (v : β) (entries : List (κ × β)) :
    findIn k' (putIn k v entries) = if k' = k then some v else findIn k' entries := by
  induction entries with
  | nil => simp [putIn, findIn, eq_comm]
  | cons first rest ih =>
    unfold putIn
    split_ifs with hlt heq
    all_goals simp only [findIn, ih]
    all_goals grind

theorem find_put (m : SortedMap κ β) (k k' : κ) (v : β) :
    (m.put k v).find k' = if k' = k then some v else m.find k' :=
  findIn_putIn k k' v m.entries

theorem find_erase (m : SortedMap κ β) (k k' : κ) :
    (m.erase k).find k' = if k' = k then none else m.find k' := by
  split_ifs with hk
  · subst hk
    rw [find_eq_none]
    simp [keys, erase]
  · cases hfind : m.find k' with
    | none =>
      rw [find_eq_none] at hfind ⊢
      simp only [keys, erase, List.mem_map, List.mem_filter] at hfind ⊢
      exact fun ⟨entry, hentry, hkey⟩ => hfind ⟨entry, hentry.1, hkey⟩
    | some v =>
      rw [find_eq_some] at hfind ⊢
      exact List.mem_filter.mpr ⟨hfind, by simpa using hk⟩

@[simp] theorem find_empty (k : κ) : (empty : SortedMap κ β).find k = none := rfl

@[simp] theorem mem_keys_put : k' ∈ (m.put k v).keys ↔ k' = k ∨ k' ∈ m.keys := by
  rw [mem_keys_iff_ne_none, mem_keys_iff_ne_none, find_put]
  split_ifs with h <;> simp [h]

@[simp] theorem mem_keys_erase : k' ∈ (m.erase k).keys ↔ k' ≠ k ∧ k' ∈ m.keys := by
  rw [mem_keys_iff_ne_none, mem_keys_iff_ne_none, find_erase]
  split_ifs with h <;> simp [h]

theorem keys_sorted (m : SortedMap κ β) : m.keys.Pairwise (· < ·) :=
  List.pairwise_map.mpr m.sorted

/-- A map with the same keys has as many entries. -/
theorem keys_eq {m' : SortedMap κ β} (h : ∀ k, k ∈ m'.keys ↔ k ∈ m.keys) : m'.keys = m.keys := by
  have hperm : m'.keys.Perm m.keys :=
    (List.perm_ext_iff_of_nodup (m'.keys_sorted.imp ne_of_lt) (m.keys_sorted.imp ne_of_lt)).mpr h
  exact hperm.eq_of_pairwise (fun a b _ _ hab hba => absurd hab (lt_asymm hba)) m'.keys_sorted
    m.keys_sorted

theorem exists_last (h : m.entries ≠ []) :
    ∃ front entry, m.entries = front ++ [entry] ∧ ∀ k ∈ m.keys, k ≤ entry.1 := by
  have hsorted := m.keys_sorted
  obtain ⟨front, entry, hentries⟩ : ∃ front entry, m.entries = front ++ [entry] :=
    ⟨_, _, (List.dropLast_concat_getLast h).symm⟩
  refine ⟨front, entry, hentries, ?_⟩
  simp only [keys, hentries, List.map_append, List.map_cons, List.map_nil,
    List.pairwise_append] at hsorted ⊢
  intro k hk
  rcases List.mem_append.mp hk with hfront | hlast
  · exact (hsorted.2.2 k hfront entry.1 (by simp)).le
  · exact (List.mem_singleton.mp hlast).le

theorem size_eq_length_keys (m : SortedMap κ β) : m.size = m.keys.length := by simp [size, keys]

theorem size_put_le (m : SortedMap κ β) (k : κ) (v : β) : (m.put k v).size ≤ m.size + 1 := by
  have hlen : ∀ entries : List (κ × β), (putIn k v entries).length ≤ entries.length + 1 := by
    intro entries
    induction entries with
    | nil => simp [putIn]
    | cons first rest ih =>
      unfold putIn
      split_ifs
      all_goals simp only [List.length_cons]
      all_goals omega
  exact hlen m.entries

theorem size_erase_lt (h : k ∈ m.keys) : (m.erase k).size < m.size := by
  obtain ⟨entry, hentry, hkey⟩ := List.mem_map.mp h
  exact List.length_filter_lt_length_iff_exists.mpr ⟨entry, hentry, by simp [hkey]⟩

end

section

variable {m : SortedMap κ β} {k k' : κ}

/-- `lower_bound` splits the map in front of the first key that is not below `k`. -/
theorem lowerBound_split (m : SortedMap κ β) (k : κ) :
    ∃ front, m.entries = front ++ m.lowerBound k ∧ (∀ entry ∈ front, entry.1 < k) ∧
      ∀ entry ∈ m.lowerBound k, k ≤ entry.1 := by
  refine ⟨m.entries.takeWhile fun entry => entry.1 < k, List.takeWhile_append_dropWhile.symm,
    fun entry hentry => by simpa using List.mem_takeWhile_imp hentry, fun entry hentry => ?_⟩
  have hsorted : (m.lowerBound k).Pairwise fun a b => a.1 < b.1 :=
    m.sorted.sublist (List.dropWhile_sublist _)
  cases hfirst : m.lowerBound k with
  | nil => simp [hfirst] at hentry
  | cons first rest =>
    have hhead : k ≤ first.1 := by
      have hnot := List.head?_dropWhile_not (fun entry : κ × β => decide (entry.1 < k)) m.entries
      rw [show m.entries.dropWhile (fun entry => decide (entry.1 < k)) = first :: rest from hfirst,
        List.head?_cons] at hnot
      simpa using hnot
    rw [hfirst] at hsorted hentry
    rcases List.mem_cons.mp hentry with rfl | hrest
    · exact hhead
    · exact hhead.trans ((List.pairwise_cons.mp hsorted).1 entry hrest).le

theorem mem_lowerBound {entry : κ × β} :
    entry ∈ m.lowerBound k ↔ entry ∈ m.entries ∧ k ≤ entry.1 := by
  obtain ⟨front, heq, hfront, hback⟩ := lowerBound_split m k
  constructor
  · intro hentry
    rw [heq]
    exact ⟨List.mem_append_right _ hentry, hback entry hentry⟩
  · rintro ⟨hentry, hle⟩
    rw [heq] at hentry
    rcases List.mem_append.mp hentry with hin | hin
    · exact absurd (hfront entry hin) (not_lt.mpr hle)
    · exact hin

/-- A later bound is reached from an earlier one. -/
theorem lowerBound_append (m : SortedMap κ β) (h : k ≤ k') :
    ∃ between, m.lowerBound k = between ++ m.lowerBound k' := by
  refine ⟨(m.lowerBound k).takeWhile fun entry => entry.1 < k', ?_⟩
  have hdrop : (m.lowerBound k).dropWhile (fun entry => entry.1 < k') = m.lowerBound k' := by
    unfold lowerBound
    induction m.entries with
    | nil => rfl
    | cons entry rest ih =>
      by_cases hk : entry.1 < k
      · have hk' := hk.trans_le h
        simpa [List.dropWhile_cons, hk, hk'] using ih
      · simp [List.dropWhile_cons, hk]
  rw [← hdrop, List.takeWhile_append_dropWhile]

/-- The entry of one key, and those above it that are wanted. -/
theorem filter_from (m : SortedMap κ β) (k : κ) (wanted : κ → Bool) :
    (m.entries.filter fun entry => entry.1 = k ∨ (k < entry.1 ∧ wanted entry.1)) =
      ((m.find k).map fun v => (k, v)).toList ++
        m.entries.filter fun entry => k < entry.1 ∧ wanted entry.1 := by
  have hlist : ∀ entries : List (κ × β), (entries.Pairwise fun a b => a.1 < b.1) →
      (entries.filter fun entry => entry.1 = k ∨ (k < entry.1 ∧ wanted entry.1)) =
        ((findIn k entries).map fun v => (k, v)).toList ++
          entries.filter fun entry => k < entry.1 ∧ wanted entry.1 := by
    intro entries hsorted
    induction entries with
    | nil => rfl
    | cons entry rest ih =>
      obtain ⟨hlater, hrest⟩ := List.pairwise_cons.mp hsorted
      by_cases heq : entry.1 = k
      · -- All that follows is above the key.
        have hall : ∀ other ∈ rest, (decide (other.1 = k ∨ (k < other.1 ∧ wanted other.1))) =
            decide (k < other.1 ∧ wanted other.1) := by
          intro other hother
          have hgt : k < other.1 := heq ▸ hlater other hother
          simp [hgt, hgt.ne']
        rw [List.filter_cons_of_pos (by simp [heq]), List.filter_congr hall, findIn, if_pos heq,
          List.filter_cons_of_neg (by simp [heq])]
        simp [Prod.ext_iff, heq]
      · rw [findIn, if_neg heq]
        by_cases hgt : k < entry.1
        · have hnone : findIn k rest = none := by
            cases hfind : findIn k rest with
            | none => rfl
            | some v =>
              have hmem := (findIn_eq_some hrest).mp hfind
              exact absurd (hgt.trans (hlater _ hmem)) (lt_irrefl k)
          have hih := ih hrest
          rw [hnone] at hih ⊢
          simp only [Option.map_none, Option.toList_none, List.nil_append] at hih ⊢
          simp only [List.filter_cons, heq, hgt, false_or, true_and, hih]
        · simpa [List.filter_cons, heq, hgt] using ih hrest
  exact hlist m.entries m.sorted

end

section

variable {m : SortedMap κ β} {k : κ} {v w : β}

/-- The number of entries with a value of some kind. -/
def countIn (m : SortedMap κ β) (p : β → Bool) : Nat := m.entries.countP fun entry => p entry.2

theorem countIn_putIn (p : β → Bool) {entries : List (κ × β)}
    (h : entries.Pairwise fun a b => a.1 < b.1) :
    (putIn k v entries).countP (fun entry => p entry.2) +
        ((findIn k entries).elim 0 fun w => (p w).toNat) =
      entries.countP (fun entry => p entry.2) + (p v).toNat := by
  induction entries with
  | nil => cases hp : p v <;> simp [putIn, findIn, hp]
  | cons first rest ih =>
    obtain ⟨hlater, hrest⟩ := List.pairwise_cons.mp h
    rcases lt_trichotomy k first.1 with hlt | rfl | hgt
    · have hnone : findIn k (first :: rest) = none := by
        cases hfind : findIn k (first :: rest) with
        | none => rfl
        | some w =>
          rcases List.mem_cons.mp ((findIn_eq_some h).mp hfind) with heq | hmem
          · exact absurd hlt (by simp [← heq])
          · exact absurd (hlt.trans (hlater _ hmem)) (lt_irrefl k)
      rw [putIn, if_pos hlt, hnone, Option.elim_none, List.countP_cons (a := (k, v))]
      cases p v <;> simp
    · rw [putIn, if_neg (lt_irrefl _), if_pos rfl, findIn, if_pos rfl]
      cases hp : p v <;> cases hq : p first.2 <;> simp [hp, hq]
    · rw [putIn, if_neg hgt.not_gt, if_neg hgt.ne, findIn, if_neg hgt.ne]
      have hih := ih hrest
      rw [List.countP_cons, List.countP_cons]
      omega

theorem countIn_put (p : β → Bool) (m : SortedMap κ β) (k : κ) (v : β) :
    (m.put k v).countIn p + ((m.find k).elim 0 fun w => (p w).toNat) = m.countIn p + (p v).toNat :=
  countIn_putIn p m.sorted

theorem countIn_filter (p : β → Bool) {entries : List (κ × β)}
    (hsorted : entries.Pairwise fun a b => a.1 < b.1) (h : findIn k entries = some w) :
    (entries.filter fun entry => entry.1 ≠ k).countP (fun entry => p entry.2) + (p w).toNat =
      entries.countP fun entry => p entry.2 := by
  induction entries with
  | nil => cases h
  | cons first rest ih =>
    obtain ⟨hlater, hrest⟩ := List.pairwise_cons.mp hsorted
    by_cases heq : first.1 = k
    · rw [findIn, if_pos heq] at h
      cases h
      have hall : rest.filter (fun entry => entry.1 ≠ k) = rest := by
        apply List.filter_eq_self.mpr
        intro entry hentry
        simpa using (heq ▸ hlater entry hentry).ne'
      rw [List.filter_cons_of_neg (by simp [heq]), hall, List.countP_cons]
      cases p first.2 <;> rfl
    · rw [findIn, if_neg heq] at h
      have hih := ih hrest h
      rw [List.filter_cons_of_pos (by simpa using heq), List.countP_cons, List.countP_cons]
      omega

theorem countIn_erase (p : β → Bool) (h : m.find k = some w) :
    (m.erase k).countIn p + (p w).toNat = m.countIn p :=
  countIn_filter p m.sorted h

end

end SortedMap

end OpenDDS.Library
