import Mathlib.Data.List.Nodup

/-!
# Intrusive linked lists

The links of such a list are fields of its elements: one map from elements to elements
for each field, so that an update of one field leaves every list threaded through
another field alone. `Path` follows one field along a list of elements; a singly linked
list is a path to null, and a doubly linked one is a path forward and a path backward
over the same elements, both to null; between other ends they make a segment. The loops
over such lists stop only at null, so they take a number of steps after which they give
up; on a path of no more elements they return.
-/
namespace OpenDDS.Library.LinkedList

/-- The record that anchors a list. -/
structure Header (α : Type) where
  head : Option α
  tail : Option α
  size : Int
  deriving DecidableEq, Repr

variable {α : Type}

def Header.empty : Header α := ⟨none, none, 0⟩

/-- The link of each element of `xs` leads to the next element, that of the last one
to `r`. -/
def Path (f : α → Option α) : List α → Option α → Prop
  | [], _ => True
  | x :: xs, r => f x = xs.head?.or r ∧ Path f xs r

attribute [grind =] Path

/-- The header of the list of `xs`. -/
structure Anchors (l : Header α) (xs : List α) : Prop where
  head : l.head = xs.head?
  tail : l.tail = xs.getLast?
  size : l.size = xs.length

theorem Anchors.eq_empty {l : Header α} (h : Anchors l []) : l = .empty := by
  obtain ⟨head, tail, size⟩ := l
  obtain ⟨rfl, rfl, rfl⟩ := h
  rfl

theorem Anchors.concat {l : Header α} {xs : List α} (h : Anchors l xs) (hne : xs ≠ []) (a : α) :
    Anchors ⟨l.head, some a, l.size + 1⟩ (xs ++ [a]) where
  head := by rw [List.head?_append_of_ne_nil _ hne, h.head]
  tail := by simp
  size := by simp [h.size]

theorem Anchors.ends {l : Header α} {front : List α} {t : α} (h : Anchors l (front ++ [t])) :
    (∃ head, l.head = some head) ∧ l.tail = some t := by
  refine ⟨?_, by simpa using h.tail⟩
  rw [h.head, List.head?_append]
  cases front.head? <;> simp

structure Threaded (next : α → Option α) (l : Header α) (xs : List α) : Prop
    extends Anchors l xs where
  forward : Path next xs none

/-- A stretch of a doubly linked list, between the elements `before` and `after` it. -/
structure Segment (next prev : α → Option α) (l : Header α) (xs : List α)
    (before after : Option α) : Prop extends Anchors l xs where
  forward : Path next xs after
  backward : Path prev xs.reverse before

abbrev Linked (next prev : α → Option α) (l : Header α) (xs : List α) : Prop :=
  Segment next prev l xs none none

/-- The only element of a list has no next one. -/
theorem Segment.single {next prev : α → Option α} {a : α} {xs : List α}
    (h : Linked next prev ⟨some a, some a, 1⟩ xs) : next a = none := by
  cases xs with
  | nil => exact absurd h.head (by simp)
  | cons x xs =>
    obtain rfl : a = x := by simpa using h.head
    have hsize : (1 : Int) = (xs.length + 1 : Nat) := h.size
    obtain rfl : xs = [] := by
      apply List.length_eq_zero_iff.mp
      omega
    exact h.forward.1

section

variable {f g : α → Option α} {r r' : Option α} {xs ys as bs : List α} {a t : α}

@[simp] theorem path_nil : Path f [] r := trivial

@[simp] theorem path_cons : Path f (a :: xs) r ↔ f a = xs.head?.or r ∧ Path f xs r := Iff.rfl

theorem path_append : Path f (xs ++ ys) r ↔ Path f xs (ys.head?.or r) ∧ Path f ys r := by
  induction xs with
  | nil => simp
  | cons x xs ih =>
    simp only [List.cons_append, path_cons, ih, List.head?_append, Option.or_assoc]
    constructor
    · rintro ⟨h₁, h₂, h₃⟩
      exact ⟨⟨h₁, h₂⟩, h₃⟩
    · rintro ⟨⟨h₁, h₂⟩, h₃⟩
      exact ⟨h₁, h₂, h₃⟩

theorem Path.congr (h : Path f xs r) (same : ∀ x ∈ xs, g x = f x) : Path g xs r := by
  induction xs with
  | nil => trivial
  | cons x xs ih =>
    constructor
    · rw [same x (by simp)]
      exact h.1
    · exact ih h.2 (fun y hy => same y (by simp [hy]))

/-- The last element alone decides where a path ends. -/
theorem Path.redirect (h : Path f xs r) (same : ∀ x ∈ xs, xs.getLast? ≠ some x → g x = f x)
    (last : ∀ x, xs.getLast? = some x → g x = r') (nodup : xs.Nodup) : Path g xs r' := by
  induction xs with
  | nil => trivial
  | cons x xs ih =>
    rcases xs with _ | ⟨y, xs⟩
    · constructor
      · simpa using last x (by simp)
      · trivial
    · have hx : (y :: xs).getLast? ≠ some x := by
        intro hlast
        have hmem := List.mem_of_getLast? hlast
        exact (List.nodup_cons.mp nodup).1 hmem
      constructor
      · have hsame := same x (by simp) (by simpa [List.getLast?_cons_cons] using hx)
        rw [hsame, h.1]
        rfl
      · apply ih h.2
        · intro z hz hne
          exact same z (by simp only [List.mem_cons] at hz ⊢; exact .inr hz)
            (by simpa [List.getLast?_cons_cons] using hne)
        · intro z hz
          exact last z (by simpa [List.getLast?_cons_cons] using hz)
        · exact (List.nodup_cons.mp nodup).2

/-- Taking one element out: its predecessor takes over its link. -/
theorem Path.remove (h : Path f (as ++ a :: bs) r) (nodup : (as ++ a :: bs).Nodup)
    (same : ∀ x ∈ as ++ bs, as.getLast? ≠ some x → g x = f x)
    (last : ∀ x, as.getLast? = some x → g x = f a) : Path g (as ++ bs) r := by
  rw [path_append] at h
  obtain ⟨hleft, hmid, hright⟩ := h
  have hparts := List.nodup_append.mp nodup
  rw [path_append]
  constructor
  · apply hleft.redirect
    · intro x hx hne
      exact same x (by simp [hx]) hne
    · intro x hx
      rw [last x hx, hmid]
    · exact hparts.1
  · apply hright.congr
    intro x hx
    apply same x (by simp [hx])
    intro hlast
    exact hparts.2.2 x (List.mem_of_getLast? hlast) x (by simp [hx]) rfl

/-- What the links of one element of a list lead to. -/
theorem Segment.around {next prev : α → Option α} {l : Header α}
    (h : Linked next prev l (as ++ a :: bs)) : next a = bs.head? ∧ prev a = as.getLast? ∧
      Path prev (bs.reverse ++ a :: as.reverse) none := by
  have hback : Path prev (bs.reverse ++ a :: as.reverse) none := by simpa using h.backward
  refine ⟨?_, ?_, hback⟩
  · simpa using (path_append.mp h.forward).2.1
  · simpa using (path_append.mp hback).2.1

/-- Taking one element out of a list: its neighbours are linked with each other. -/
theorem Segment.remove [DecidableEq α] {next prev next' prev' : α → Option α} {l l' : Header α}
    (h : Linked next prev l (as ++ a :: bs)) (nodup : (as ++ a :: bs).Nodup)
    (anchors : Anchors l' (as ++ bs))
    (hnext : ∀ x ∈ as ++ bs, next' x = if as.getLast? = some x then bs.head? else next x)
    (hprev : ∀ x ∈ as ++ bs, prev' x = if bs.head? = some x then as.getLast? else prev x) :
    Linked next' prev' l' (as ++ bs) := by
  obtain ⟨hnexta, hpreva, hback⟩ := h.around
  have hrev : (bs.reverse ++ a :: as.reverse).Nodup := by
    have hreverse := List.nodup_reverse.mpr nodup
    simpa using hreverse
  refine ⟨anchors, h.forward.remove nodup (fun x hx hlast => ?_) (fun x hx => ?_), ?_⟩
  · rw [hnext x hx, if_neg hlast]
  · rw [hnext x (List.mem_append_left _ (List.mem_of_getLast? hx)), if_pos hx, hnexta]
  · rw [List.reverse_append]
    apply hback.remove hrev
    · intro x hx hhead
      rw [List.getLast?_reverse] at hhead
      rw [hprev x (by simpa [or_comm] using hx), if_neg hhead]
    · intro x hx
      rw [List.getLast?_reverse] at hx
      rw [hprev x (List.mem_append_right _ (List.mem_of_head? hx)), if_pos hx, hpreva]

/-- Joining two paths at the last element of the first. -/
theorem Path.join (h : Path f xs r') (h' : Path f ys r) (nodup : (xs ++ ys).Nodup)
    (same : ∀ x ∈ xs ++ ys, xs.getLast? ≠ some x → g x = f x)
    (last : ∀ x, xs.getLast? = some x → g x = ys.head?.or r) : Path g (xs ++ ys) r := by
  have hparts := List.nodup_append.mp nodup
  rw [path_append]
  constructor
  · apply h.redirect
    · intro x hx hne
      exact same x (by simp [hx]) hne
    · exact last
    · exact hparts.1
  · apply h'.congr
    intro x hx
    apply same x (by simp [hx])
    intro hlast
    exact hparts.2.2 x (List.mem_of_getLast? hlast) x hx rfl

/-- A path goes on to a new element. -/
theorem Path.concat (h : Path f (as ++ [t]) r') (nodup : (as ++ [t] ++ [a]).Nodup)
    (same : ∀ x, x ≠ a → x ≠ t → g x = f x) (last : g t = some a) (stop : g a = r) :
    Path g (as ++ [t] ++ [a]) r := by
  obtain ⟨hnodup, -, hapart⟩ := List.nodup_append.mp nodup
  rw [path_append]
  refine ⟨h.redirect (fun x hx hne => same x ?_ ?_) (fun x hx => ?_) hnodup, by simpa using stop⟩
  · exact hapart x hx a (List.mem_singleton_self a)
  · rintro rfl
    exact hne (by simp)
  · obtain rfl : t = x := by simpa using hx
    simpa using last

/-- Some walk along the links from `start` meets `a`. -/
def Reaches (f : α → Option α) (start : Option α) (a : α) : Prop :=
  ∃ xs r, Path f xs r ∧ xs.head? = start ∧ a ∈ xs

/-- From the head of a list that ends at null, its elements are met and no others. -/
theorem reaches_iff (h : Path f xs none) : Reaches f xs.head? a ↔ a ∈ xs := by
  constructor
  · rintro ⟨ys, r, hys, hhead, hmem⟩
    induction ys generalizing xs with
    | nil => simp at hmem
    | cons y ys ih =>
      obtain ⟨zs, rfl⟩ : ∃ zs, xs = y :: zs := by
        cases xs with
        | nil => simp at hhead
        | cons x zs => exact ⟨zs, by simpa using hhead.symm⟩
      rcases List.mem_cons.mp hmem with rfl | hmem
      · simp
      · have hlinks : ys.head?.or r = zs.head? := by
          rw [← hys.1, h.1, Option.or_none]
        have hnext : ys.head? = zs.head? := by
          cases ys with
          | nil => simp at hmem
          | cons z ys => simpa using hlinks
        exact List.mem_cons_of_mem _ (ih h.2 hys.2 hnext hmem)
  · intro hmem
    exact ⟨xs, none, h, rfl, hmem⟩

end

section

/-- Looking for `target` from `item` on, at most `fuel` links far. -/
def search [DecidableEq α] (f : α → Option α) (target : α) : Nat → Option α → Option Bool
  | _, none => some false
  | fuel, some x =>
    if x = target then some true
    else match fuel with
      | 0 => none
      | fuel + 1 => search f target fuel (f x)

/-- Following the links of `x` to the element that has none. -/
def lastFrom (f : α → Option α) : Nat → α → Option α
  | fuel, x =>
    match f x with
    | none => some x
    | some y =>
      match fuel with
      | 0 => none
      | fuel + 1 => lastFrom f fuel y

/-- The elements met from `item` on. -/
def walk (f : α → Option α) : Nat → Option α → Option (List α)
  | _, none => some []
  | 0, some _ => none
  | fuel + 1, some x => (walk f fuel (f x)).map (x :: ·)

attribute [grind =] search lastFrom walk

variable {f : α → Option α} {xs : List α} {fuel : Nat}

theorem search_path [DecidableEq α] (target : α) (h : Path f xs none) (bound : xs.length ≤ fuel) :
    search f target fuel xs.head? = some (decide (target ∈ xs)) := by
  induction xs generalizing fuel with
  | nil => simp [search]
  | cons x xs ih =>
    obtain ⟨fuel, rfl⟩ : ∃ n, fuel = n + 1 := ⟨fuel - 1, by simp at bound; omega⟩
    have hnext : f x = xs.head? := by simpa using h.1
    by_cases hx : x = target
    · simp [search, hx]
    · have hrest := ih h.2 (by simpa using bound)
      simp only [List.head?_cons, search, hx, if_false, hnext, hrest, List.mem_cons,
        Ne.symm hx, false_or]

theorem lastFrom_path {x : α} (h : Path f (x :: xs) none) (bound : xs.length ≤ fuel) :
    lastFrom f fuel x = (x :: xs).getLast? := by
  induction xs generalizing fuel x with
  | nil =>
    have hend : f x = none := by simpa using h.1
    simp [lastFrom, hend]
  | cons y xs ih =>
    obtain ⟨fuel, rfl⟩ : ∃ n, fuel = n + 1 := ⟨fuel - 1, by simp at bound; omega⟩
    have hnext : f x = some y := by simpa using h.1
    rw [lastFrom, hnext, List.getLast?_cons_cons]
    exact ih h.2 (by simpa using bound)

theorem walk_path (h : Path f xs none) (bound : xs.length ≤ fuel) :
    walk f fuel xs.head? = some xs := by
  induction xs generalizing fuel with
  | nil => cases fuel <;> rfl
  | cons x xs ih =>
    obtain ⟨fuel, rfl⟩ : ∃ n, fuel = n + 1 := ⟨fuel - 1, by simp at bound; omega⟩
    have hnext : f x = xs.head? := by simpa using h.1
    have hrest := ih h.2 (by simpa using bound)
    simp only [List.head?_cons, walk, hnext, hrest, Option.map_some]

end

section

variable {ι : Type} {F : ι → List α} {i j : ι} {a : α}

structure Apart (F : ι → List α) : Prop where
  nodup : ∀ i, (F i).Nodup
  unique : ∀ {i j a}, a ∈ F i → a ∈ F j → i = j

theorem Apart.of_subset {G : ι → List α} (h : Apart F) (nodup : ∀ i, (G i).Nodup)
    (sub : ∀ i, ∀ x ∈ G i, x ∈ F i) : Apart G where
  nodup := nodup
  unique hi hj := h.unique (sub _ _ hi) (sub _ _ hj)

variable [DecidableEq ι]

theorem Apart.erase [DecidableEq α] (h : Apart F) :
    Apart (Function.update F i ((F i).erase a)) := by
  apply h.of_subset
  · intro j
    rcases eq_or_ne j i with rfl | hne
    · simpa using (h.nodup j).erase a
    · simpa [hne] using h.nodup j
  · intro j x hx
    rcases eq_or_ne j i with rfl | hne
    · exact List.mem_of_mem_erase (by simpa using hx)
    · simpa [hne] using hx

theorem Apart.append (h : Apart F) (fresh : ∀ j, a ∉ F j) :
    Apart (Function.update F i (F i ++ [a])) := by
  constructor
  · intro j
    rcases eq_or_ne j i with rfl | hne
    · simpa using List.Nodup.concat (fresh j) (h.nodup j)
    · simpa [hne] using h.nodup j
  · have hcase : ∀ {n x}, x ∈ Function.update F i (F i ++ [a]) n → x ∈ F n ∨ (n = i ∧ x = a) := by
      intro n x hn
      rcases eq_or_ne n i with rfl | hne
      · simpa using hn
      · exact .inl (by simpa [hne] using hn)
    intro j k x hj hk
    rcases hcase hj with hj' | ⟨hj', hx⟩ <;> rcases hcase hk with hk' | ⟨hk', hx'⟩
    · exact h.unique hj' hk'
    · exact absurd (hx' ▸ hj') (fresh j)
    · exact absurd (hx ▸ hk') (fresh k)
    · exact hj'.trans hk'.symm

/-- The list `j` is emptied into the list `i`. -/
theorem Apart.pour (h : Apart F) (hne : i ≠ j) :
    Apart (Function.update (Function.update F i (F i ++ F j)) j []) := by
  have hcase : ∀ {n x}, x ∈ Function.update (Function.update F i (F i ++ F j)) j [] n →
      (n ≠ j ∧ x ∈ F n) ∨ (n = i ∧ x ∈ F j) := by
    intro n x hn
    rcases eq_or_ne n j with rfl | hnj
    · simp at hn
    · rcases eq_or_ne n i with rfl | hni
      · rcases List.mem_append.mp (by simpa [hnj] using hn) with hmem | hmem
        · exact .inl ⟨hnj, hmem⟩
        · exact .inr ⟨rfl, hmem⟩
      · exact .inl ⟨hnj, by simpa [hnj, hni] using hn⟩
  constructor
  · intro n
    rcases eq_or_ne n j with rfl | hnj
    · simp
    · rcases eq_or_ne n i with rfl | hni
      · rw [Function.update_of_ne hnj, Function.update_self, List.nodup_append]
        refine ⟨h.nodup n, h.nodup j, ?_⟩
        rintro x hx y hy rfl
        exact hne (h.unique hx hy)
      · simpa [hnj, hni] using h.nodup n
  · intro n k x hn hk
    rcases hcase hn with ⟨hnj, hn'⟩ | ⟨hn', hx⟩ <;> rcases hcase hk with ⟨hkj, hk'⟩ | ⟨hk', hx'⟩
    · exact h.unique hn' hk'
    · exact absurd (h.unique hn' hx') hnj
    · exact absurd (h.unique hk' hx) hkj
    · exact hn'.trans hk'.symm

end

end OpenDDS.Library.LinkedList
