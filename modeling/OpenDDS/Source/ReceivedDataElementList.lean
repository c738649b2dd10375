import OpenDDS.Library.LinkedList

/-!
`OpenDDS::DCPS::ReceivedDataElementList` (dds/DCPS/ReceivedDataElementList.{h,inl,cpp}) and
the two strategies of `ReceivedDataStrategy.cpp`: the list of the samples of an instance,
threaded through the samples. A sample is known by its address. An operation that would
follow a null pointer, or whose loop does not come to an end, has no result. What the
operations tell the instance state is part of their result.
-/
namespace OpenDDS.Source

open Library.LinkedList
open Function (update)

/-- The links of every `ReceivedDataElement`. -/
structure SampleLinks where
  nextDataSample : Nat → Option Nat
  previousDataSample : Nat → Option Nat

namespace SampleLinks

def setNext (m : SampleLinks) (a : Nat) (v : Option Nat) : SampleLinks :=
  { m with nextDataSample := update m.nextDataSample a v }

def setPrevious (m : SampleLinks) (a : Nat) (v : Option Nat) : SampleLinks :=
  { m with previousDataSample := update m.previousDataSample a v }

/-- The list of `xs`. -/
abbrev Lists (m : SampleLinks) (l : Header Nat) (xs : List Nat) : Prop :=
  Linked m.nextDataSample m.previousDataSample l xs

/-- Nothing but the links of `xs` changed. -/
structure Relinked (m m' : SampleLinks) (xs : List Nat) : Prop where
  next : ∀ x, x ∉ xs → m'.nextDataSample x = m.nextDataSample x
  previous : ∀ x, x ∉ xs → m'.previousDataSample x = m.previousDataSample x

end SampleLinks

namespace ReceivedDataElementList

def add (m : SampleLinks) (l : Header Nat) (sample : Nat) : Option (SampleLinks × Header Nat) :=
  let m := (m.setPrevious sample none).setNext sample none
  match l.head with
  | none => some (m, ⟨some sample, some sample, l.size + 1⟩)
  | some _ => l.tail.map fun tail =>
    ((m.setNext tail (some sample)).setPrevious sample (some tail),
      ⟨l.head, some sample, l.size + 1⟩)

/-- The body of the loop of `remove` for a sample that matches. -/
def unlink (m : SampleLinks) (l : Header Nat) (item : Nat) : Option (SampleLinks × Header Nat) :=
  if l.head = some item then
    if l.head = l.tail then some (m, ⟨none, none, l.size - 1⟩)
    else match m.nextDataSample item with
      | none => some (m, ⟨none, l.tail, l.size - 1⟩)
      | some head => some (m.setPrevious head none, ⟨some head, l.tail, l.size - 1⟩)
  else if l.tail = some item then
    match m.previousDataSample item with
    | none => some (m, ⟨l.head, none, l.size - 1⟩)
    | some tail => some (m.setNext tail none, ⟨l.head, some tail, l.size - 1⟩)
  else
    match m.previousDataSample item, m.nextDataSample item with
    | some previous, some next =>
      some ((m.setNext previous (some next)).setPrevious next (some previous),
        { l with size := l.size - 1 })
    | _, _ => none

/-- The loop of `remove` from `item` on. The result says whether the list became empty, which
is when the instance state is told. -/
def removeFrom (isMatch : Nat → Bool) (evalAll : Bool) :
    Nat → SampleLinks → Header Nat → Option Nat → Option (Bool × SampleLinks × Header Nat)
  | _, m, l, none => some (false, m, l)
  | 0, _, _, some _ => none
  | fuel + 1, m, l, some item =>
    if isMatch item then
      (unlink m l item).bind fun unlinked =>
        if evalAll then
          (removeFrom isMatch evalAll fuel unlinked.1 unlinked.2
            (unlinked.1.nextDataSample item)).map fun rest =>
              (decide (unlinked.2.size = 0) || rest.1, rest.2)
        else some (decide (unlinked.2.size = 0), unlinked)
    else removeFrom isMatch evalAll fuel m l (m.nextDataSample item)

def removeMatching (m : SampleLinks) (l : Header Nat) (isMatch : Nat → Bool) (evalAll : Bool) :
    Option (Bool × SampleLinks × Header Nat) :=
  removeFrom isMatch evalAll l.size.toNat m l l.head

def remove (m : SampleLinks) (l : Header Nat) (sample : Nat) :
    Option (Bool × SampleLinks × Header Nat) :=
  removeMatching m l (fun item => item = sample) false

end ReceivedDataElementList

namespace SourceDataStrategy

variable {τ : Type} [LT τ] [DecidableLT τ]

def insertBefore (m : SampleLinks) (l : Header Nat) (sample it : Nat) : SampleLinks × Header Nat :=
  let linked := (m.setPrevious sample (m.previousDataSample it)).setNext sample (some it)
  match m.previousDataSample it with
  | none => (linked.setPrevious it (some sample), { l with head := some sample, size := l.size + 1 })
  | some previous =>
    ((linked.setNext previous (some sample)).setPrevious it (some sample),
      { l with size := l.size + 1 })

/-- The loop of `SourceDataStrategy::add` from `item` on. The result says whether the sample
was added at the end, which is when the instance state is told. -/
def addFrom (timestamp : Nat → τ) (sample : Nat) :
    Nat → SampleLinks → Header Nat → Option Nat → Option (Bool × SampleLinks × Header Nat)
  | _, m, l, none => (ReceivedDataElementList.add m l sample).map fun added => (true, added)
  | 0, _, _, some _ => none
  | fuel + 1, m, l, some it =>
    if timestamp sample < timestamp it then some (false, insertBefore m l sample it)
    else addFrom timestamp sample fuel m l (m.nextDataSample it)

def add (m : SampleLinks) (l : Header Nat) (timestamp : Nat → τ) (sample : Nat) :
    Option (Bool × SampleLinks × Header Nat) :=
  addFrom timestamp sample l.size.toNat m l l.head

end SourceDataStrategy

end OpenDDS.Source

/-!
# What the operations do to the list of an instance

Adding a sample puts it at the end, or before the first sample with a later timestamp;
removing takes out the first sample that matches, or all of them. The links of all samples
that are not on the list stay.
-/
namespace OpenDDS.Source

open Library.LinkedList SampleLinks
open Function (update_apply)

variable {m m' m'' : SampleLinks} {l l' : Header Nat} {xs ys as bs : List Nat} {a : Nat}

theorem SampleLinks.Relinked.refl (m : SampleLinks) (xs : List Nat) : Relinked m m xs :=
  ⟨fun _ _ => rfl, fun _ _ => rfl⟩

theorem SampleLinks.Relinked.trans (h : Relinked m m' xs) (h' : Relinked m' m'' xs) :
    Relinked m m'' xs where
  next x hx := (h'.next x hx).trans (h.next x hx)
  previous x hx := (h'.previous x hx).trans (h.previous x hx)

theorem SampleLinks.Relinked.mono (h : Relinked m m' xs) (sub : ∀ x ∈ xs, x ∈ ys) :
    Relinked m m' ys where
  next x hx := h.next x (fun hmem => hx (sub x hmem))
  previous x hx := h.previous x (fun hmem => hx (sub x hmem))

theorem SampleLinks.Relinked.lists (h : Relinked m m' xs) (apart : ∀ x ∈ ys, x ∉ xs)
    (list : Lists m l ys) : Lists m' l ys where
  toAnchors := list.toAnchors
  forward := list.forward.congr fun x hx => h.next x (apart x hx)
  backward := list.backward.congr fun x hx => h.previous x (apart x (List.mem_reverse.mp hx))

theorem SampleLinks.Lists.size_toNat (h : Lists m l xs) : l.size.toNat = xs.length := by
  rw [h.size]
  exact Int.toNat_natCast _

theorem SampleLinks.Lists.walk (h : Lists m l xs) :
    Library.LinkedList.walk m.nextDataSample l.size.toNat l.head = some xs := by
  rw [h.head, h.size_toNat]
  exact walk_path h.forward (Nat.le_refl _)

theorem SampleLinks.Lists.size_eq_zero (h : Lists m l xs) : l.size = 0 ↔ xs = [] := by
  rw [h.size, Int.natCast_eq_zero, List.length_eq_zero_iff]

namespace ReceivedDataElementList

theorem add_spec (h : Lists m l xs) (nodup : xs.Nodup) (fresh : a ∉ xs) :
    ∃ m' l', add m l a = some (m', l') ∧ Lists m' l' (xs ++ [a]) ∧ Relinked m m' (xs ++ [a]) := by
  rcases xs.eq_nil_or_concat with rfl | ⟨front, tail, rfl⟩
  · have hhead : l.head = none := by simpa using h.head
    have hsize : l.size = 0 := by simpa using h.size
    refine ⟨(m.setPrevious a none).setNext a none, ⟨some a, some a, l.size + 1⟩,
      by simp [add, hhead], ?_, ?_⟩
    · constructor
      · constructor <;> simp [hsize]
      · simp [setNext, setPrevious]
      · simp [setNext, setPrevious]
    · constructor <;> intro x hx <;> simp [setNext, setPrevious] at hx ⊢ <;> simp [hx]
  · rw [List.concat_eq_append] at h nodup fresh ⊢
    obtain ⟨⟨head, hhead⟩, htail⟩ := h.ends
    have hat : a ≠ tail := fun heq => fresh (by simp [heq])
    refine ⟨(((m.setPrevious a none).setNext a none).setNext tail (some a)).setPrevious a (some tail),
      ⟨l.head, some a, l.size + 1⟩, by simp [add, hhead, htail], ?_, ?_⟩
    · refine ⟨h.concat (by simp) a, ?_, ?_⟩
      · apply h.forward.concat (by simpa using List.Nodup.concat fresh nodup)
        · intro x hxa hxt
          simp [setNext, setPrevious, hxa, hxt]
        · simp [setNext, setPrevious]
        · simp [setNext, setPrevious, hat]
      · rw [List.reverse_append]
        refine ⟨?_, ?_⟩
        · simp [setNext, setPrevious]
        · apply h.backward.congr
          intro x hx
          have hxa : x ≠ a := fun heq => fresh (heq ▸ List.mem_reverse.mp hx)
          simp [setNext, setPrevious, hxa]
    · constructor
      · intro x hx
        have hxa : x ≠ a := fun heq => hx (by simp [heq])
        have hxt : x ≠ tail := fun heq => hx (by simp [heq])
        simp [setNext, setPrevious, hxa, hxt]
      · intro x hx
        have hxa : x ≠ a := fun heq => hx (by simp [heq])
        simp [setNext, setPrevious, hxa]

theorem unlink_eq (h : Lists m l (as ++ a :: bs)) (nodup : (as ++ a :: bs).Nodup) :
    ∃ m' l', unlink m l a = some (m', l') ∧ Anchors l' (as ++ bs) ∧
      (∀ x, m'.nextDataSample x =
        if as.getLast? = some x then bs.head? else m.nextDataSample x) ∧
      (∀ x, m'.previousDataSample x =
        if bs.head? = some x then as.getLast? else m.previousDataSample x) := by
  obtain ⟨hnext, hprev, -⟩ := h.around
  have hsize : l.size = as.length + (bs.length + 1) := by
    simpa using h.size
  obtain ⟨hasnd, hbsnd, hapart⟩ := List.nodup_append.mp nodup
  have habs : a ∉ bs := (List.nodup_cons.mp hbsnd).1
  have hlast : ∀ b bs', bs = b :: bs' → l.tail ≠ some a ∧ l.tail = (as ++ bs).getLast? := by
    rintro b bs' rfl
    have htail : l.tail = (b :: bs').getLast? := by
      rw [h.tail, List.getLast?_append, List.getLast?_cons_cons]
      simp [List.getLast?_cons]
    refine ⟨?_, ?_⟩
    · rw [htail]
      intro hmem
      exact habs (List.mem_of_getLast? hmem)
    · rw [htail, List.getLast?_append]
      simp [List.getLast?_cons]
  cases as with
  | nil =>
    have hhead : l.head = some a := by simpa using h.head
    cases bs with
    | nil =>
      have htail : l.tail = some a := by simpa using h.tail
      refine ⟨m, ⟨none, none, l.size - 1⟩, ?_, ?_, ?_, ?_⟩
      · simp [unlink, hhead, htail]
      · constructor <;> simp [hsize]
      · simp
      · simp
    | cons b bs =>
      obtain ⟨hne, htail⟩ := hlast b bs rfl
      have hnext' : m.nextDataSample a = some b := by simpa using hnext
      refine ⟨m.setPrevious b none, ⟨some b, l.tail, l.size - 1⟩, ?_, ?_, ?_, ?_⟩
      · simp [unlink, hhead, Ne.symm hne, hnext']
      · constructor
        · rfl
        · exact htail
        · simp [hsize]
      · simp [setPrevious]
      · simp [setPrevious, update_apply, eq_comm]
  | cons x as =>
    obtain ⟨p, hp⟩ : ∃ p, (x :: as).getLast? = some p := by
      simp [List.getLast?_cons]
    have hhead : l.head = some x := by simpa using h.head
    have hxa : x ≠ a := hapart x (by simp) a (by simp)
    have hheadne : ¬ l.head = some a := by simpa [hhead] using hxa
    have hprev' : m.previousDataSample a = some p := hprev.trans hp
    cases bs with
    | nil =>
      have htail : l.tail = some a := by
        rw [h.tail, List.getLast?_append]
        rfl
      refine ⟨m.setNext p none, ⟨l.head, some p, l.size - 1⟩, ?_, ?_, ?_, ?_⟩
      · simp [unlink, hheadne, htail, hprev']
      · constructor
        · simpa using hhead
        · simpa using hp.symm
        · simp [hsize]
      · simp [setNext, update_apply, hp, eq_comm]
      · simp [setNext]
    | cons b bs =>
      obtain ⟨hne, htail⟩ := hlast b bs rfl
      have hnext' : m.nextDataSample a = some b := by simpa using hnext
      refine ⟨(m.setNext p (some b)).setPrevious b (some p), { l with size := l.size - 1 }, ?_, ?_,
        ?_, ?_⟩
      · simp [unlink, hheadne, hne, hprev', hnext']
      · constructor
        · simpa using hhead
        · exact htail
        · simp [hsize]
          omega
      · simp [setNext, setPrevious, update_apply, hp, eq_comm]
      · simp [setNext, setPrevious, update_apply, hp, eq_comm]

theorem unlink_spec (h : Lists m l (as ++ a :: bs)) (nodup : (as ++ a :: bs).Nodup) :
    ∃ m' l', unlink m l a = some (m', l') ∧ Lists m' l' (as ++ bs) ∧ Relinked m m' (as ++ bs) := by
  obtain ⟨m', l', heq, hanchors, hnext, hprevious⟩ := unlink_eq h nodup
  refine ⟨m', l', heq, h.remove nodup hanchors (fun x _ => hnext x) (fun x _ => hprevious x), ?_⟩
  constructor
  · intro x hx
    rw [hnext, if_neg]
    intro hlast
    exact hx (List.mem_append_left _ (List.mem_of_getLast? hlast))
  · intro x hx
    rw [hprevious, if_neg]
    intro hhead
    exact hx (List.mem_append_right _ (List.mem_of_head? hhead))

/-- The samples that stay: those that do not match, or all but the first that matches. -/
def remaining (isMatch : Nat → Bool) (evalAll : Bool) (xs : List Nat) : List Nat :=
  if evalAll then xs.filter fun x => !isMatch x else xs.eraseP isMatch

theorem removeFrom_spec (isMatch : Nat → Bool) (evalAll : Bool) {fuel : Nat} (as bs : List Nat)
    (h : Lists m l (as ++ bs)) (nodup : (as ++ bs).Nodup) (bound : bs.length ≤ fuel) :
    ∃ m' l', removeFrom isMatch evalAll fuel m l bs.head? =
        some (bs.any isMatch && decide (as ++ remaining isMatch evalAll bs = []), m', l') ∧
      Lists m' l' (as ++ remaining isMatch evalAll bs) ∧ Relinked m m' (as ++ bs) := by
  induction bs generalizing as m l fuel with
  | nil =>
    have hnone : remaining isMatch evalAll [] = [] := by cases evalAll <;> rfl
    refine ⟨m, l, ?_, by rwa [hnone], Relinked.refl _ _⟩
    cases fuel <;> rfl
  | cons x bs ih =>
    obtain ⟨fuel, rfl⟩ : ∃ n, fuel = n + 1 := ⟨fuel - 1, by simp at bound; omega⟩
    have hbound : bs.length ≤ fuel := by simpa using bound
    have hnext : m.nextDataSample x = bs.head? := h.around.1
    by_cases hx : isMatch x = true
    · obtain ⟨m₁, l₁, hunlink, hlists, hrelinked⟩ := unlink_spec h nodup
      have hsize := SampleLinks.Lists.size_eq_zero hlists
      have hsub : ∀ y ∈ as ++ bs, y ∈ as ++ x :: bs := by
        intro y hy
        simp only [List.mem_append, List.mem_cons] at hy ⊢
        tauto
      cases evalAll with
      | false =>
        have hleft : remaining isMatch false (x :: bs) = bs := List.eraseP_cons_of_pos hx
        refine ⟨m₁, l₁, ?_, by rwa [hleft], hrelinked.mono hsub⟩
        rw [List.head?_cons, removeFrom, if_pos hx, hunlink, Option.bind_some, if_neg (by simp)]
        simp [hleft, hx, hsize]
      | true =>
        have hleft : remaining isMatch true (x :: bs) = remaining isMatch true bs := by
          simp [remaining, hx]
        have hnodup : (as ++ bs).Nodup :=
          nodup.sublist (List.Sublist.append_left (List.sublist_cons_self x bs) as)
        have hout : x ∉ as ++ bs := by
          have hperm : (x :: (as ++ bs)).Nodup := List.perm_middle.nodup_iff.mp nodup
          exact (List.nodup_cons.mp hperm).1
        obtain ⟨m₂, l₂, hrest, hlists₂, hrelinked₂⟩ := ih as hlists hnodup hbound
        have hnext₁ : m₁.nextDataSample x = bs.head? := (hrelinked.next x hout).trans hnext
        refine ⟨m₂, l₂, ?_, by rwa [hleft], (hrelinked.trans hrelinked₂).mono hsub⟩
        rw [List.head?_cons, removeFrom, if_pos hx, hunlink, Option.bind_some, if_pos rfl, hnext₁,
          hrest, Option.map_some, hleft]
        congr 2
        rw [Bool.eq_iff_iff]
        simp only [List.any_cons, hx, Bool.true_or, Bool.true_and, Bool.or_eq_true, Bool.and_eq_true,
          decide_eq_true_eq, hsize]
        cases bs with
        | nil => simp [remaining]
        | cons y ys => simp +contextual [remaining]
    · have hsplit : as ++ x :: bs = as ++ [x] ++ bs := by simp
      have hleft : remaining isMatch evalAll (x :: bs) = x :: remaining isMatch evalAll bs := by
        cases evalAll <;> simp [remaining, hx]
      obtain ⟨m₂, l₂, hrest, hlists₂, hrelinked₂⟩ :=
        ih (as ++ [x]) (hsplit ▸ h) (hsplit ▸ nodup) hbound
      refine ⟨m₂, l₂, ?_, by simpa [hleft] using hlists₂, hsplit ▸ hrelinked₂⟩
      rw [List.head?_cons, removeFrom, if_neg hx, hnext, hrest]
      simp [hleft, hx]

theorem removeMatching_all (isMatch : Nat → Bool) (h : Lists m l xs) (nodup : xs.Nodup) :
    ∃ m' l', removeMatching m l isMatch true =
        some (decide (xs ≠ [] ∧ xs.filter (fun x => !isMatch x) = []), m', l') ∧
      Lists m' l' (xs.filter fun x => !isMatch x) ∧ Relinked m m' xs := by
  obtain ⟨m', l', heq, hrest⟩ := removeFrom_spec isMatch true [] xs h nodup (Nat.le_refl _)
  refine ⟨m', l', ?_, hrest⟩
  unfold removeMatching
  rw [h.head, h.size_toNat, heq]
  congr 2
  rw [Bool.eq_iff_iff]
  cases xs with
  | nil => simp
  | cons x xs => simp +contextual [remaining]

theorem removeMatching_first (isMatch : Nat → Bool) (h : Lists m l xs) (nodup : xs.Nodup) :
    ∃ m' l', removeMatching m l isMatch false =
        some (xs.any isMatch && decide (xs.eraseP isMatch = []), m', l') ∧
      Lists m' l' (xs.eraseP isMatch) ∧ Relinked m m' xs := by
  unfold removeMatching
  rw [h.head, h.size_toNat]
  exact removeFrom_spec isMatch false [] xs h nodup (Nat.le_refl _)

theorem remove_spec (h : Lists m l xs) (nodup : xs.Nodup) (hmem : a ∈ xs) :
    ∃ m' l', remove m l a = some (decide (xs.erase a = []), m', l') ∧
      Lists m' l' (xs.erase a) ∧ Relinked m m' xs := by
  obtain ⟨m', l', heq, hlists, hrelinked⟩ :=
    removeMatching_first (fun item => item = a) h nodup
  have herase : xs.eraseP (fun item => item = a) = xs.erase a := by
    rw [List.erase_eq_eraseP']
    congr
  have hany : (xs.any fun item => item = a) = true :=
    List.any_eq_true.mpr ⟨a, hmem, by simp⟩
  rw [herase, hany, Bool.true_and] at heq
  rw [herase] at hlists
  exact ⟨m', l', heq, hlists, hrelinked⟩

end ReceivedDataElementList

namespace SourceDataStrategy

variable {τ : Type} [LT τ] [DecidableLT τ]

/-- The list with a sample put in before the first one with a later timestamp. -/
def insertSample (timestamp : Nat → τ) (sample : Nat) : List Nat → List Nat
  | [] => [sample]
  | x :: xs => if timestamp sample < timestamp x then sample :: x :: xs
      else x :: insertSample timestamp sample xs

theorem insertSample_perm (timestamp : Nat → τ) (sample : Nat) (xs : List Nat) :
    (insertSample timestamp sample xs).Perm (sample :: xs) := by
  induction xs with
  | nil => exact List.Perm.refl _
  | cons x xs ih =>
    unfold insertSample
    split
    · exact List.Perm.refl _
    · exact (ih.cons x).trans (List.Perm.swap sample x xs)

theorem insertBefore_spec {it : Nat} (h : Lists m l (as ++ it :: bs))
    (nodup : (as ++ it :: bs).Nodup) (fresh : a ∉ as ++ it :: bs) :
    ∃ m' l', insertBefore m l a it = (m', l') ∧ Lists m' l' (as ++ a :: it :: bs) ∧
      Relinked m m' (as ++ a :: it :: bs) := by
  obtain ⟨-, hprev, hback⟩ := h.around
  obtain ⟨hbackbs, -, hbackas⟩ := path_append.mp hback
  obtain ⟨hforas, hfor⟩ := path_append.mp h.forward
  obtain ⟨hasnd, hbsnd, hapart⟩ := List.nodup_append.mp nodup
  have hita : it ≠ a := fun heq => fresh (by simp [heq])
  have hitas : it ∉ as := fun hmem => hapart it hmem it (by simp) rfl
  have haas : a ∉ as := fun hmem => fresh (by simp [hmem])
  have habs : a ∉ it :: bs := fun hmem => fresh (List.mem_append_right _ hmem)
  have hitbs : it ∉ bs := (List.nodup_cons.mp hbsnd).1
  obtain ⟨m', l', heq, hhead, htail, hsize, hnext, hprevious⟩ : ∃ m' l',
      insertBefore m l a it = (m', l') ∧ l'.head = (as ++ [a]).head? ∧ l'.tail = l.tail ∧
      l'.size = l.size + 1 ∧
      (∀ x, m'.nextDataSample x = if as.getLast? = some x then some a
        else if x = a then some it else m.nextDataSample x) ∧
      (∀ x, m'.previousDataSample x = if x = it then some a
        else if x = a then as.getLast? else m.previousDataSample x) := by
    cases hlast : as.getLast? with
    | none =>
      have hnil : as = [] := by simpa using hlast
      refine ⟨((m.setPrevious a none).setNext a (some it)).setPrevious it (some a),
        { l with head := some a, size := l.size + 1 }, by simp [insertBefore, hprev, hlast], ?_,
        rfl, rfl, ?_, ?_⟩
      · simp [hnil]
      · simp [setNext, setPrevious, update_apply]
      · simp [setNext, setPrevious, update_apply]
    | some p =>
      refine ⟨(((m.setPrevious a (some p)).setNext a (some it)).setNext p (some a)).setPrevious it
          (some a), { l with size := l.size + 1 }, by simp [insertBefore, hprev, hlast], ?_,
        rfl, rfl, ?_, ?_⟩
      · rw [h.head]
        cases as with
        | nil => simp at hlast
        | cons y ys => rfl
      · simp [setNext, setPrevious, update_apply, eq_comm]
      · simp [setNext, setPrevious, update_apply]
  have hnextout : ∀ x ∈ it :: bs, m'.nextDataSample x = m.nextDataSample x := by
    intro x hx
    have hxa : x ≠ a := fun heq => habs (heq ▸ hx)
    have hxlast : as.getLast? ≠ some x := fun hlast =>
      hapart x (List.mem_of_getLast? hlast) x hx rfl
    rw [hnext, if_neg hxlast, if_neg hxa]
  refine ⟨m', l', heq, ?_, ?_⟩
  · constructor
    · constructor
      · rw [hhead]
        cases as <;> rfl
      · rw [htail, h.tail, List.getLast?_append, List.getLast?_append, List.getLast?_cons_cons]
      · rw [hsize, h.size]
        simp only [List.length_append, List.length_cons]
        omega
    · rw [path_append]
      refine ⟨?_, ?_, ?_⟩
      · apply hforas.redirect
        · intro x hx hne
          have hxa : x ≠ a := fun heq => haas (heq ▸ hx)
          rw [hnext, if_neg hne, if_neg hxa]
        · intro x hx
          rw [hnext, if_pos hx]
          rfl
        · exact hasnd
      · have halast : as.getLast? ≠ some a := fun hlast => haas (List.mem_of_getLast? hlast)
        rw [hnext, if_neg halast, if_pos rfl]
        rfl
      · exact hfor.congr hnextout
    · have hrev : (as ++ a :: it :: bs).reverse = bs.reverse ++ it :: a :: as.reverse := by simp
      rw [hrev, path_append]
      refine ⟨?_, ?_, ?_, ?_⟩
      · apply hbackbs.congr
        intro x hx
        have hx' := List.mem_reverse.mp hx
        have hxa : x ≠ a := fun heq => habs (by simp [← heq, hx'])
        have hxit : x ≠ it := fun heq => hitbs (heq ▸ hx')
        rw [hprevious, if_neg hxit, if_neg hxa]
      · rw [hprevious, if_pos rfl]
        rfl
      · rw [hprevious, if_neg hita.symm, if_pos rfl]
        simp
      · apply hbackas.congr
        intro x hx
        have hx' := List.mem_reverse.mp hx
        have hxa : x ≠ a := fun heq => haas (heq ▸ hx')
        have hxit : x ≠ it := fun heq => hitas (heq ▸ hx')
        rw [hprevious, if_neg hxit, if_neg hxa]
  · constructor
    · intro x hx
      have hxa : x ≠ a := fun heq => hx (by simp [heq])
      have hxlast : as.getLast? ≠ some x := fun hlast =>
        hx (List.mem_append_left _ (List.mem_of_getLast? hlast))
      rw [hnext, if_neg hxlast, if_neg hxa]
    · intro x hx
      have hxa : x ≠ a := fun heq => hx (by simp [heq])
      have hxit : x ≠ it := fun heq => hx (by simp [heq])
      rw [hprevious, if_neg hxit, if_neg hxa]

theorem addFrom_spec (timestamp : Nat → τ) {fuel : Nat} (as bs : List Nat)
    (h : Lists m l (as ++ bs)) (nodup : (as ++ bs).Nodup) (fresh : a ∉ as ++ bs)
    (bound : bs.length ≤ fuel) :
    ∃ atEnd m' l', addFrom timestamp a fuel m l bs.head? = some (atEnd, m', l') ∧
      Lists m' l' (as ++ insertSample timestamp a bs) ∧
      Relinked m m' (as ++ insertSample timestamp a bs) ∧ (as ++ bs = [] → atEnd = true) := by
  induction bs generalizing as fuel with
  | nil =>
    obtain ⟨m', l', hadd, hlists, hrelinked⟩ := ReceivedDataElementList.add_spec
      (by simpa using h) (by simpa using nodup) (by simpa using fresh)
    refine ⟨true, m', l', ?_, hlists, hrelinked, fun _ => rfl⟩
    cases fuel <;> simp [addFrom, hadd]
  | cons x bs ih =>
    obtain ⟨fuel, rfl⟩ : ∃ n, fuel = n + 1 := ⟨fuel - 1, by simp at bound; omega⟩
    have hbound : bs.length ≤ fuel := by simpa using bound
    have hnext : m.nextDataSample x = bs.head? := by
      simpa using (path_append.mp h.forward).2.1
    by_cases hx : timestamp a < timestamp x
    · obtain ⟨m', l', heq, hlists, hrelinked⟩ := insertBefore_spec h nodup fresh
      refine ⟨false, m', l', ?_, ?_, ?_, ?_⟩
      · rw [List.head?_cons, addFrom, if_pos hx, heq]
      · rw [insertSample, if_pos hx]
        exact hlists
      · rw [insertSample, if_pos hx]
        exact hrelinked
      · intro hnil
        simp at hnil
    · have hsplit : as ++ x :: bs = as ++ [x] ++ bs := by simp
      obtain ⟨atEnd, m', l', hrest, hlists, hrelinked, -⟩ :=
        ih (as ++ [x]) (hsplit ▸ h) (hsplit ▸ nodup) (hsplit ▸ fresh) hbound
      refine ⟨atEnd, m', l', ?_, ?_, ?_, ?_⟩
      · rw [List.head?_cons, addFrom, if_neg hx, hnext, hrest]
      · rw [insertSample, if_neg hx]
        simpa using hlists
      · rw [insertSample, if_neg hx]
        simpa using hrelinked
      · intro hnil
        simp at hnil

theorem add_spec (timestamp : Nat → τ) (h : Lists m l xs) (nodup : xs.Nodup) (fresh : a ∉ xs) :
    ∃ atEnd m' l', add m l timestamp a = some (atEnd, m', l') ∧
      Lists m' l' (insertSample timestamp a xs) ∧
      Relinked m m' (insertSample timestamp a xs) ∧ (xs = [] → atEnd = true) := by
  unfold add
  rw [h.head, h.size_toNat]
  exact addFrom_spec timestamp [] xs h nodup fresh (Nat.le_refl _)

end SourceDataStrategy

end OpenDDS.Source
