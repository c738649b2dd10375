import OpenDDS.Library.LinkedList

/-!
# Elements and the lists threaded through them

`DataSampleElement` carries the links of the lists it can stand on: a pair for the
send-state lists and one for the list of its instance. An element is known by its
address, and the memory holds one map for each field. `SendStateDataSampleList` and
`InstanceDataSampleList` are headers over these links. An operation that would follow a
null pointer, or whose loop does not come to an end, has no result.
-/
namespace OpenDDS.Source

open Library.LinkedList
open Function (update)

/-- The fields of every `DataSampleElement` that its container reads. -/
structure Elements where
  nextSendSample : Nat → Option Nat
  previousSendSample : Nat → Option Nat
  nextInstanceSample : Nat → Option Nat
  handle : Nat → Nat
  spaceAvailable : Nat → Bool

namespace Elements

def setNextSend (m : Elements) (a : Nat) (v : Option Nat) : Elements :=
  { m with nextSendSample := update m.nextSendSample a v }

def setPreviousSend (m : Elements) (a : Nat) (v : Option Nat) : Elements :=
  { m with previousSendSample := update m.previousSendSample a v }

def setNextInstance (m : Elements) (a : Nat) (v : Option Nat) : Elements :=
  { m with nextInstanceSample := update m.nextInstanceSample a v }

def setSpaceAvailable (m : Elements) (a : Nat) : Elements :=
  { m with spaceAvailable := update m.spaceAvailable a true }

/-- The element built at `a` for a new sample of an instance. -/
def construct (m : Elements) (a handle : Nat) : Elements where
  nextSendSample := update m.nextSendSample a none
  previousSendSample := update m.previousSendSample a none
  nextInstanceSample := update m.nextInstanceSample a none
  handle := update m.handle a handle
  spaceAvailable := update m.spaceAvailable a false

/-- The copy constructor: every field of `elem`, its links among them. -/
def copyConstruct (m : Elements) (a elem : Nat) : Elements where
  nextSendSample := update m.nextSendSample a (m.nextSendSample elem)
  previousSendSample := update m.previousSendSample a (m.previousSendSample elem)
  nextInstanceSample := update m.nextInstanceSample a (m.nextInstanceSample elem)
  handle := update m.handle a (m.handle elem)
  spaceAvailable := update m.spaceAvailable a (m.spaceAvailable elem)

end Elements

namespace SendStateDataSampleList

def enqueueTail (m : Elements) (l : Header Nat) (sample : Nat) : Option (Elements × Header Nat) :=
  match l.head with
  | none => some (m, ⟨some sample, some sample, l.size + 1⟩)
  | some _ => l.tail.map fun tail =>
    ((m.setPreviousSend sample (some tail)).setNextSend tail (some sample),
      ⟨l.head, some sample, l.size + 1⟩)

def dequeueHead (m : Elements) (l : Header Nat) : Bool × Elements × Header Nat :=
  match l.head with
  | none => (false, m, l)
  | some stale =>
    match m.nextSendSample stale with
    | none => (true, (m.setNextSend stale none).setPreviousSend stale none,
        ⟨none, none, l.size - 1⟩)
    | some head =>
      (true, ((m.setPreviousSend head none).setNextSend stale none).setPreviousSend stale none,
        ⟨some head, l.tail, l.size - 1⟩)

/-- The part of `dequeue` behind its search. -/
def unlink (m : Elements) (l : Header Nat) (toRemove : Nat) : Option (Elements × Header Nat) := do
  let previous ← m.previousSendSample toRemove
  let m := m.setNextSend previous (m.nextSendSample toRemove)
  match m.nextSendSample toRemove with
  | some next =>
    let m := m.setPreviousSend next (m.previousSendSample toRemove)
    some ((m.setNextSend toRemove none).setPreviousSend toRemove none,
      { l with size := l.size - 1 })
  | none =>
    let m := m.setNextSend previous none
    some ((m.setNextSend toRemove none).setPreviousSend toRemove none,
      { l with tail := some previous, size := l.size - 1 })

def dequeue (fuel : Nat) (m : Elements) (l : Header Nat) (stale : Nat) :
    Option (Bool × Elements × Header Nat) :=
  match l.head with
  | none => some (false, m, l)
  | some head =>
    if stale = head then some (dequeueHead m l)
    else do
      let found ← search m.nextSendSample stale fuel (m.nextSendSample head)
      if found then
        let (m, l) ← unlink m l stale
        some (true, m, l)
      else some (false, m, l)

def enqueueTailList (m : Elements) (l list : Header Nat) : Option (Elements × Header Nat) :=
  match l.head with
  | none => some (m, list)
  | some _ => do
    let tail ← l.tail
    let m := m.setNextSend tail list.head
    let head ← list.head
    some (m.setPreviousSend head (some tail), ⟨l.head, list.tail, l.size + list.size⟩)

/-- `send_list_containing_element`: the first of `lists` whose head is found by walking
back from `element`. -/
def listContaining {κ : Type} (fuel : Nat) (m : Elements) (element : Nat)
    (lists : List (κ × Header Nat)) : Option (Option κ) :=
  (lastFrom m.previousSendSample fuel element).map fun head =>
    (lists.find? fun list => list.2.head = some head).map Prod.fst

end SendStateDataSampleList

namespace InstanceDataSampleList

def enqueueTail (m : Elements) (l : Header Nat) (sample : Nat) : Option (Elements × Header Nat) :=
  let m := m.setNextInstance sample none
  match l.head with
  | none => some (m, ⟨some sample, some sample, l.size + 1⟩)
  | some _ => l.tail.map fun tail =>
    (m.setNextInstance tail (some sample), ⟨l.head, some sample, l.size + 1⟩)

/-- The stale element is the head of the list before. -/
def dequeueHead (m : Elements) (l : Header Nat) : Bool × Elements × Header Nat :=
  match l.head with
  | none => (false, m, l)
  | some stale =>
    (true, m.setNextInstance stale none,
      ⟨m.nextInstanceSample stale, if m.nextInstanceSample stale = none then none else l.tail,
        l.size - 1⟩)

/-- The loop of `dequeue`: the element whose link leads to `stale`. -/
def findPrevious (m : Elements) (stale : Nat) : Nat → Nat → Option (Option Nat)
  | fuel, previous =>
    match m.nextInstanceSample previous with
    | none => some none
    | some item =>
      if item = stale then some (some previous)
      else match fuel with
        | 0 => none
        | fuel + 1 => findPrevious m stale fuel item

def dequeue (fuel : Nat) (m : Elements) (l : Header Nat) (stale : Nat) :
    Option (Bool × Elements × Header Nat) :=
  match l.head with
  | none => some (false, m, l)
  | some head =>
    if stale = head then some (dequeueHead m l)
    else (findPrevious m stale fuel head).map fun found =>
      match found with
      | none => (false, m, l)
      | some previous =>
        let m := m.setNextInstance previous (m.nextInstanceSample stale)
        (true, m.setNextInstance stale none,
          ⟨l.head, if m.nextInstanceSample previous = none then some previous else l.tail,
            l.size - 1⟩)

end InstanceDataSampleList

end OpenDDS.Source

/-!
# What the list operations do to the lists

Each operation of the two list classes, on a list of known elements: the result is the
list with the element appended, taken out or with another list appended, and the links
of all other elements are as they were. The operations that put an element into a list
do not clear its links first, so the ends of the result are those of the element.
-/
namespace OpenDDS.Source

open Library.LinkedList
open Function (update_apply update_idem update_of_ne update_self)

namespace Elements

/-- The list of `xs` over the send links. -/
abbrev Sends (m : Elements) (l : Header Nat) (xs : List Nat) : Prop :=
  Linked m.nextSendSample m.previousSendSample l xs

/-- The list of `xs` over the instance links. -/
abbrev Keeps (m : Elements) (l : Header Nat) (xs : List Nat) : Prop :=
  Threaded m.nextInstanceSample l xs

/-- Nothing but the send links of `xs` changed. -/
structure Resent (m m' : Elements) (xs : List Nat) : Prop where
  next : ∀ x, x ∉ xs → m'.nextSendSample x = m.nextSendSample x
  previous : ∀ x, x ∉ xs → m'.previousSendSample x = m.previousSendSample x
  instances : m'.nextInstanceSample = m.nextInstanceSample
  handle : m'.handle = m.handle
  space : m'.spaceAvailable = m.spaceAvailable

/-- Nothing but the instance links of `xs` changed. -/
structure Refiled (m m' : Elements) (xs : List Nat) : Prop where
  next : m'.nextSendSample = m.nextSendSample
  previous : m'.previousSendSample = m.previousSendSample
  instances : ∀ x, x ∉ xs → m'.nextInstanceSample x = m.nextInstanceSample x
  handle : m'.handle = m.handle
  space : m'.spaceAvailable = m.spaceAvailable

end Elements

open Elements

variable {m m' : Elements} {l l' : Header Nat} {xs ys : List Nat} {a : Nat}
  {before after : Option Nat}

theorem Elements.Resent.segment (h : Resent m m' xs) (apart : ∀ x ∈ ys, x ∉ xs)
    (list : Segment m.nextSendSample m.previousSendSample l ys before after) :
    Segment m'.nextSendSample m'.previousSendSample l ys before after where
  toAnchors := list.toAnchors
  forward := list.forward.congr fun x hx => h.next x (apart x hx)
  backward := list.backward.congr fun x hx => h.previous x (apart x (List.mem_reverse.mp hx))

theorem Elements.Resent.keeps (h : Resent m m' xs) (list : Keeps m l ys) : Keeps m' l ys where
  toAnchors := list.toAnchors
  forward := by
    rw [h.instances]
    exact list.forward

namespace SendStateDataSampleList

theorem enqueueTail_spec
    (h : Segment m.nextSendSample m.previousSendSample l xs before after)
    (nodup : xs.Nodup) (fresh : a ∉ xs) :
    ∃ m' l', enqueueTail m l a = some (m', l') ∧
      Segment m'.nextSendSample m'.previousSendSample l' (xs ++ [a])
        (if xs = [] then m.previousSendSample a else before) (m.nextSendSample a) ∧
      Resent m m' (xs ++ [a]) := by
  rcases xs.eq_nil_or_concat with rfl | ⟨front, tail, rfl⟩
  · have hhead : l.head = none := by simpa using h.head
    have hsize : l.size = 0 := by simpa using h.size
    refine ⟨m, ⟨some a, some a, l.size + 1⟩, by simp [enqueueTail, hhead], ?_, ?_⟩
    · constructor
      · constructor <;> simp [hsize]
      · simp
      · simp
    · constructor <;> simp
  · rw [List.concat_eq_append] at h nodup fresh ⊢
    obtain ⟨⟨head, hhead⟩, htail⟩ := h.ends
    have hat : a ≠ tail := fun heq => fresh (by simp [heq])
    refine ⟨(m.setPreviousSend a (some tail)).setNextSend tail (some a),
      ⟨l.head, some a, l.size + 1⟩, by simp [enqueueTail, hhead, htail], ?_, ?_⟩
    · refine ⟨h.concat (by simp) a, ?_, ?_⟩
      · apply h.forward.concat (by simpa using List.Nodup.concat fresh nodup)
        · intro x hxa hxt
          simp [setNextSend, setPreviousSend, hxt]
        · simp [setNextSend, setPreviousSend]
        · simp [setNextSend, setPreviousSend, hat]
      · rw [List.reverse_append]
        constructor
        · simp [setNextSend, setPreviousSend]
        · simp only [List.append_eq_nil_iff, List.cons_ne_self, and_false, if_false]
          apply h.backward.congr
          intro x hx
          have hxa : x ≠ a := fun heq => fresh (heq ▸ List.mem_reverse.mp hx)
          simp [setNextSend, setPreviousSend, hxa]
    · constructor
      · intro x hx
        have hxt : x ≠ tail := fun heq => hx (by simp [heq])
        simp [setNextSend, setPreviousSend, hxt]
      · intro x hx
        have hxa : x ≠ a := fun heq => hx (by simp [heq])
        simp [setNextSend, setPreviousSend, hxa]
      · rfl
      · rfl
      · rfl

theorem dequeueHead_spec (h : Sends m l (a :: xs)) (nodup : (a :: xs).Nodup) :
    ∃ m' l', dequeueHead m l = (true, m', l') ∧ Sends m' l' xs ∧
      m'.nextSendSample a = none ∧ m'.previousSendSample a = none ∧ Resent m m' (a :: xs) := by
  have hhead : l.head = some a := by simpa using h.head
  have hnext : m.nextSendSample a = xs.head? := by simpa using h.forward.1
  obtain ⟨hfresh, hrest⟩ := List.nodup_cons.mp nodup
  have hback := h.backward
  rw [List.reverse_cons, path_append] at hback
  cases xs with
  | nil =>
    refine ⟨(m.setNextSend a none).setPreviousSend a none, ⟨none, none, l.size - 1⟩,
      by simp [dequeueHead, hhead, hnext], ?_, by simp [setNextSend, setPreviousSend],
      by simp [setNextSend, setPreviousSend], ?_⟩
    · constructor
      · constructor <;> simp [h.size]
      · trivial
      · trivial
    · constructor <;> simp +contextual [setNextSend, setPreviousSend]
  | cons b xs =>
    have hab : b ≠ a := fun heq => hfresh (by simp [heq])
    refine ⟨((m.setPreviousSend b none).setNextSend a none).setPreviousSend a none,
      ⟨some b, l.tail, l.size - 1⟩, by simp [dequeueHead, hhead, hnext], ?_,
      by simp [setNextSend, setPreviousSend], by simp [setNextSend, setPreviousSend], ?_⟩
    · constructor
      · constructor
        · rfl
        · simpa [List.getLast?_cons_cons] using h.tail
        · simp [h.size]
      · apply h.forward.2.congr
        intro x hx
        have hxa : x ≠ a := fun heq => hfresh (heq ▸ hx)
        simp [setNextSend, setPreviousSend, hxa]
      · apply hback.1.redirect
        · intro x hx hlast
          have hxa : x ≠ a := fun heq => hfresh (heq ▸ List.mem_reverse.mp hx)
          have hxb : x ≠ b := by
            intro heq
            simp [heq] at hlast
          simp [setNextSend, setPreviousSend, hxa, hxb]
        · intro x hx
          have hxb : x = b := by simpa using hx.symm
          simp [setNextSend, setPreviousSend, hxb, hab]
        · exact List.nodup_reverse.mpr hrest
    · constructor <;> simp +contextual [setNextSend, setPreviousSend]

theorem unlink_eq {p : Nat} (hprev : m.previousSendSample a = some p) (hpa : p ≠ a) :
    unlink m l a = some
      ({ m with
          nextSendSample := fun x => if x = a then none
            else if x = p then m.nextSendSample a else m.nextSendSample x
          previousSendSample := fun x => if x = a then none
            else if m.nextSendSample a = some x then some p else m.previousSendSample x },
        { l with
          tail := if m.nextSendSample a = none then some p else l.tail
          size := l.size - 1 }) := by
  cases hnext : m.nextSendSample a with
  | none =>
    simp only [unlink, hprev, hnext, setNextSend, setPreviousSend, update_idem,
      update_of_ne hpa.symm, Option.bind_eq_bind, Option.bind_some, if_true]
    congr 3 <;> funext x <;> simp [update_apply]
  | some n =>
    simp only [unlink, hprev, hnext, setNextSend, setPreviousSend,
      update_of_ne hpa.symm, Option.bind_eq_bind, Option.bind_some, reduceCtorEq, if_false]
    congr 3 <;> funext x <;> simp [update_apply, eq_comm (a := n)]

theorem unlink_spec {as bs : List Nat} {p : Nat} (h : Sends m l (as ++ a :: bs))
    (nodup : (as ++ a :: bs).Nodup) (hp : as.getLast? = some p) :
    ∃ m' l', unlink m l a = some (m', l') ∧ Sends m' l' (as ++ bs) ∧
      m'.nextSendSample a = none ∧ m'.previousSendSample a = none ∧
      Resent m m' (as ++ a :: bs) := by
  obtain ⟨hnext, hpreva, -⟩ := h.around
  have hprev : m.previousSendSample a = some p := hpreva.trans hp
  obtain ⟨hasnd, hbsnd, hapart⟩ := List.nodup_append.mp nodup
  have hpa : p ≠ a := hapart p (List.mem_of_getLast? hp) a (by simp)
  have habs : a ∉ bs := (List.nodup_cons.mp hbsnd).1
  have haas : a ∉ as := fun hmem => hapart a hmem a (by simp) rfl
  have hother : ∀ x ∈ as ++ bs, x ≠ a := by
    rintro x hx rfl
    simp [haas, habs] at hx
  refine ⟨_, _, unlink_eq hprev hpa, h.remove nodup ?_ ?_ ?_, by simp, by simp, ?_⟩
  · constructor
    · simp only [h.head, List.head?_append]
      cases as with
      | nil => simp at hp
      | cons x xs => rfl
    · simp only [hnext, h.tail, List.getLast?_append, hp]
      cases bs with
      | nil => rfl
      | cons b bs => simp [List.getLast?_cons_cons]
    · simp [h.size]
      omega
  · intro x hx
    simp [hother x hx, hnext, hp, eq_comm]
  · intro x hx
    simp [hother x hx, hnext, hp]
  · constructor
    · intro x hx
      have hxa : x ≠ a := fun heq => hx (by simp [heq])
      have hxp : x ≠ p := fun heq => hx (by simp [heq, List.mem_of_getLast? hp])
      simp [hxa, hxp]
    · intro x hx
      have hxa : x ≠ a := fun heq => hx (by simp [heq])
      have hxn : ¬ bs.head? = some x := fun heq => hx (by simp [List.mem_of_head? heq])
      simp [hxa, hnext, hxn]
    · rfl
    · rfl
    · rfl

theorem dequeue_mem {fuel : Nat} (h : Sends m l xs) (nodup : xs.Nodup) (hmem : a ∈ xs)
    (bound : xs.length ≤ fuel) :
    ∃ m' l', dequeue fuel m l a = some (true, m', l') ∧ Sends m' l' (xs.erase a) ∧
      m'.nextSendSample a = none ∧ m'.previousSendSample a = none ∧ Resent m m' xs := by
  cases xs with
  | nil => simp at hmem
  | cons x xs =>
    have hhead : l.head = some x := by simpa using h.head
    by_cases hax : a = x
    · subst hax
      obtain ⟨m', l', heq, hspec⟩ := dequeueHead_spec h nodup
      refine ⟨m', l', ?_, by simpa using hspec⟩
      simp [dequeue, hhead, heq]
    · have hin : a ∈ xs := by simpa [hax] using hmem
      obtain ⟨as, bs, rfl⟩ := List.append_of_mem hin
      have hnext : m.nextSendSample x = (as ++ a :: bs).head? := by simpa using h.forward.1
      have hfound := search_path a h.forward.2 (Nat.le_of_succ_le bound)
      obtain ⟨p, hp⟩ : ∃ p, (x :: as).getLast? = some p := by
        simp [List.getLast?_cons]
      have hsplit : (x :: as ++ a :: bs).Nodup := nodup
      obtain ⟨m', l', heq, hspec⟩ :=
        unlink_spec (show Sends m l (x :: as ++ a :: bs) from h) hsplit hp
      have herase : (x :: (as ++ a :: bs)).erase a = x :: (as ++ bs) := by
        have hnot : a ∉ x :: as := by
          intro hmem'
          exact (List.nodup_append.mp hsplit).2.2 a hmem' a (by simp) rfl
        rw [← List.cons_append, List.erase_append_right _ hnot, List.erase_cons_head]
        rfl
      refine ⟨m', l', ?_, ?_⟩
      · rw [hnext.symm] at hfound
        simp [dequeue, hhead, hax, hfound, heq]
      · rw [herase]
        exact hspec

theorem dequeue_notMem {fuel : Nat} (h : Sends m l xs) (hmem : a ∉ xs)
    (bound : xs.length ≤ fuel) : dequeue fuel m l a = some (false, m, l) := by
  cases xs with
  | nil =>
    have hhead : l.head = none := by simpa using h.head
    simp [dequeue, hhead]
  | cons x xs =>
    have hhead : l.head = some x := by simpa using h.head
    have hax : a ≠ x := fun heq => hmem (by simp [heq])
    have hin : a ∉ xs := fun h' => hmem (by simp [h'])
    have hnext : m.nextSendSample x = xs.head? := by simpa using h.forward.1
    have hfound := search_path a h.forward.2 (Nat.le_of_succ_le bound)
    rw [← hnext] at hfound
    simp [dequeue, hhead, hax, hfound, hin]

theorem enqueueTailList_spec {list : Header Nat} (h : Sends m l xs) (h' : Sends m list ys)
    (nodup : (xs ++ ys).Nodup) (hne : xs ≠ [] → ys ≠ []) :
    ∃ m' l', enqueueTailList m l list = some (m', l') ∧ Sends m' l' (xs ++ ys) ∧
      Resent m m' (xs ++ ys) := by
  rcases xs.eq_nil_or_concat with rfl | ⟨front, tail, rfl⟩
  · have hhead : l.head = none := by simpa using h.head
    refine ⟨m, list, by simp [enqueueTailList, hhead], h', ?_⟩
    constructor <;> simp
  · rw [List.concat_eq_append] at h nodup hne ⊢
    obtain ⟨y, ys, rfl⟩ := List.exists_cons_of_ne_nil (hne (by simp))
    obtain ⟨⟨head, hhead⟩, htail⟩ := h.ends
    have hlast : (front ++ [tail]).getLast? = some tail := by simp
    have hhead' : list.head = some y := by simpa using h'.head
    refine ⟨(m.setNextSend tail list.head).setPreviousSend y (some tail),
      ⟨l.head, list.tail, l.size + list.size⟩,
      by simp [enqueueTailList, hhead, htail, hhead'], ?_, ?_⟩
    · constructor
      · constructor
        · rw [List.head?_append, ← h.head, hhead, Option.some_or]
        · rw [h'.tail]
          simp [List.getLast?_append, List.getLast?_cons]
        · simp [h.size, h'.size]
          omega
      · apply h.forward.join h'.forward nodup
        · intro x _ hx
          have hxt : x ≠ tail := fun heq => hx (heq ▸ hlast)
          simp [setNextSend, setPreviousSend, hxt]
        · intro x hx
          have hxt : tail = x := by simpa [hlast] using hx
          simp [setNextSend, setPreviousSend, hxt, hhead']
      · rw [List.reverse_append]
        apply h'.backward.join h.backward
        · have hrev := List.nodup_reverse.mpr nodup
          rwa [List.reverse_append] at hrev
        · intro x _ hx
          have hxy : x ≠ y := by
            intro heq
            simp [heq] at hx
          simp [setNextSend, setPreviousSend, hxy]
        · intro x hx
          have hxy : x = y := by simpa using hx.symm
          simp [setNextSend, setPreviousSend, hxy]
    · constructor
      · intro x hx
        have hxt : x ≠ tail := fun heq => hx (by simp [heq])
        simp [setNextSend, setPreviousSend, hxt]
      · intro x hx
        have hxy : x ≠ y := fun heq => hx (by simp [heq])
        simp [setNextSend, setPreviousSend, hxy]
      · rfl
      · rfl
      · rfl

theorem lastFrom_previous {fuel : Nat} (h : Sends m l xs) (hmem : a ∈ xs)
    (bound : xs.length ≤ fuel) : lastFrom m.previousSendSample fuel a = xs.head? := by
  obtain ⟨as, bs, rfl⟩ := List.append_of_mem hmem
  obtain ⟨-, -, hback⟩ := h.around
  have hlen : as.reverse.length ≤ fuel := by
    simp at bound ⊢
    omega
  rw [lastFrom_path (path_append.mp hback).2 hlen]
  cases as with
  | nil => rfl
  | cons x as => simp [List.getLast?_cons]

end SendStateDataSampleList

namespace InstanceDataSampleList

theorem enqueueTail_spec (h : Keeps m l xs) (nodup : xs.Nodup) (fresh : a ∉ xs) :
    ∃ m' l', enqueueTail m l a = some (m', l') ∧ Keeps m' l' (xs ++ [a]) ∧
      Refiled m m' (xs ++ [a]) := by
  rcases xs.eq_nil_or_concat with rfl | ⟨front, tail, rfl⟩
  · have hhead : l.head = none := by simpa using h.head
    have hsize : l.size = 0 := by simpa using h.size
    refine ⟨m.setNextInstance a none, ⟨some a, some a, l.size + 1⟩,
      by simp [enqueueTail, hhead], ?_, ?_⟩
    · constructor
      · constructor <;> simp [hsize]
      · simp [setNextInstance]
    · constructor <;> simp +contextual [setNextInstance]
  · rw [List.concat_eq_append] at h nodup fresh ⊢
    obtain ⟨⟨head, hhead⟩, htail⟩ := h.ends
    have hat : a ≠ tail := fun heq => fresh (by simp [heq])
    refine ⟨(m.setNextInstance a none).setNextInstance tail (some a),
      ⟨l.head, some a, l.size + 1⟩, by simp [enqueueTail, hhead, htail], ?_, ?_⟩
    · refine ⟨h.concat (by simp) a, ?_⟩
      apply h.forward.concat (by simpa using List.Nodup.concat fresh nodup)
      · intro x hxa hxt
        simp [setNextInstance, hxa, hxt]
      · simp [setNextInstance]
      · simp [setNextInstance, hat]
    · constructor
      · rfl
      · rfl
      · intro x hx
        have hxa : x ≠ a := fun heq => hx (by simp [heq])
        have hxt : x ≠ tail := fun heq => hx (by simp [heq])
        simp [setNextInstance, hxa, hxt]
      · rfl
      · rfl

theorem dequeueHead_spec (h : Keeps m l (a :: xs)) (fresh : a ∉ xs) :
    ∃ m' l', dequeueHead m l = (true, m', l') ∧ Keeps m' l' xs ∧ Refiled m m' (a :: xs) := by
  have hhead : l.head = some a := by simpa using h.head
  have hnext : m.nextInstanceSample a = xs.head? := by simpa using h.forward.1
  refine ⟨_, _, by rw [dequeueHead, hhead], ?_, ?_⟩
  · constructor
    · constructor
      · simp [hnext]
      · cases xs with
        | nil => simp [hnext]
        | cons b xs => simpa [hnext, List.getLast?_cons_cons] using h.tail
      · simp [h.size]
    · apply h.forward.2.congr
      intro x hx
      have hxa : x ≠ a := fun heq => fresh (heq ▸ hx)
      simp [setNextInstance, hxa]
  · constructor <;> simp +contextual [setNextInstance]

theorem findPrevious_spec {as bs : List Nat} {p fuel : Nat}
    (h : Path m.nextInstanceSample (p :: as ++ a :: bs) none) (hmem : a ∉ as)
    (bound : as.length ≤ fuel) :
    findPrevious m a fuel p = some ((p :: as).getLast?) := by
  induction as generalizing p fuel with
  | nil =>
    have hnext : m.nextInstanceSample p = some a := by simpa using h.1
    simp [findPrevious, hnext]
  | cons x as ih =>
    obtain ⟨fuel, rfl⟩ : ∃ n, fuel = n + 1 := ⟨fuel - 1, by simp at bound; omega⟩
    have hnext : m.nextInstanceSample p = some x := by simpa using h.1
    have hxa : x ≠ a := fun heq => hmem (by simp [heq])
    rw [findPrevious, hnext, List.getLast?_cons_cons]
    simp only [hxa, if_false]
    exact ih h.2 (fun h' => hmem (by simp [h'])) (by simpa using bound)

theorem dequeue_mem {fuel : Nat} (h : Keeps m l xs) (nodup : xs.Nodup) (hmem : a ∈ xs)
    (bound : xs.length ≤ fuel) :
    ∃ m' l', dequeue fuel m l a = some (true, m', l') ∧ Keeps m' l' (xs.erase a) ∧
      Refiled m m' xs := by
  cases xs with
  | nil => simp at hmem
  | cons x xs =>
    have hhead : l.head = some x := by simpa using h.head
    by_cases hax : a = x
    · subst hax
      obtain ⟨m', l', heq, hspec⟩ := dequeueHead_spec h (List.nodup_cons.mp nodup).1
      refine ⟨m', l', ?_, by simpa using hspec⟩
      simp [dequeue, hhead, heq]
    · have hin : a ∈ xs := by simpa [hax] using hmem
      obtain ⟨as, bs, rfl⟩ := List.append_of_mem hin
      have hsplit : (x :: as ++ a :: bs).Nodup := nodup
      obtain ⟨hasnd, hbsnd, hapart⟩ := List.nodup_append.mp hsplit
      have hnot : a ∉ x :: as := fun h' => hapart a h' a (by simp) rfl
      obtain ⟨p, hp⟩ : ∃ p, (x :: as).getLast? = some p := by
        simp [List.getLast?_cons]
      have hpa : p ≠ a := fun heq => hnot (heq ▸ List.mem_of_getLast? hp)
      have hforward : Path m.nextInstanceSample (x :: as ++ a :: bs) none := h.forward
      have hnext : m.nextInstanceSample a = bs.head? := by
        simpa using (path_append.mp hforward).2.1
      have hbound : as.length ≤ fuel := by
        simp at bound
        omega
      have hfound := findPrevious_spec hforward (fun h' => hnot (by simp [h'])) hbound
      have herase : (x :: (as ++ a :: bs)).erase a = x :: as ++ bs := by
        rw [← List.cons_append, List.erase_append_right _ hnot, List.erase_cons_head]
      refine ⟨_, _, by simp only [dequeue, hhead, hax, if_false, hfound, hp, Option.map_some]; rfl,
        ?_, ?_⟩
      · rw [herase]
        constructor
        · constructor
          · simp
          · simp only [setNextInstance, update_self, hnext, h.tail]
            cases bs with
            | nil => simp [hp]
            | cons b bs => simp [List.getLast?_cons, List.getLast?_append]
          · simp [h.size]
            omega
        · apply hforward.remove hsplit
          · intro y hy hlast
            have hya : y ≠ a := by
              rintro rfl
              rcases List.mem_append.mp hy with hy | hy
              · exact hnot hy
              · exact (List.nodup_cons.mp hbsnd).1 hy
            have hyp : y ≠ p := fun heq => hlast (heq ▸ hp)
            simp [setNextInstance, hya, hyp]
          · intro y hy
            have hyp : y = p := by simpa [hp] using hy.symm
            simp [setNextInstance, hyp, hpa]
      · constructor
        · rfl
        · rfl
        · intro y hy
          have hya : y ≠ a := fun heq => hy (by simp [heq])
          have hyp : y ≠ p := by
            intro heq
            have hmem' := List.mem_of_getLast? hp
            apply hy
            rw [heq, ← List.cons_append]
            exact List.mem_append_left _ hmem'
          simp [setNextInstance, hya, hyp]
        · rfl
        · rfl

end InstanceDataSampleList
end OpenDDS.Source
