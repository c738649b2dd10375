import Mathlib.Algebra.Ring.Nat
import Mathlib.Data.List.Pairwise
import Mathlib.Data.List.Rotate
import Mathlib.Data.List.TakeWhile

/-!
# A ring of buffers

Items are received into a ring of buffers and taken out of it in the same order. The ring
is a list that starts with the current buffer. A buffer has items that were not taken out
yet, space behind them, and may be chained to the next buffer of the ring; the items in
front of a reader are those of the chain that starts with the current buffer.

Received items fill the space of one buffer after another, so they come behind all others
only while no buffer with items follows one with space. `Sound` says this, that the
buffers with items follow each other, and that the chain reaches all of them and ends.
-/
namespace OpenDDS.Library.BufferRing

structure Buffer (α : Type) where
  items : List α
  space : Nat
  chained : Bool

variable {α : Type}

/-- The items that were not taken out, in the order of the ring. -/
def unread (ring : List (Buffer α)) : List α := ring.flatMap Buffer.items

def spaces (ring : List (Buffer α)) : Nat := (ring.map Buffer.space).sum

/-- New items go to the space of one buffer after another. -/
def fill : List α → List (Buffer α) → List (Buffer α)
  | _, [] => []
  | items, b :: rest =>
    { b with items := b.items ++ items.take b.space, space := b.space - items.length } ::
      fill (items.drop b.space) rest

/-- The first `n` items are taken out. -/
def advance : Nat → List (Buffer α) → List (Buffer α)
  | _, [] => []
  | n, b :: rest => { b with items := b.items.drop n } :: advance (n - b.items.length) rest

/-- The buffers met along the chain; there are none when it comes back to the start. -/
def chain : List (Buffer α) → Option (List (Buffer α))
  | [] => none
  | b :: rest => if b.chained then (chain rest).map (b :: ·) else some [b]

/-- The ring from its first buffer with items on, when there is one; `passed` are the
buffers left behind. -/
def seek (passed : List (Buffer α)) : List (Buffer α) → Option (List (Buffer α))
  | [] => none
  | b :: rest => if b.items = [] then seek (passed ++ [b]) rest else some (b :: rest ++ passed)

/-- A buffer without items and with less than `low` space. -/
def spent (low : Nat) : Option (Buffer α) → Bool
  | none => false
  | some b => b.items.isEmpty && decide (b.space < low)

/-- Spent buffers are removed, and no chain leads to them. -/
def discard (low : Nat) (slots : List (Option (Buffer α))) : List (Option (Buffer α)) :=
  List.zipWith
    (fun slot next =>
      if spent low slot then none
      else if spent low next then slot.map fun b => { b with chained := false }
      else slot)
    slots (slots.rotate 1)

/-- Free slots get new buffers, and each buffer but the last is chained to the next. -/
def allocate (size : Nat) : List (Option (Buffer α)) → List (Buffer α)
  | [] => []
  | [slot] => [slot.getD ⟨[], size, false⟩]
  | slot :: next :: rest =>
    { slot.getD ⟨[], size, false⟩ with chained := true } :: allocate size (next :: rest)

attribute [grind =] fill advance chain seek spent allocate

@[simp] theorem unread_nil : unread ([] : List (Buffer α)) = [] := rfl

@[simp] theorem unread_cons (b : Buffer α) (rest : List (Buffer α)) :
    unread (b :: rest) = b.items ++ unread rest := by simp [unread]

@[simp] theorem unread_append (as bs : List (Buffer α)) :
    unread (as ++ bs) = unread as ++ unread bs := by simp [unread]

theorem unread_eq_nil {ring : List (Buffer α)} : unread ring = [] ↔ ∀ b ∈ ring, b.items = [] := by
  simp [unread]

@[simp] theorem spaces_cons (b : Buffer α) (rest : List (Buffer α)) :
    spaces (b :: rest) = b.space + spaces rest := by simp [spaces]

/-- A buffer in front of one with items has no space. -/
def Filled (ring : List (Buffer α)) : Prop :=
  ring.Pairwise fun b c => c.items ≠ [] → b.space = 0

/-- A buffer in front of one with items has items. -/
def Solid (ring : List (Buffer α)) : Prop :=
  ring.Pairwise fun b c => c.items ≠ [] → b.items ≠ []

/-- The chain ends, and the buffers it does not reach are spent. -/
def Linked (low : Nat) : List (Buffer α) → Prop
  | [] => False
  | b :: rest =>
    if b.chained then Linked low rest else ∀ c ∈ rest, c.items = [] ∧ c.space < low

/-- Every buffer but the last is chained to the next. -/
def Chained : List (Buffer α) → Prop
  | [] => False
  | [b] => b.chained = false
  | b :: c :: rest => b.chained = true ∧ Chained (c :: rest)

attribute [grind =] Linked Chained

/-- Leading empty buffers apart, the buffers with items come first. -/
structure Sound (low : Nat) (ring : List (Buffer α)) : Prop where
  filled : Filled ring
  solid : Solid (ring.dropWhile fun b => b.items.isEmpty)
  linked : Linked low ring

/-- The items of the slots in use. -/
def unreadSlots (slots : List (Option (Buffer α))) : List α :=
  slots.flatMap fun slot => (slot.map Buffer.items).getD []

/-- The current buffer has items, if any buffer has. -/
def Ready (slots : List (Option (Buffer α))) : Prop :=
  ∀ slot ∈ slots.head?, (slot.map Buffer.items).getD [] = [] → unreadSlots slots = []

variable {low n : Nat} {ring : List (Buffer α)} {b : Buffer α}

theorem unread_advance (n : Nat) (ring : List (Buffer α)) :
    unread (advance n ring) = (unread ring).drop n := by
  induction ring generalizing n with
  | nil => simp [advance]
  | cons b rest ih => rw [advance, unread_cons, unread_cons, ih, List.drop_append]

theorem advance_zero (ring : List (Buffer α)) : advance 0 ring = ring := by
  induction ring with
  | nil => rfl
  | cons b rest ih => simp [advance, ih]

theorem advance_first {b : Buffer α} {rest : List (Buffer α)} {n : Nat} (h : n ≤ b.items.length) :
    advance n (b :: rest) = { b with items := b.items.drop n } :: rest := by
  rw [advance, Nat.sub_eq_zero_of_le h, advance_zero]

/-- Items taken out leave spaces and links alone. -/
theorem mem_advance {c : Buffer α} (h : c ∈ advance n ring) :
    ∃ b ∈ ring, (b.items = [] → c.items = []) ∧ c.space = b.space := by
  induction ring generalizing n with
  | nil => cases h
  | cons b rest ih =>
    rcases List.mem_cons.mp h with rfl | h
    · exact ⟨b, List.mem_cons_self, fun hb => by simp [hb], rfl⟩
    · obtain ⟨b', hb', hrest⟩ := ih h
      exact ⟨b', List.mem_cons_of_mem _ hb', hrest⟩

theorem Filled.advance (h : Filled ring) (n : Nat) : Filled (advance n ring) := by
  induction ring generalizing n with
  | nil => exact h
  | cons b rest ih =>
    obtain ⟨hfirst, hrest⟩ := List.pairwise_cons.mp h
    apply List.pairwise_cons.mpr
    refine ⟨?_, ih hrest _⟩
    intro c hc hne
    obtain ⟨c', hc', hempty, -⟩ := mem_advance hc
    exact hfirst c' hc' (mt hempty hne)

theorem Linked.advance (h : Linked low ring) (n : Nat) : Linked low (advance n ring) := by
  induction ring generalizing n with
  | nil => exact h
  | cons b rest ih =>
    simp only [BufferRing.advance, Linked] at h ⊢
    split_ifs at h ⊢
    · exact ih h _
    · intro c hc
      obtain ⟨c', hc', hempty, hspace⟩ := mem_advance hc
      exact ⟨hempty (h c' hc').1, hspace ▸ (h c' hc').2⟩

theorem Solid.dropWhile (h : Solid ring) : Solid (ring.dropWhile fun b => b.items.isEmpty) :=
  h.sublist (List.dropWhile_sublist _)

theorem solid_advance (h : Solid (ring.dropWhile fun b => b.items.isEmpty)) (n : Nat) :
    Solid ((advance n ring).dropWhile fun b => b.items.isEmpty) := by
  induction ring generalizing n with
  | nil => exact h
  | cons b rest ih =>
    have hrest : Solid (rest.dropWhile fun b => b.items.isEmpty) := by
      by_cases hb : b.items = []
      · simpa [List.dropWhile_cons, hb] using h
      · have hall : Solid (b :: rest) := by simpa [List.dropWhile_cons, hb] using h
        exact Solid.dropWhile (List.pairwise_cons.mp hall).2
    by_cases hspent : b.items.drop n = []
    · simpa [advance, List.dropWhile_cons, hspent] using ih hrest _
    · -- Items are left in the first buffer, so nothing was taken out of the others.
      have hlt : n < b.items.length := by
        by_contra hle
        exact hspent (List.drop_eq_nil_of_le (by omega))
      have hb : b.items ≠ [] := by
        intro hnil
        simp [hnil] at hlt
      have hall : Solid (b :: rest) := by simpa [List.dropWhile_cons, hb] using h
      have hzero : n - b.items.length = 0 := by omega
      have hshape : (advance n (b :: rest)).dropWhile (fun b => b.items.isEmpty) =
          { b with items := b.items.drop n } :: rest := by
        simp [advance, hzero, advance_zero, hlt]
      rw [hshape]
      obtain ⟨-, hothers⟩ := List.pairwise_cons.mp hall
      exact List.pairwise_cons.mpr ⟨fun c _ _ => hspent, hothers⟩

theorem Sound.advance (h : Sound low ring) (n : Nat) : Sound low (advance n ring) :=
  ⟨h.filled.advance n, solid_advance h.solid n, h.linked.advance n⟩

/-- Along the chain a reader meets all items. -/
theorem Linked.chain (h : Linked low ring) :
    ∃ blocks, chain ring = some blocks ∧ unread blocks = unread ring := by
  induction ring with
  | nil => exact h.elim
  | cons b rest ih =>
    simp only [Linked] at h
    split_ifs at h with hchained
    · obtain ⟨blocks, heq, hunread⟩ := ih h
      exact ⟨b :: blocks, by simp [BufferRing.chain, hchained, heq], by simp [hunread]⟩
    · have hempty : unread rest = [] := unread_eq_nil.mpr fun c hc => (h c hc).1
      exact ⟨[b], by simp [BufferRing.chain, hchained], by simp [hempty]⟩

theorem Linked.append {b : Buffer α} (h : Linked low ring) (hitems : b.items = [])
    (hspace : b.space < low) : Linked low (ring ++ [b]) := by
  induction ring with
  | nil => exact h.elim
  | cons c rest ih =>
    simp only [List.cons_append, Linked] at h ⊢
    split_ifs at h ⊢
    · exact ih h
    · intro d hd
      rcases List.mem_append.mp hd with hd | hd
      · exact h d hd
      · obtain rfl := List.mem_singleton.mp hd
        exact ⟨hitems, hspace⟩

/-- Without items there is nothing to move to. -/
theorem seek_eq_none {passed : List (Buffer α)} (h : unread ring = []) :
    seek passed ring = none := by
  induction ring generalizing passed with
  | nil => rfl
  | cons b rest ih =>
    rw [unread_cons, List.append_eq_nil_iff] at h
    simp [seek, h.1, ih h.2]

theorem seek_eq_self {b : Buffer α} {rest : List (Buffer α)} (h : b.items ≠ []) :
    seek [] (b :: rest) = some (b :: rest) := by
  simp [seek, h]

/-- Empty buffers go to the end of the ring. -/
theorem seek_spec {passed : List (Buffer α)} (hpos : 0 < low)
    (h : Sound low (ring ++ passed)) (hpassed : ∀ c ∈ passed, c.items = [])
    (hne : unread ring ≠ []) :
    ∃ b rest, seek passed ring = some (b :: rest) ∧ b.items ≠ [] ∧ Sound low (b :: rest) ∧
      unread (b :: rest) = unread ring := by
  induction ring generalizing passed with
  | nil => exact absurd rfl hne
  | cons b rest ih =>
    by_cases hb : b.items = []
    · have hrest : unread rest ≠ [] := by
        intro hnil
        exact hne (by simp [hb, hnil])
      obtain ⟨c, hc, hitems⟩ : ∃ c ∈ rest, c.items ≠ [] := by
        by_contra hnone
        exact hrest (unread_eq_nil.mpr fun c hc => not_not.mp fun hitems => hnone ⟨c, hc, hitems⟩)
      have hfilled := List.pairwise_cons.mp h.filled
      have hspace : b.space = 0 := hfilled.1 c (List.mem_append_left _ hc) hitems
      have hchained : Linked low (rest ++ passed) := by
        have hlinked := h.linked
        simp only [List.cons_append, Linked] at hlinked
        split_ifs at hlinked
        · exact hlinked
        · exact absurd (hlinked c (List.mem_append_left _ hc)).1 hitems
      have hsound : Sound low (rest ++ (passed ++ [b])) := by
        rw [← List.append_assoc]
        constructor
        · apply List.pairwise_append.mpr
          refine ⟨hfilled.2, List.pairwise_singleton _ _, ?_⟩
          intro x _ y hy hy'
          obtain rfl := List.mem_singleton.mp hy
          exact absurd hb hy'
        · have hsolid := h.solid
          rw [List.cons_append, List.dropWhile_cons_of_pos (by simp [hb])] at hsolid
          have hfound : ∃ x ∈ rest ++ passed, ¬ x.items.isEmpty = true :=
            ⟨c, List.mem_append_left _ hc, by simpa using hitems⟩
          rw [List.dropWhile_append]
          split_ifs with hall
          · obtain ⟨x, hx, hx'⟩ := hfound
            have hdropped : (rest ++ passed).dropWhile (fun b => b.items.isEmpty) = [] := by
              simpa using hall
            exact absurd (List.dropWhile_eq_nil_iff.mp hdropped x hx) hx'
          · apply List.pairwise_append.mpr
            refine ⟨hsolid, List.pairwise_singleton _ _, ?_⟩
            intro x _ y hy hy'
            obtain rfl := List.mem_singleton.mp hy
            exact absurd hb hy'
        · exact hchained.append hb (by omega)
      have hpassed' : ∀ d ∈ passed ++ [b], d.items = [] := by
        intro d hd
        rcases List.mem_append.mp hd with hd | hd
        · exact hpassed d hd
        · obtain rfl := List.mem_singleton.mp hd
          exact hb
      obtain ⟨d, rest', heq, hd, hsound', hunread⟩ := ih hsound hpassed' hrest
      exact ⟨d, rest', by simp [seek, hb, heq], hd, hsound', by simp [hunread, hb]⟩
    · refine ⟨b, rest ++ passed, by simp [seek, hb], hb, by simpa using h, ?_⟩
      simp [unread_eq_nil.mpr hpassed]

/-- What the items of a buffer in front of another one say about it. -/
def Packed (ring : List (Buffer α)) : Prop :=
  ring.Pairwise fun b c => c.items ≠ [] → b.space = 0 ∧ b.items ≠ []

theorem Packed.filled (h : Packed ring) : Filled ring := h.imp fun hbc hne => (hbc hne).1

theorem Packed.solid (h : Packed ring) : Solid ring := h.imp fun hbc hne => (hbc hne).2

theorem unreadSlots_some (ring : List (Buffer α)) : unreadSlots (ring.map some) = unread ring := by
  simp [unreadSlots, unread, List.flatMap_map]

theorem Sound.packed (h : Sound low ring) (hready : Ready (ring.map some)) : Packed ring := by
  have hsolid : Solid ring := by
    cases ring with
    | nil => exact List.Pairwise.nil
    | cons b rest =>
      by_cases hb : b.items = []
      · have hempty := hready (some b) rfl (by simpa using hb)
        rw [unreadSlots_some, unread_eq_nil] at hempty
        apply List.pairwise_of_forall_mem_list
        intro x _ y hy hne
        exact absurd (hempty y hy) hne
      · simpa [hb] using h.solid
  exact h.filled.imp₂ (fun b c hspace hitems hne => ⟨hspace hne, hitems hne⟩) hsolid

variable {items : List α}

/-- New items come behind all others. -/
theorem unread_fill (h : Filled ring) (hspace : items.length ≤ spaces ring) :
    unread (fill items ring) = unread ring ++ items := by
  induction ring generalizing items with
  | nil =>
    have hnil : items = [] := List.length_eq_zero_iff.mp (by simpa [spaces] using hspace)
    simp [fill, hnil]
  | cons b rest ih =>
    obtain ⟨hfirst, hrest⟩ := List.pairwise_cons.mp h
    rw [spaces_cons] at hspace
    have hdrop : (items.drop b.space).length ≤ spaces rest := by
      rw [List.length_drop]
      omega
    rw [fill, unread_cons, unread_cons, ih hrest hdrop]
    by_cases hzero : b.space = 0
    · simp [hzero]
    · have hempty : unread rest = [] := by
        apply unread_eq_nil.mpr
        intro c hc
        by_contra hne
        exact hzero (hfirst c hc hne)
      simp [hempty]

theorem fill_nil (ring : List (Buffer α)) : fill [] ring = ring := by
  induction ring with
  | nil => rfl
  | cons b rest ih => simp [fill, ih]

/-- A buffer that got items had them before, or the space for them. -/
theorem mem_fill {c : Buffer α} (h : c ∈ fill items ring) (hne : c.items ≠ []) :
    (∃ b ∈ ring, b.items ≠ []) ∨ items ≠ [] := by
  induction ring generalizing items with
  | nil => cases h
  | cons b rest ih =>
    rcases List.mem_cons.mp h with rfl | h
    · by_cases hb : b.items = []
      · right
        rintro rfl
        exact hne (by simp [hb])
      · exact .inl ⟨b, List.mem_cons_self, hb⟩
    · rcases ih h with ⟨b', hb', hitems⟩ | hitems
      · exact .inl ⟨b', List.mem_cons_of_mem _ hb', hitems⟩
      · right
        rintro rfl
        exact hitems (by simp)

theorem Packed.fill (h : Packed ring) (hopen : ∀ b ∈ ring, b.items = [] → 0 < b.space) :
    Packed (fill items ring) := by
  induction ring generalizing items with
  | nil => exact h
  | cons b rest ih =>
    obtain ⟨hfirst, hrest⟩ := List.pairwise_cons.mp h
    apply List.pairwise_cons.mpr
    refine ⟨?_, ih hrest fun c hc => hopen c (List.mem_cons_of_mem _ hc)⟩
    intro c hc hne
    rcases mem_fill hc hne with ⟨c', hc', hitems⟩ | hitems
    · obtain ⟨hspace, hb⟩ := hfirst c' hc' hitems
      simp [hspace, hb]
    · -- The first buffer is full now, for items were left over.
      have hlt : b.space < items.length := by
        by_contra hle
        exact hitems (List.drop_eq_nil_of_le (by omega))
      refine ⟨by show b.space - items.length = 0; omega, ?_⟩
      intro hnil
      obtain ⟨hb, htake⟩ := List.append_eq_nil_iff.mp hnil
      have hpos := hopen b List.mem_cons_self hb
      rw [List.take_eq_nil_iff] at htake
      rcases htake with hzero | hnone
      · omega
      · rw [hnone] at hlt
        simp at hlt

theorem Chained.linked (h : Chained ring) : Linked low ring := by
  induction ring with
  | nil => exact h
  | cons b rest ih =>
    cases rest with
    | nil =>
      have hb : b.chained = false := h
      simp [Linked, hb]
    | cons c rest =>
      obtain ⟨hb, hrest⟩ := h
      rw [Linked, if_pos hb]
      exact ih hrest

theorem Chained.fill (h : Chained ring) : Chained (fill items ring) := by
  induction ring generalizing items with
  | nil => exact h
  | cons b rest ih =>
    cases rest with
    | nil => exact h
    | cons c rest => exact ⟨h.1, ih h.2⟩

variable {slots : List (Option (Buffer α))} {size : Nat}

theorem chained_allocate (hne : slots ≠ [])
    (hlast : ∀ b, slots.getLast? = some (some b) → b.chained = false) :
    Chained (allocate size slots) := by
  induction slots with
  | nil => exact absurd rfl hne
  | cons slot slots ih =>
    cases slots with
    | nil =>
      cases slot with
      | none => rfl
      | some b => exact hlast b rfl
    | cons next rest =>
      have hrest := ih (by simp) (fun b hb => hlast b (by simpa using hb))
      obtain ⟨c, cs, hshape⟩ : ∃ c cs, allocate size (next :: rest) = c :: cs := by
        cases rest <;> exact ⟨_, _, rfl⟩
      rw [allocate, hshape]
      rw [hshape] at hrest
      exact ⟨rfl, hrest⟩

theorem Linked.last (h : Linked low ring) {b : Buffer α} (hb : ring.getLast? = some b) :
    b.chained = false ∨ spent low (some b) = true := by
  induction ring with
  | nil => exact h.elim
  | cons c rest ih =>
    simp only [Linked] at h
    split_ifs at h with hchained
    · cases rest with
      | nil => exact h.elim
      | cons d rest => exact ih h (by simpa using hb)
    · rcases List.mem_cons.mp (List.mem_of_getLast? hb) with rfl | hmem
      · exact .inl (by simpa using hchained)
      · obtain ⟨hitems, hspace⟩ := h b hmem
        exact .inr (by simp [spent, hitems, hspace])

/-- What a slot holds after spent buffers were replaced. -/
def renewed (low size : Nat) (slot : Option (Buffer α)) : List α × Nat :=
  if spent low slot then ([], size)
  else ((slot.getD ⟨[], size, false⟩).items, (slot.getD ⟨[], size, false⟩).space)

theorem allocate_contents (slots : List (Option (Buffer α))) :
    (allocate size slots).map (fun b => (b.items, b.space)) = slots.map fun slot =>
      ((slot.getD ⟨[], size, false⟩).items, (slot.getD ⟨[], size, false⟩).space) := by
  induction slots with
  | nil => rfl
  | cons slot slots ih =>
    cases slots with
    | nil => rfl
    | cons next rest =>
      rw [allocate, List.map_cons, List.map_cons, ih]

theorem renew_contents (low size : Nat) (slots : List (Option (Buffer α))) :
    (allocate size (discard low slots)).map (fun b => (b.items, b.space)) =
      slots.map (renewed low size) := by
  have hsame : ∀ slots' : List (Option (Buffer α)), slots'.length = slots.length →
      (List.zipWith (fun slot next =>
        if spent low slot then none
        else if spent low next then slot.map fun b => { b with chained := false }
        else slot) slots slots').map (fun slot => ((slot.getD ⟨[], size, false⟩).items,
          (slot.getD ⟨[], size, false⟩).space)) = slots.map (renewed low size) := by
    induction slots with
    | nil => simp
    | cons slot slots ih =>
      intro slots' hlength
      cases slots' with
      | nil => cases hlength
      | cons next slots' =>
        rw [List.zipWith_cons_cons, List.map_cons, List.map_cons,
          ih slots' (by simpa using hlength)]
        unfold renewed
        split_ifs
        · rfl
        · cases slot <;> rfl
        · rfl
  rw [allocate_contents, discard, hsame]
  exact List.length_rotate ..

theorem discard_last
    (h : ∀ b, slots.getLast? = some (some b) → b.chained = false ∨ spent low (some b) = true)
    {b : Buffer α} (hb : (discard low slots).getLast? = some (some b)) : b.chained = false := by
  rcases slots.eq_nil_or_concat with rfl | ⟨front, last, rfl⟩
  · cases hb
  · obtain ⟨next, others, hrotate, hlength⟩ : ∃ next others,
        (front ++ [last]).rotate 1 = others ++ [next] ∧ front.length = others.length := by
      cases front with
      | nil => exact ⟨last, [], by simp, rfl⟩
      | cons x front => exact ⟨x, front ++ [last], by simp [List.rotate_cons_succ], by simp⟩
    rw [List.concat_eq_append] at h hb
    rw [discard, hrotate, List.zipWith_append hlength] at hb
    simp only [List.zipWith_cons_cons, List.zipWith_nil_right, List.getLast?_append,
      List.getLast?_singleton] at hb
    cases last with
    | none => split_ifs at hb <;> simp at hb
    | some c =>
      have hc := h c (by simp)
      split_ifs at hb with hspent hnext
      · simp at hb
      · have hb : { c with chained := false } = b := by simpa using hb
        rw [← hb]
      · have hb : c = b := by simpa using hb
        rcases hc with hc | hc
        · rwa [← hb]
        · exact absurd hc hspent

/-- The ring between two calls: no slot is used yet, or all are. -/
inductive Resting (low : Nat) : List (Option (Buffer α)) → Prop
  | unused (n : Nat) (pos : 0 < n) : Resting low (List.replicate n none)
  | used (ring : List (Buffer α)) (sound : Sound low ring) : Resting low (ring.map some)

/-- A ring whose spent buffers were replaced. -/
structure Renewed (slots : List (Option (Buffer α))) (ring : List (Buffer α)) : Prop where
  packed : Packed ring
  chained : Chained ring
  roomy : ∀ b ∈ ring, b.items = [] → 0 < b.space
  unread : unread ring = unreadSlots slots

theorem renewed_empty (slot : Option (Buffer α)) (hlow : 0 < low) (hsize : low ≤ size)
    (h : (renewed low size slot).1 = []) : 0 < (renewed low size slot).2 := by
  unfold renewed at h ⊢
  split_ifs at h ⊢ with hspent
  · omega
  · cases slot with
    | none =>
      show 0 < size
      omega
    | some b =>
      have hitems : b.items = [] := h
      have hspace : ¬ b.space < low := by simpa [spent, hitems] using hspent
      show 0 < b.space
      omega

theorem Resting.last (h : Resting low slots) {b : Buffer α} (hb : slots.getLast? = some (some b)) :
    b.chained = false ∨ spent low (some b) = true := by
  cases h with
  | unused n pos =>
    have hmem := List.mem_of_getLast? hb
    simp at hmem
  | used ring sound =>
    exact sound.linked.last (by simpa using hb)

/-- No item of a buffer stands behind a buffer that was replaced, if the current one has
items. -/
theorem Resting.packed (size : Nat) (h : Resting low slots) (hready : Ready slots) :
    (slots.map (renewed low size)).Pairwise fun b c => c.1 ≠ [] → b.2 = 0 ∧ b.1 ≠ [] := by
  cases h with
  | unused n pos =>
    apply List.pairwise_of_forall_mem_list
    intro x _ y hy hne
    obtain ⟨-, rfl⟩ : n ≠ 0 ∧ y = renewed low size none := by simpa using hy
    exact absurd rfl hne
  | used ring sound =>
    rw [List.map_map, List.pairwise_map]
    apply (sound.packed hready).imp
    intro b c hbc hne
    have hc : c.items ≠ [] := by
      intro hnil
      apply hne
      simp only [Function.comp_apply, renewed]
      split_ifs
      · rfl
      · exact hnil
    obtain ⟨hspace, hitems⟩ := hbc hc
    simp [renewed, spent, hspace, hitems]

theorem Resting.renew (h : Resting low slots) (hlow : 0 < low) (hsize : low ≤ size)
    (hne : slots ≠ []) (hready : Ready slots) :
    Renewed slots (allocate size (discard low slots)) where
  packed := by
    have hpacked := h.packed size hready
    rw [← renew_contents, List.pairwise_map] at hpacked
    exact hpacked
  chained := by
    apply chained_allocate
    · intro hnil
      have hlength := congrArg List.length hnil
      rw [discard, List.length_zipWith, List.length_rotate] at hlength
      exact hne (List.length_eq_zero_iff.mp (by simpa using hlength))
    · exact fun b hb => discard_last (fun c hc => h.last hc) hb
  roomy b hb hitems := by
    have hmem : (b.items, b.space) ∈ slots.map (renewed low size) := by
      rw [← renew_contents]
      exact List.mem_map_of_mem hb
    obtain ⟨slot, -, hslot⟩ := List.mem_map.mp hmem
    have hspace := renewed_empty slot hlow hsize (by rw [hslot]; exact hitems)
    rwa [hslot] at hspace
  unread := by
    have hitems := congrArg (List.map Prod.fst) (renew_contents low size slots)
    rw [List.map_map, List.map_map] at hitems
    have hflat := congrArg List.flatten hitems
    have hslot : ∀ slot : Option (Buffer α), (Prod.fst ∘ renewed low size) slot =
        (slot.map Buffer.items).getD [] := by
      intro slot
      simp only [Function.comp_apply, renewed]
      split_ifs with hspent
      · cases slot with
        | none => rfl
        | some b =>
          have hitems : b.items = [] := by
            simp only [spent, Bool.and_eq_true, List.isEmpty_iff] at hspent
            exact hspent.1
          simp [hitems]
      · cases slot <;> rfl
    rw [List.map_congr_left fun slot _ => hslot slot] at hflat
    exact hflat

end OpenDDS.Library.BufferRing
