import OpenDDS.Source.ContainerObtain

/-!
# Copies for a late reader

`reenqueue_all` appends to `resend_data_` a copy of every sample of `sending_data_` and
`sent_data_` that is kept. A copy starts with the links of its original. The next copy
appended overwrites the forward link and, unless the list was empty, the append itself
the backward one: what remains are the backward link of the first copy of an empty list
and the forward link of the last one.
-/
namespace OpenDDS.Source

open Library.LinkedList

/-- The samples `reenqueue_all` copies, in order. -/
def Placement.copied (p : Placement) (kept : Nat → Bool) : List Nat :=
  (p.lists .sending).filter kept ++ (p.lists .sent).filter kept

def Placement.addCopies (p : Placement) (cs : List Nat) : Placement :=
  { p with lists := Function.update p.lists .resend (p.lists .resend ++ cs) }

namespace Container

variable {limits : ContainerLimits} {c c' : Container} {p : Placement}
  {m m' m'' : Elements} {l : Header Nat} {ds cs : List Nat} {before after : Option Nat}

/-- Copies `cs` were made and appended to the list of `ds`. -/
structure Copied (m m' : Elements) (ds cs : List Nat) : Prop where
  next : ∀ x, x ∉ ds ++ cs → m'.nextSendSample x = m.nextSendSample x
  previous : ∀ x, x ∉ ds ++ cs → m'.previousSendSample x = m.previousSendSample x
  instances : ∀ x, x ∉ cs → m'.nextInstanceSample x = m.nextInstanceSample x
  handle : ∀ x, x ∉ cs → m'.handle x = m.handle x
  space : ∀ x, x ∉ cs → m'.spaceAvailable x = m.spaceAvailable x

theorem Copied.refl : Copied m m ds [] := by
  constructor <;> simp

theorem Copied.trans {cs' : List Nat} (h : Copied m m' ds cs) (h' : Copied m' m'' (ds ++ cs) cs') :
    Copied m m'' ds (cs ++ cs') where
  next x hx := by
    rw [h'.next x (by simpa using hx), h.next x (by simp at hx ⊢; tauto)]
  previous x hx := by
    rw [h'.previous x (by simpa using hx), h.previous x (by simp at hx ⊢; tauto)]
  instances x hx := by
    rw [h'.instances x (by simp at hx; tauto), h.instances x (by simp at hx; tauto)]
  handle x hx := by
    rw [h'.handle x (by simp at hx; tauto), h.handle x (by simp at hx; tauto)]
  space x hx := by
    rw [h'.space x (by simp at hx; tauto), h.space x (by simp at hx; tauto)]

/-- The end that a list has after the elements `kept` were copied to it. -/
def ends (f : Nat → Option Nat) (kept : Option Nat) (fallback : Option Nat) : Option Nat :=
  match kept with
  | none => fallback
  | some x => f x

theorem copy_one {a s : Nat}
    (h : Segment m.nextSendSample m.previousSendSample l ds before after) (nodup : ds.Nodup)
    (fresh : a ∉ ds) :
    ∃ m' l', SendStateDataSampleList.enqueueTail (m.copyConstruct a s) l a = some (m', l') ∧
      Segment m'.nextSendSample m'.previousSendSample l' (ds ++ [a])
        (if ds = [] then m.previousSendSample s else before) (m.nextSendSample s) ∧
      Copied m m' ds [a] := by
  have hold : Segment (m.copyConstruct a s).nextSendSample (m.copyConstruct a s).previousSendSample
      l ds before after := by
    constructor
    · exact h.toAnchors
    · apply h.forward.congr
      intro x hx
      have hxa : x ≠ a := fun heq => fresh (heq ▸ hx)
      simp [Elements.copyConstruct, hxa]
    · apply h.backward.congr
      intro x hx
      have hxa : x ≠ a := fun heq => fresh (heq ▸ List.mem_reverse.mp hx)
      simp [Elements.copyConstruct, hxa]
  obtain ⟨m', l', heq, hl, hm⟩ := SendStateDataSampleList.enqueueTail_spec hold nodup fresh
  refine ⟨m', l', heq, ?_, ?_⟩
  · simpa [Elements.copyConstruct] using hl
  · constructor
    · intro x hx
      have hxa : x ≠ a := fun heq => hx (by simp [heq])
      rw [hm.next x hx]
      simp [Elements.copyConstruct, hxa]
    · intro x hx
      have hxa : x ≠ a := fun heq => hx (by simp [heq])
      rw [hm.previous x hx]
      simp [Elements.copyConstruct, hxa]
    · intro x hx
      have hxa : x ≠ a := by simpa using hx
      rw [hm.instances]
      simp [Elements.copyConstruct, hxa]
    · intro x hx
      have hxa : x ≠ a := by simpa using hx
      rw [hm.handle]
      simp [Elements.copyConstruct, hxa]
    · intro x hx
      have hxa : x ≠ a := by simpa using hx
      rw [hm.space]
      simp [Elements.copyConstruct, hxa]

theorem copyAndAppend_spec (kept : Nat → Bool) {src addresses : List Nat} {fuel : Nat}
    (hsrc : Path m.nextSendSample src none) (bound : src.length ≤ fuel)
    (h : Segment m.nextSendSample m.previousSendSample l ds before after) (nodup : ds.Nodup)
    (hfresh : addresses.Nodup) (hds : ∀ x ∈ addresses, x ∉ ds) (hnew : ∀ x ∈ addresses, x ∉ src)
    (hapart : ∀ x ∈ src, x ∉ ds) (henough : (src.filter kept).length ≤ addresses.length) :
    ∃ m' l', copyAndAppend kept fuel src.head? m l addresses =
        some (m', l', addresses.drop (src.filter kept).length) ∧
      Segment m'.nextSendSample m'.previousSendSample l'
        (ds ++ addresses.take (src.filter kept).length)
        (if ds = [] then (src.filter kept).head?.bind m.previousSendSample else before)
        (ends m.nextSendSample (src.filter kept).getLast? after) ∧
      Copied m m' ds (addresses.take (src.filter kept).length) := by
  induction src generalizing m l ds addresses fuel before after with
  | nil =>
    refine ⟨m, l, by cases fuel <;> simp [copyAndAppend], ?_, by simpa using Copied.refl⟩
    rcases eq_or_ne ds [] with rfl | hne
    · exact ⟨h.toAnchors, trivial, trivial⟩
    · simpa [hne, ends] using h
  | cons s src ih =>
    obtain ⟨fuel, rfl⟩ : ∃ n, fuel = n + 1 := ⟨fuel - 1, by simp at bound; omega⟩
    have hnext : m.nextSendSample s = src.head? := by simpa using hsrc.1
    by_cases hkept : kept s
    · rw [List.filter_cons_of_pos hkept] at henough ⊢
      obtain ⟨a, addresses, rfl⟩ : ∃ a rest, addresses = a :: rest := by
        cases addresses with
        | nil => simp at henough
        | cons a rest => exact ⟨a, rest, rfl⟩
      obtain ⟨hnot, hrest⟩ := List.nodup_cons.mp hfresh
      have ha : a ∉ ds := hds a (by simp)
      obtain ⟨m₁, l₁, henq, h₁, hm₁⟩ := copy_one (s := s) h nodup ha
      have hout : ∀ x ∈ s :: src, x ∉ ds ++ [a] := by
        intro x hx hin
        rcases List.mem_append.mp hin with hin | hin
        · exact hapart x hx hin
        · exact hnew a (by simp) (List.mem_singleton.mp hin ▸ hx)
      have hsrc₁ : Path m₁.nextSendSample src none :=
        hsrc.2.congr fun x hx => hm₁.next x (hout x (by simp [hx]))
      obtain ⟨m', l', heq, hl, hm⟩ := ih hsrc₁ (by simpa using bound) h₁
        (by simpa using List.Nodup.concat ha nodup) hrest
        (by
          intro x hx hin
          rcases List.mem_append.mp hin with hin | hin
          · exact hds x (by simp [hx]) hin
          · exact hnot (List.mem_singleton.mp hin ▸ hx))
        (fun x hx hin => hnew x (by simp [hx]) (by simp [hin]))
        (fun x hx => hout x (by simp [hx])) (by simpa using henough)
      refine ⟨m', l', ?_, ?_, ?_⟩
      · rw [← hnext, ← hm₁.next s (hout s (by simp))] at heq
        simpa [copyAndAppend, hkept, henq] using heq
      · have hlast : ends m₁.nextSendSample (src.filter kept).getLast? (m.nextSendSample s) =
            ends m.nextSendSample (s :: src.filter kept).getLast? after := by
          cases hfilter : (src.filter kept).getLast? with
          | none => simp [List.getLast?_cons, hfilter, ends]
          | some x =>
            have hx : x ∈ src := List.mem_of_mem_filter (List.mem_of_getLast? hfilter)
            simpa [List.getLast?_cons, hfilter, ends] using hm₁.next x (hout x (by simp [hx]))
        rw [hlast] at hl
        simpa using hl
      · simpa using hm₁.trans hm
    · rw [List.filter_cons_of_neg hkept] at henough ⊢
      obtain ⟨m', l', heq, hl, hm⟩ := ih hsrc.2 (by simpa using bound) h nodup hfresh hds
        (fun x hx hin => hnew x hx (by simp [hin])) (fun x hx => hapart x (by simp [hx])) henough
      refine ⟨m', l', ?_, hl, hm⟩
      simpa [copyAndAppend, hkept, hnext] using heq

/-- The container after the copies `cs` were made. -/
def withCopies (c : Container) (m : Elements) (l : Header Nat) (cs : List Nat) : Container :=
  { c.setList m .resend l with allocated := cs ++ c.allocated }

theorem copyList_spec (kept : Nat → Bool) (state : SendState) (addresses : List Nat)
    {src : List Nat}
    (hsrc : c.elements.Sends (c.lists state) src) (bound : src.length ≤ c.fuel)
    (h : Segment c.elements.nextSendSample c.elements.previousSendSample (c.lists .resend) ds
      before after) (nodup : ds.Nodup)
    (hfresh : addresses.Nodup) (hds : ∀ x ∈ addresses, x ∉ ds) (hnew : ∀ x ∈ addresses, x ∉ src)
    (hapart : ∀ x ∈ src, x ∉ ds) (henough : (src.filter kept).length ≤ addresses.length) :
    ∃ m l, c.copyList state kept addresses =
        some (c.withCopies m l (addresses.take (src.filter kept).length),
          addresses.drop (src.filter kept).length) ∧
      Segment m.nextSendSample m.previousSendSample l
        (ds ++ addresses.take (src.filter kept).length)
        (if ds = [] then (src.filter kept).head?.bind c.elements.previousSendSample else before)
        (ends c.elements.nextSendSample (src.filter kept).getLast? after) ∧
      Copied c.elements m ds (addresses.take (src.filter kept).length) := by
  obtain ⟨m, l, heq, hl, hm⟩ := copyAndAppend_spec kept hsrc.forward bound h nodup hfresh hds hnew
    hapart henough
  by_cases hsize : (c.lists state).size > 0
  · refine ⟨m, l, ?_, hl, hm⟩
    have htake : addresses.length - (addresses.drop (src.filter kept).length).length =
        (src.filter kept).length := by
      rw [List.length_drop]
      omega
    rw [← hsrc.head] at heq
    simp only [copyList, if_pos hsize, heq, Option.bind_eq_bind, Option.bind_some, htake]
    rfl
  · have hempty : src = [] := by
      rw [hsrc.size] at hsize
      exact List.length_eq_zero_iff.mp (by omega)
    subst hempty
    refine ⟨c.elements, c.lists .resend, ?_, ?_, by simpa using Copied.refl⟩
    · simp [copyList, hsize, withCopies, setList]
    · rcases eq_or_ne ds [] with rfl | hne
      · exact ⟨h.toAnchors, trivial, trivial⟩
      · simpa [hne, ends] using h

theorem withCopies_withCopies {l' : Header Nat} {cs' : List Nat} :
    (c.withCopies m l cs).withCopies m' l' cs' = c.withCopies m' l' (cs' ++ cs) := by
  simp [withCopies, setList]

theorem ends_copied {K₁ K₂ D cs₁ : List Nat} (hlen : K₁.length = cs₁.length)
    (hframe : ∀ x ∈ K₂, m'.nextSendSample x = m.nextSendSample x ∧
      m'.previousSendSample x = m.previousSendSample x)
    (hfirst : D = [] → (K₁ ++ K₂).head?.bind m.previousSendSample = none)
    (hlast : (K₁ ++ K₂).getLast?.bind m.nextSendSample = none) :
    (if D ++ cs₁ = [] then K₂.head?.bind m'.previousSendSample
        else if D = [] then K₁.head?.bind m.previousSendSample else none) = none ∧
      ends m'.nextSendSample K₂.getLast? (ends m.nextSendSample K₁.getLast? none) = none := by
  constructor
  · rcases eq_or_ne D [] with rfl | hD
    · cases K₁ with
      | nil =>
        have hcs : cs₁ = [] := List.length_eq_zero_iff.mp hlen.symm
        cases K₂ with
        | nil => simp [hcs]
        | cons x K₂ =>
          simp only [List.nil_append, List.head?_cons, Option.bind_some] at hfirst
          simp [hcs, (hframe x (by simp)).2, hfirst]
      | cons x K₁ =>
        have hcs : cs₁ ≠ [] := by
          rintro rfl
          simp at hlen
        simpa [hcs] using hfirst
    · simp [hD]
  · cases hK : K₂.getLast? with
    | none =>
      have hnil : K₂ = [] := List.getLast?_eq_none_iff.mp hK
      cases hK' : K₁.getLast? with
      | none => rfl
      | some x => simpa [hnil, hK', ends] using hlast
    | some x =>
      have hx := (hframe x (List.mem_of_getLast? hK)).1
      simpa [ends, hx, List.getLast?_append, hK] using hlast

/-- The copies make a list of their own when the first and the last of the copied samples
are at the ends of their lists. -/
theorem reenqueueAll_links (kept : Nat → Bool) {addresses : List Nat} (h : c.Holds p)
    (hfresh : addresses.Nodup) (hnew : ∀ x ∈ addresses, x ∉ c.allocated)
    (henough : (p.copied kept).length ≤ addresses.length)
    (hfirst : p.lists .resend = [] →
      (p.copied kept).head?.bind c.elements.previousSendSample = none)
    (hlast : (p.copied kept).getLast?.bind c.elements.nextSendSample = none) :
    ∃ m l cs, c.reenqueueAll kept addresses = some (c.withCopies m l cs) ∧
      cs.Nodup ∧ (∀ x ∈ cs, x ∈ addresses) ∧ ∃ cs', cs'.Perm cs ∧
        m.Sends l (p.lists .resend ++ cs') ∧ Copied c.elements m (p.lists .resend) cs' := by
  have hK : (p.copied kept).length =
      ((p.lists .sending).filter kept).length + ((p.lists .sent).filter kept).length := by
    simp [Placement.copied]
  have hfree : ∀ state, ∀ x ∈ addresses, x ∉ p.lists state :=
    fun state x hx hin => hnew x hx (h.known state x hin)
  have hapart : ∀ state, state ≠ .resend → ∀ x ∈ p.lists state, x ∉ p.lists .resend :=
    fun state hne x hx hin => hne (h.lists.unique hx hin)
  obtain ⟨m₁, l₁, heq₁, hl₁, hm₁⟩ := copyList_spec kept .sending addresses (h.sends .sending) (h.length_le _)
    (h.sends .resend) (h.lists.nodup _) hfresh (hfree _) (hfree _)
    (hapart .sending (by decide)) (by omega)
  generalize hcs₁ : addresses.take ((p.lists .sending).filter kept).length = cs₁ at *
  generalize hrest : addresses.drop ((p.lists .sending).filter kept).length = rest at *
  have hlen₁ : ((p.lists .sending).filter kept).length = cs₁.length := by
    rw [← hcs₁, List.length_take]
    omega
  have hsplit : addresses = cs₁ ++ rest := by rw [← hcs₁, ← hrest, List.take_append_drop]
  obtain ⟨hcs₁nd, hrestnd, hdisj⟩ := List.nodup_append.mp (hsplit ▸ hfresh)
  have hin₁ : ∀ x ∈ cs₁, x ∈ addresses := fun x hx => by simp [hsplit, hx]
  have hinr : ∀ x ∈ rest, x ∈ addresses := fun x hx => by simp [hsplit, hx]
  have hout : ∀ state, state ≠ .resend → ∀ x ∈ p.lists state, x ∉ p.lists .resend ++ cs₁ := by
    intro state hne x hx hin
    rcases List.mem_append.mp hin with hin | hin
    · exact hapart state hne x hx hin
    · exact hfree state x (hin₁ x hin) hx
  have hsent : m₁.Sends (c.lists .sent) (p.lists .sent) := by
    constructor
    · exact (h.sends .sent).toAnchors
    · exact (h.sends .sent).forward.congr fun x hx => hm₁.next x (hout .sent (by decide) x hx)
    · exact (h.sends .sent).backward.congr
        fun x hx => hm₁.previous x (hout .sent (by decide) x (List.mem_reverse.mp hx))
  have hnodup : (p.lists .resend ++ cs₁).Nodup := by
    rw [List.nodup_append]
    refine ⟨h.lists.nodup _, hcs₁nd, ?_⟩
    rintro x hx y hy rfl
    exact hfree _ x (hin₁ x hy) hx
  obtain ⟨m₂, l₂, heq₂, hl₂, hm₂⟩ := copyList_spec (c := c.withCopies m₁ l₁ cs₁) kept
    .sent rest hsent
    (Nat.le_trans (h.length_le .sent) (by simp [fuel, withCopies])) hl₁ hnodup hrestnd
    (by
      intro x hx hin
      rcases List.mem_append.mp hin with hin | hin
      · exact hfree _ x (hinr x hx) hin
      · exact hdisj x hin x hx rfl)
    (fun x hx => hfree _ x (hinr x hx)) (hout .sent (by decide))
    (by rw [hsplit, List.length_append] at henough; omega)
  generalize hcs₂ : rest.take ((p.lists .sent).filter kept).length = cs₂ at *
  have hin₂ : ∀ x ∈ cs₂, x ∈ rest := by
    intro x hx
    rw [← hcs₂] at hx
    exact List.mem_of_mem_take hx
  have hsame : ∀ x ∈ (p.lists .sent).filter kept,
      m₁.nextSendSample x = c.elements.nextSendSample x ∧
        m₁.previousSendSample x = c.elements.previousSendSample x := by
    intro x hx
    have hx' := hout .sent (by decide) x (List.mem_of_mem_filter hx)
    exact ⟨hm₁.next x hx', hm₁.previous x hx'⟩
  obtain ⟨hbefore, hafter⟩ := ends_copied hlen₁ hsame hfirst hlast
  refine ⟨m₂, l₂, cs₂ ++ cs₁, ?_, ?_, ?_, cs₁ ++ cs₂, List.perm_append_comm, ?_, hm₁.trans hm₂⟩
  · simp only [reenqueueAll, heq₁, heq₂, Option.bind_eq_bind, Option.bind_some,
      withCopies_withCopies]
  · rw [List.nodup_append]
    refine ⟨?_, hcs₁nd, ?_⟩
    · rw [← hcs₂]
      exact hrestnd.sublist (List.take_sublist _ _)
    · rintro x hx y hy rfl
      exact hdisj x hy x (hin₂ x hx) rfl
  · intro x hx
    rcases List.mem_append.mp hx with hx | hx
    · exact hinr x (hin₂ x hx)
    · exact hin₁ x hx
  · rw [← List.append_assoc]
    have hends : Segment m₂.nextSendSample m₂.previousSendSample l₂
        (p.lists .resend ++ cs₁ ++ cs₂) _ _ := hl₂
    rw [show (c.withCopies m₁ l₁ cs₁).elements = m₁ from rfl, hbefore, hafter] at hends
    exact hends

theorem Settled.withCopies {cs' : List Nat} (h : c.Settled limits p) (nodup : cs.Nodup)
    (hnew : ∀ x ∈ cs, x ∉ c.allocated) (perm : cs'.Perm cs)
    (hl : m.Sends l (p.lists .resend ++ cs')) (hm : Copied c.elements m (p.lists .resend) cs') :
    (c.withCopies m l cs).Settled limits (p.addCopies cs') ∧
      Spares [] c (c.withCopies m l cs) p (p.addCopies cs') := by
  have hnot : ∀ x ∈ c.allocated, x ∉ cs' := fun x hx hin => hnew x (perm.mem_iff.mp hin) hx
  have hmem : ∀ {state x}, x ∈ (p.addCopies cs').lists state →
      x ∈ p.lists state ∨ (state = .resend ∧ x ∈ cs') := by
    intro state x hx
    rcases eq_or_ne state .resend with rfl | hne
    · rcases List.mem_append.mp (show x ∈ p.lists .resend ++ cs' by
        simpa [Placement.addCopies] using hx) with hx | hx
      · exact .inl hx
      · exact .inr ⟨rfl, hx⟩
    · exact .inl (by simpa [Placement.addCopies, hne] using hx)
  have hloose : ∀ x ∈ c.allocated, p.Loose x → (p.addCopies cs').Loose x := by
    intro x hx hx' state hin
    rcases hmem hin with hin | ⟨-, hin⟩
    · exact hx' state hin
    · exact hnot x hx hin
  have hsub : ∀ {state x}, x ∈ p.lists state → x ∈ (p.addCopies cs').lists state := by
    intro state x hx
    rcases eq_or_ne state .resend with rfl | hne
    · simp [Placement.addCopies, hx]
    · simpa [Placement.addCopies, hne] using hx
  have hactive : ∀ x, (p.addCopies cs').Active x ↔ p.Active x := by
    simp [Placement.Active, Placement.addCopies]
  have hknown : ∀ x, p.Active x → x ∈ c.allocated := by
    rintro x (hx | hx | hx)
    · exact h.known _ x hx
    · exact h.known _ x hx
    · exact h.known _ x hx
  constructor
  · constructor
    · constructor
      · intro state
        rcases eq_or_ne state .resend with rfl | hne
        · simpa [Container.withCopies, Placement.addCopies] using hl
        · have hout : ∀ x ∈ p.lists state, x ∉ p.lists .resend ++ cs' := by
            intro x hx hin
            rcases List.mem_append.mp hin with hin | hin
            · exact hne (h.lists.unique hx hin)
            · exact hnot x (h.known state x hx) hin
          have hlists : (p.addCopies cs').lists state = p.lists state := by
            simp [Placement.addCopies, hne]
          have hheader : (c.withCopies m l cs).lists state = c.lists state := by
            simp [Container.withCopies, hne]
          rw [hlists, hheader]
          constructor
          · exact (h.sends state).toAnchors
          · exact (h.sends state).forward.congr fun x hx => hm.next x (hout x hx)
          · exact (h.sends state).backward.congr
              fun x hx => hm.previous x (hout x (List.mem_reverse.mp hx))
      · constructor
        · intro state
          rcases eq_or_ne state .resend with rfl | hne
          · simp only [Placement.addCopies, Function.update_self]
            rw [List.nodup_append]
            refine ⟨h.lists.nodup _, perm.nodup_iff.mpr nodup, ?_⟩
            rintro x hx y hy rfl
            exact hnot x (h.known _ x hx) hy
          · simpa [Placement.addCopies, hne] using h.lists.nodup state
        · intro s t x hs ht
          rcases hmem hs with hs' | ⟨hs', hx⟩ <;> rcases hmem ht with ht' | ⟨ht', hx'⟩
          · exact h.lists.unique hs' ht'
          · exact absurd hx' (hnot x (h.known _ x hs'))
          · exact absurd hx (hnot x (h.known _ x ht'))
          · exact hs'.trans ht'.symm
      · intro state x hx
        rcases hmem hx with hx | ⟨-, hx⟩
        · exact List.mem_append_right _ (h.known state x hx)
        · exact List.mem_append_left _ (perm.mem_iff.mp hx)
      · intro x hx hx'
        have hcs : x ∉ cs' := fun hin => hx' .resend (by simp [Placement.addCopies, hin])
        have hin : x ∈ c.allocated := by
          rcases List.mem_append.mp hx with hx | hx
          · exact absurd (perm.mem_iff.mpr hx) hcs
          · exact hx
        have hold : p.Loose x := fun state hin' => hx' state (hsub hin')
        have hout : x ∉ p.lists .resend ++ cs' := by
          simpa using ⟨hold .resend, hcs⟩
        rw [show (c.withCopies m l cs).elements = m from rfl, hm.next x hout, hm.previous x hout]
        exact h.loose x hin hold
      · exact h.handles
      · intro i hi q
        constructor
        · exact (h.keeps i hi q).toAnchors
        · exact (h.keeps i hi q).forward.congr fun x hx => hm.instances x (hnot x (h.queued _ x hx))
      · exact h.queues
      · exact fun key x hx => List.mem_append_right _ (h.queued key x hx)
      · rw [show (c.withCopies m l cs).allocated = cs ++ c.allocated from rfl, List.nodup_append]
        refine ⟨nodup, h.allocated, ?_⟩
        rintro x hx y hy rfl
        exact hnew x hx hy
    · intro n x
      constructor
      · intro hx
        rw [show (c.withCopies m l cs).elements = m from rfl,
          hm.handle x (hnot x (h.queued _ x hx))]
        exact (h.owned n x).mp hx
      · rintro ⟨howner, hx⟩
        rw [show (c.withCopies m l cs).elements = m from rfl,
          hm.handle x (hnot x (hknown x hx))] at howner
        exact (h.owned n x).mpr ⟨howner, hx⟩
    · intro x hx
      have hx' := (hactive x).mp hx
      rw [show (c.withCopies m l cs).elements = m from rfl, hm.handle x (hnot x (hknown x hx'))]
      exact h.registered x hx'
    · intro n x hx
      exact ⟨(h.waits n x hx).1, hloose x (h.queued _ x hx) (h.waits n x hx).2⟩
    · exact h.depth
    · exact h.accounted
  · constructor
    · intro x n _ hx
      have hcs := hnot x hx.known
      constructor
      · exact List.mem_append_right _ hx.known
      · exact hloose x hx.known hx.loose
      · exact (hm.handle x hcs).trans hx.owner
      · exact hx.registered
      · exact (hm.space x hcs).trans hx.space
    · exact fun n => rfl

theorem reenqueueAll_settled (kept : Nat → Bool) {addresses : List Nat} (h : c.Settled limits p)
    (hfresh : addresses.Nodup) (hnew : ∀ x ∈ addresses, x ∉ c.allocated)
    (henough : (p.copied kept).length ≤ addresses.length)
    (hfirst : p.lists .resend = [] →
      (p.copied kept).head?.bind c.elements.previousSendSample = none)
    (hlast : (p.copied kept).getLast?.bind c.elements.nextSendSample = none) :
    ∃ c' cs, c.reenqueueAll kept addresses = some c' ∧ c'.Settled limits (p.addCopies cs) ∧
      Spares [] c c' p (p.addCopies cs) := by
  obtain ⟨m, l, cs, heq, hnodup, hsub, cs', hperm, hl, hm⟩ :=
    reenqueueAll_links kept h.toHolds hfresh hnew henough hfirst hlast
  obtain ⟨h', hspares⟩ :=
    h.withCopies hnodup (fun x hx => hnew x (hsub x hx)) hperm hl hm
  exact ⟨_, cs', heq, h', hspares⟩

end Container

end OpenDDS.Source
