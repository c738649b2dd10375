import Mathlib.Data.List.Nodup
import OpenDDS.Library.Run
import OpenDDS.Source.TransportQueueElement

/-!
# What the writer is told about a sample

The listener of a sample is notified once, when the last link has decided. It is told of a
drop exactly when a link dropped the element of the sample itself: the element that wraps it
for a link passes a decision on, but not the mark that says it was a drop.
-/
namespace OpenDDS.Guarantees.DropReporting

open Library Source.TransportQueueElement

/-- Whether the fate of an element is that of the sample on its link. -/
def leadsToSend : Element → Bool
  | .send => true
  | .customized _ orig => leadsToSend orig
  | .fragment _ => false

/-- The elements that are released with one, the one of the sample apart. -/
def wrappers : Element → List Element
  | .send => []
  | .customized id orig => .customized id orig :: wrappers orig
  | .fragment id => [.fragment id]

def number : Element → Nat
  | .send => 0
  | .customized id _ => id
  | .fragment id => id

def Notification.isDropped : Notification → Bool
  | .dataDelivered => false
  | .dataDropped _ => true

section

def decisions (events : List Event) : Nat :=
  events.countP fun
    | .dataDelivered e => leadsToSend e
    | .dataDropped e _ => leadsToSend e
    | _ => false

/-- Whether some link dropped the sample, or the last fragment of it. -/
def dropped (events : List Event) : Bool :=
  events.any fun
    | .dataDropped e _ => leadsToSend e
    | _ => false

def droppedItself (events : List Event) : Bool :=
  events.any fun
    | .dataDropped .send _ => true
    | _ => false

def Possible (s : Sending) : Event → Prop
  | .send => s.unsent ≠ 0
  | .fragment e | .dataDelivered e | .dataDropped e _ => e ∈ s.held

def Performs (customHeader : Bool) (s : Sending) (event : Event) (s' : Sending) : Prop :=
  s.step customHeader event = some s'

end

theorem wrappers_ne_send {e w : Element} (h : w ∈ wrappers e) : w ≠ .send := by
  rintro rfl
  induction e with
  | send => cases h
  | customized id orig ih =>
    rcases List.mem_cons.mp h with heq | h
    · cases heq
    · exact ih h
  | fragment id => simp [wrappers] at h

section

variable {b : Bool} {e : Element} {s : Elements}

def Settles (b : Bool) (s s' : Elements) : Prop :=
  ∀ c d, s.fields .send = some ⟨c + 1, d⟩ →
    if c = 0 then
      s'.notified = s.notified ++ [if d then .dataDropped b else .dataDelivered]
    else s'.fields .send = some ⟨c, d⟩ ∧ s'.notified = s.notified

structure Decides (b : Bool) (e : Element) (s s' : Elements) : Prop where
  frame : ∀ w, w ∉ wrappers e → w ≠ .send → s'.fields w = s.fields w
  allocated : s'.allocated = s.allocated
  sample : leadsToSend e = true → Settles b s s'
  other : leadsToSend e = false → s'.fields .send = s.fields .send ∧ s'.notified = s.notified

theorem takeLoan_one {d : Bool} (h : s.fields e = some ⟨1, d⟩) :
    s.takeLoan e = some (true, s.set e (some ⟨0, d⟩)) := by
  simp [Elements.takeLoan, h]

theorem decisionMade_send {c : Nat} {d : Bool} (h : s.fields .send = some ⟨c + 1, d⟩) :
    ∃ released s', decisionMade b .send s = some (released, s') ∧ Decides b .send s s' := by
  by_cases hc : c = 0
  · subst hc
    refine ⟨true, { (s.set .send (some ⟨0, d⟩)).free .send with notified := s.notified ++
      [if d then .dataDropped b else .dataDelivered] }, ?_, ?_⟩
    · rw [decisionMade, takeLoan_one h]
      simp [Elements.releaseSend]
    · constructor
      · intro w _ hsend
        show ((s.set .send (some ⟨0, d⟩)).set .send none).fields w = _
        rw [Elements.set_fields_of_ne _ _ hsend, Elements.set_fields_of_ne _ _ hsend]
      · rfl
      · intro _ c' d' h'
        rw [h] at h'
        cases h'
        rfl
      · intro hleads
        cases hleads
  · refine ⟨false, s.set .send (some ⟨c, d⟩), ?_, ?_⟩
    · simp [decisionMade, Elements.takeLoan, h, hc]
    · constructor
      · intro w _ hsend
        exact Elements.set_fields_of_ne _ _ hsend
      · rfl
      · intro _ c' d' h'
        rw [h] at h'
        cases h'
        rw [if_neg hc]
        exact ⟨Elements.set_fields .., rfl⟩
      · intro hleads
        cases hleads

theorem decisionMade_spec (hloans : ∀ w ∈ wrappers e, ∃ d, s.fields w = some ⟨1, d⟩)
    (hapart : (wrappers e).Nodup)
    (hsend : leadsToSend e = true → ∃ c d, s.fields .send = some ⟨c + 1, d⟩) :
    ∃ released s', decisionMade b e s = some (released, s') ∧ Decides b e s s' := by
  induction e generalizing s with
  | send =>
    obtain ⟨c, d, h⟩ := hsend rfl
    exact decisionMade_send h
  | fragment id =>
    obtain ⟨d, h⟩ := hloans (.fragment id) (List.mem_singleton.mpr rfl)
    refine ⟨true, _, by rw [decisionMade, takeLoan_one h], ?_⟩
    constructor
    · intro w hw _
      have hne : w ≠ .fragment id := fun heq => hw (List.mem_singleton.mpr heq)
      rw [Elements.free, Elements.set_fields_of_ne _ _ hne, Elements.set_fields_of_ne _ _ hne]
    · rfl
    · intro hleads
      cases hleads
    · intro _
      exact ⟨rfl, rfl⟩
  | customized id orig ih =>
    obtain ⟨d, h⟩ := hloans (.customized id orig) List.mem_cons_self
    obtain ⟨hfirst, hrest⟩ := List.nodup_cons.mp hapart
    have hsend' : (s.set (.customized id orig) (some ⟨0, d⟩)).fields .send = s.fields .send :=
      Elements.set_fields_of_ne _ _ (by simp)
    obtain ⟨released, s', hdecision, hdecides⟩ := ih
      (s := s.set (.customized id orig) (some ⟨0, d⟩))
      (by
        intro w hw
        have hne : w ≠ .customized id orig := fun heq => hfirst (heq ▸ hw)
        rw [Elements.set_fields_of_ne _ _ hne]
        exact hloans w (List.mem_cons_of_mem _ hw))
      hrest
      (by
        intro hleads
        exact hsend hleads)
    have hfree : (s'.free (.customized id orig)).fields .send = s'.fields .send :=
      Elements.set_fields_of_ne _ _ (by simp)
    refine ⟨true, s'.free (.customized id orig), ?_, ?_⟩
    · rw [decisionMade, takeLoan_one h]
      simp only [hdecision]
    · constructor
      · intro w hw hne
        have hthis : w ≠ .customized id orig := by
          rintro rfl
          exact hw List.mem_cons_self
        have hframe := hdecides.frame w (fun hmem => hw (List.mem_cons_of_mem _ hmem)) hne
        rw [Elements.set_fields_of_ne _ _ hthis] at hframe
        rw [Elements.free, Elements.set_fields_of_ne _ _ hthis, hframe]
      · exact hdecides.allocated
      · intro hleads c' d' h'
        have hsettles := hdecides.sample hleads c' d' (by rwa [hsend'])
        exact hsettles
      · intro hleads
        obtain ⟨hfields, hnotified⟩ := hdecides.other hleads
        exact ⟨hfree.trans hfields, hnotified⟩

end

/-- The elements while `undecided` links have not decided; `mark` says whether the element
of the sample was dropped. -/
structure Sound (s : Elements) (held : List Element) (undecided : Nat) (mark : Bool) : Prop where
  loans : ∀ e ∈ held, ∀ w ∈ wrappers e, ∃ d, s.fields w = some ⟨1, d⟩
  numbered : ∀ e ∈ held, ∀ w ∈ wrappers e, number w < s.allocated
  apart : (held.flatMap wrappers).Nodup
  before : undecided ≠ 0 → s.fields .send = some ⟨undecided, mark⟩ ∧ s.notified = []
  after : undecided = 0 → ∃ n, s.notified = [n] ∧ Notification.isDropped n = mark

section

variable {b : Bool} {e : Element} {s : Elements} {held : List Element} {undecided : Nat}
  {mark : Bool}

theorem Sound.perm {held' : List Element} (h : Sound s held undecided mark)
    (hperm : held.Perm held') : Sound s held' undecided mark where
  loans := fun e he => h.loans e (hperm.mem_iff.mpr he)
  numbered := fun e he => h.numbered e (hperm.mem_iff.mpr he)
  apart := (hperm.flatMap_right wrappers).nodup_iff.mp h.apart
  before := h.before
  after := h.after

theorem Sound.alloc (orig : Option Element) (h : Sound s (orig.toList ++ held) undecided mark) :
    Sound (s.alloc orig).2 ((s.alloc orig).1 :: held) undecided mark := by
  obtain ⟨e', he'⟩ : ∃ e', (s.alloc orig).1 = e' := ⟨_, rfl⟩
  have hs' : (s.alloc orig).2 =
      { s.set e' (some ⟨1, false⟩) with allocated := s.allocated + 1 } := by
    rw [← he']
    rfl
  have hnumber : number e' = s.allocated := by
    rw [← he']
    cases orig <;> rfl
  have hwrappers : wrappers e' = e' :: orig.toList.flatMap wrappers := by
    rw [← he']
    cases orig <;> simp [Elements.alloc, wrappers]
  have hsend : .send ≠ e' := by
    rw [← he']
    cases orig <;> simp [Elements.alloc]
  have hnew : ∀ e ∈ orig.toList ++ held, ∀ w ∈ wrappers e, w ≠ e' := by
    rintro e he w hw rfl
    have hlt := h.numbered e he w hw
    omega
  have hold : ∀ e ∈ orig.toList ++ held, ∀ w ∈ wrappers e,
      (s.set e' (some ⟨1, false⟩)).fields w = s.fields w :=
    fun e he w hw => Elements.set_fields_of_ne _ _ (hnew e he w hw)
  -- The elements released with one of those held: the new one, and those from before.
  have hheld : ∀ e ∈ e' :: held, ∀ w ∈ wrappers e,
      w = e' ∨ ∃ e ∈ orig.toList ++ held, w ∈ wrappers e := by
    intro e he w hw
    rcases List.mem_cons.mp he with rfl | he
    · rw [hwrappers, List.mem_cons, List.mem_flatMap] at hw
      rcases hw with rfl | ⟨e, he, hw⟩
      · exact .inl rfl
      · exact .inr ⟨e, List.mem_append_left _ he, hw⟩
    · exact .inr ⟨e, List.mem_append_right _ he, hw⟩
  rw [he', hs']
  constructor
  · intro e he w hw
    rcases hheld e he w hw with rfl | ⟨e, he, hw⟩
    · exact ⟨false, Elements.set_fields ..⟩
    · obtain ⟨d, hd⟩ := h.loans e he w hw
      exact ⟨d, (hold e he w hw).trans hd⟩
  · intro e he w hw
    show number w < s.allocated + 1
    rcases hheld e he w hw with rfl | ⟨e, he, hw⟩
    · omega
    · have hlt := h.numbered e he w hw
      omega
  · have happart := h.apart
    rw [List.flatMap_append] at happart
    rw [List.flatMap_cons, hwrappers, List.cons_append]
    apply List.nodup_cons.mpr
    refine ⟨?_, happart⟩
    rw [← List.flatMap_append]
    intro hmem
    obtain ⟨e, he, hw⟩ := List.mem_flatMap.mp hmem
    exact hnew e he e' hw rfl
  · intro hsome
    obtain ⟨hfields, hnotified⟩ := h.before hsome
    exact ⟨(Elements.set_fields_of_ne _ _ hsend).trans hfields, hnotified⟩
  · exact h.after

theorem Sound.decisionMade
    (h : Sound s (e :: held) (undecided + if leadsToSend e then 1 else 0) mark) :
    ∃ released s', decisionMade b e s = some (released, s') ∧ Sound s' held undecided mark := by
  have happart := h.apart
  obtain ⟨hthis, hothers, hdisjoint⟩ := List.nodup_append'.mp happart
  obtain ⟨released, s', hdecision, hdecides⟩ := decisionMade_spec (b := b)
    (h.loans e List.mem_cons_self) hthis (by
      intro hleads
      rw [hleads, if_pos rfl] at h
      exact ⟨undecided, mark, (h.before (Nat.succ_ne_zero _)).1⟩)
  refine ⟨released, s', hdecision, ?_⟩
  constructor
  · intro e' he' w hw
    have hout : w ∉ wrappers e := fun hmem =>
      hdisjoint hmem (List.mem_flatMap.mpr ⟨e', he', hw⟩)
    rw [hdecides.frame w hout (wrappers_ne_send hw)]
    exact h.loans e' (List.mem_cons_of_mem _ he') w hw
  · intro e' he' w hw
    rw [hdecides.allocated]
    exact h.numbered e' (List.mem_cons_of_mem _ he') w hw
  · exact hothers
  · intro hsome
    by_cases hleads : leadsToSend e = true
    · rw [hleads, if_pos rfl] at h
      obtain ⟨hfields, hnotified⟩ := h.before (Nat.succ_ne_zero _)
      have hsettles := hdecides.sample hleads undecided mark hfields
      rw [if_neg hsome] at hsettles
      exact ⟨hsettles.1, hsettles.2.trans hnotified⟩
    · obtain ⟨hfields, hnotified⟩ := hdecides.other (by simpa using hleads)
      rw [if_neg hleads] at h
      rw [hfields, hnotified]
      exact h.before hsome
  · intro hnone
    by_cases hleads : leadsToSend e = true
    · rw [hleads, if_pos rfl] at h
      obtain ⟨hfields, hnotified⟩ := h.before (Nat.succ_ne_zero _)
      have hsettles := hdecides.sample hleads undecided mark hfields
      rw [if_pos hnone, hnotified, List.nil_append] at hsettles
      refine ⟨_, hsettles, ?_⟩
      cases mark <;> rfl
    · obtain ⟨hfields, hnotified⟩ := hdecides.other (by simpa using hleads)
      rw [if_neg hleads] at h
      rw [hnotified]
      exact h.after hnone

theorem Sound.marked {f : Fields} (h : Sound s (e :: held) undecided mark)
    (hsome : e = .send → undecided ≠ 0) (hf : s.fields e = some f) :
    Sound (s.set e (some { f with dropped := true })) (e :: held) undecided
      (decide (e = .send) || mark) := by
  constructor
  · intro e' he' w hw
    obtain ⟨d, hd⟩ := h.loans e' he' w hw
    by_cases heq : w = e
    · subst heq
      rw [hf] at hd
      cases hd
      exact ⟨true, Elements.set_fields ..⟩
    · exact ⟨d, (Elements.set_fields_of_ne _ _ heq).trans hd⟩
  · exact h.numbered
  · exact h.apart
  · intro hne
    obtain ⟨hfields, hnotified⟩ := h.before hne
    refine ⟨?_, hnotified⟩
    by_cases heq : e = .send
    · subst heq
      rw [hf] at hfields
      cases hfields
      rw [Elements.set_fields, decide_eq_true rfl, Bool.true_or]
    · rw [Elements.set_fields_of_ne _ _ (Ne.symm heq), decide_eq_false heq, Bool.false_or, hfields]
  · intro hnone
    have hne : e ≠ .send := fun heq => hsome heq hnone
    rw [decide_eq_false hne, Bool.false_or]
    exact h.after hnone

section

variable (h : Sound s (e :: held) (undecided + if leadsToSend e then 1 else 0) mark)
include h

theorem Sound.held_fields : ∃ f, s.fields e = some f := by
  cases e with
  | send => exact ⟨_, (h.before (Nat.succ_ne_zero _)).1⟩
  | customized id orig =>
    obtain ⟨d, hd⟩ := h.loans _ List.mem_cons_self (.customized id orig) List.mem_cons_self
    exact ⟨_, hd⟩
  | fragment id =>
    obtain ⟨d, hd⟩ := h.loans _ List.mem_cons_self (.fragment id) List.mem_cons_self
    exact ⟨_, hd⟩

theorem Sound.dataDelivered :
    ∃ released s', dataDelivered e s = some (released, s') ∧ Sound s' held undecided mark := by
  obtain ⟨f, hf⟩ := h.held_fields
  obtain ⟨released, s', hdecision, hsound⟩ := h.decisionMade (b := f.dropped)
  refine ⟨released, s', ?_, hsound⟩
  rw [Source.TransportQueueElement.dataDelivered, hf]
  exact hdecision

theorem Sound.dataDropped : ∃ released s', dataDropped b e s = some (released, s') ∧
      Sound s' held undecided (decide (e = .send) || mark) := by
  obtain ⟨f, hf⟩ := h.held_fields
  have hmark := h.marked (by rintro rfl; exact Nat.succ_ne_zero _) hf
  obtain ⟨released, s', hdecision, hsound⟩ := hmark.decisionMade (b := b)
  refine ⟨released, s', ?_, hsound⟩
  rw [Source.TransportQueueElement.dataDropped, hf]
  exact hdecision

end

end

/-- What holds after the events of a run over `n` links. -/
structure Inv (n : Nat) (events : List Event) (s : Sending) : Prop where
  count : decisions events + (s.unsent + s.held.countP leadsToSend) = n
  sound : Sound s.elements s.held (s.unsent + s.held.countP leadsToSend) (droppedItself events)

variable {n : Nat}

theorem start_inv (hn : 0 < n) : Inv n [] (.start n) where
  count := by simp [decisions, Sending.start]
  sound := by
    constructor
    · intro e he
      cases he
    · intro e he
      cases he
    · exact List.nodup_nil
    · simp [Sending.start, Elements.ofSend, droppedItself]
    · intro hzero
      simp only [Sending.start, List.countP_nil, Nat.add_zero] at hzero
      omega

variable {events : List Event}

theorem Inv.select {s : Sending} {e : Element} (h : Inv n events s) (he : e ∈ s.held) :
    ∃ undecided, undecided = s.unsent + (s.held.erase e).countP leadsToSend ∧
      decisions events + (undecided + if leadsToSend e then 1 else 0) = n ∧
      Sound s.elements (e :: s.held.erase e) (undecided + if leadsToSend e then 1 else 0)
        (droppedItself events) := by
  have hperm := List.perm_cons_erase he
  have hcount : s.unsent + s.held.countP leadsToSend =
      s.unsent + (s.held.erase e).countP leadsToSend + if leadsToSend e then 1 else 0 := by
    rw [hperm.countP_eq, List.countP_cons, Nat.add_assoc]
  refine ⟨_, rfl, ?_, ?_⟩
  · rw [← hcount]
    exact h.count
  · rw [← hcount]
    exact h.sound.perm hperm

/-- Every event that can be next is carried out and keeps the invariant. -/
theorem Inv.step {s : Sending} {event : Event} (h : Inv n events s) (customHeader : Bool)
    (hpossible : Possible s event) :
    ∃ s', s.step customHeader event = some s' ∧ Inv n (events ++ [event]) s' := by
  cases event with
  | send =>
    have hunsent : s.unsent ≠ 0 := hpossible
    have hcount := h.count
    have hmark : droppedItself (events ++ [.send]) = droppedItself events := by
      simp [droppedItself]
    have hdecisions : decisions (events ++ [.send]) = decisions events := by simp [decisions]
    -- The sample's element is not released with others, so a link may hold it any time.
    have hsound : Sound s.elements (.send :: s.held) (s.unsent + s.held.countP leadsToSend)
        (droppedItself events) := by
      constructor
      · intro e he w hw
        rcases List.mem_cons.mp he with rfl | he
        · cases hw
        · exact h.sound.loans e he w hw
      · intro e he w hw
        rcases List.mem_cons.mp he with rfl | he
        · cases hw
        · exact h.sound.numbered e he w hw
      · exact h.sound.apart
      · exact h.sound.before
      · exact h.sound.after
    cases customHeader with
    | false =>
      refine ⟨⟨s.elements, s.unsent - 1, .send :: s.held⟩,
        by rw [Sending.step, if_neg hunsent]; rfl, ?_⟩
      have hsame : s.unsent - 1 + (Element.send :: s.held).countP leadsToSend =
          s.unsent + s.held.countP leadsToSend := by
        have hleads : leadsToSend .send = true := rfl
        rw [List.countP_cons, hleads, if_pos rfl]
        omega
      constructor
      · rw [hdecisions, hsame]
        exact hcount
      · rw [hmark, hsame]
        exact hsound
    | true =>
      refine ⟨⟨(s.elements.alloc (some .send)).2, s.unsent - 1,
        (s.elements.alloc (some .send)).1 :: s.held⟩, by rw [Sending.step, if_neg hunsent]; rfl, ?_⟩
      have hsame : s.unsent - 1 +
          ((s.elements.alloc (some .send)).1 :: s.held).countP leadsToSend =
            s.unsent + s.held.countP leadsToSend := by
        have hleads : leadsToSend (s.elements.alloc (some .send)).1 = true := rfl
        rw [List.countP_cons, hleads, if_pos rfl]
        omega
      constructor
      · rw [hdecisions, hsame]
        exact hcount
      · rw [hmark, hsame]
        exact Sound.alloc (some .send) hsound
  | fragment e =>
    have he : e ∈ s.held := hpossible
    obtain ⟨undecided, hundecided, hcount, hsound⟩ := h.select he
    have hmark : droppedItself (events ++ [.fragment e]) = droppedItself events := by
      simp [droppedItself]
    have hdecisions : decisions (events ++ [.fragment e]) = decisions events := by
      simp [decisions]
    have hfrag := Sound.alloc none hsound
    have hrest := Sound.alloc (some e) (hfrag.perm (List.Perm.swap ..))
    refine ⟨⟨((s.elements.alloc none).2.alloc (some e)).2, s.unsent,
      (s.elements.alloc none).1 :: ((s.elements.alloc none).2.alloc (some e)).1 :: s.held.erase e⟩,
      by rw [Sending.step, if_pos he]; rfl, ?_⟩
    have hsame : s.unsent + ((s.elements.alloc none).1 ::
        ((s.elements.alloc none).2.alloc (some e)).1 :: s.held.erase e).countP leadsToSend =
          undecided + if leadsToSend e then 1 else 0 := by
      have hfirst : leadsToSend (s.elements.alloc none).1 = false := rfl
      have hsecond : leadsToSend ((s.elements.alloc none).2.alloc (some e)).1 = leadsToSend e := rfl
      rw [List.countP_cons, List.countP_cons, hfirst, hsecond, if_neg Bool.false_ne_true, hundecided,
        Nat.add_zero, Nat.add_assoc]
    constructor
    · rw [hdecisions, hsame]
      exact hcount
    · rw [hmark, hsame]
      exact hrest.perm (List.Perm.swap ..)
  | dataDelivered e =>
    have he : e ∈ s.held := hpossible
    obtain ⟨undecided, hundecided, hcount, hsound⟩ := h.select he
    obtain ⟨released, elements, hdelivered, hsound'⟩ := hsound.dataDelivered
    refine ⟨{ s with elements, held := s.held.erase e }, ?_, ?_⟩
    · rw [Sending.step, if_pos he, hdelivered]
      rfl
    constructor
    · have hdecisions : decisions (events ++ [.dataDelivered e]) =
          decisions events + if leadsToSend e then 1 else 0 := by
        rw [decisions, List.countP_append, List.countP_singleton]
        rfl
      show decisions _ + (s.unsent + _) = n
      rw [← hundecided, hdecisions]
      omega
    · have hmark : droppedItself (events ++ [.dataDelivered e]) = droppedItself events := by
        simp [droppedItself]
      rw [hmark]
      rw [hundecided] at hsound'
      exact hsound'
  | dataDropped e b =>
    have he : e ∈ s.held := hpossible
    obtain ⟨undecided, hundecided, hcount, hsound⟩ := h.select he
    obtain ⟨released, elements, hdropped, hsound'⟩ := hsound.dataDropped (b := b)
    refine ⟨{ s with elements, held := s.held.erase e }, ?_, ?_⟩
    · rw [Sending.step, if_pos he, hdropped]
      rfl
    constructor
    · have hdecisions : decisions (events ++ [.dataDropped e b]) =
          decisions events + if leadsToSend e then 1 else 0 := by
        rw [decisions, List.countP_append, List.countP_singleton]
        rfl
      rw [← hundecided, hdecisions]
      omega
    · have hmark : droppedItself (events ++ [.dataDropped e b]) =
          (decide (e = .send) || droppedItself events) := by
        cases e <;> simp [droppedItself, Bool.or_comm]
      rw [hmark]
      rw [hundecided] at hsound'
      exact hsound'

theorem step_possible {customHeader : Bool} {s s' : Sending} {event : Event}
    (h : s.step customHeader event = some s') : Possible s event := by
  cases event with
  | send =>
    intro hnone
    rw [Sending.step, if_pos hnone] at h
    cases h
  | fragment e | dataDelivered e | dataDropped e b =>
    show e ∈ s.held
    by_contra hout
    rw [Sending.step, if_neg hout] at h
    cases h

theorem run_inv {customHeader : Bool} {s : Sending} (hn : 0 < n)
    (run : Run (.start n) (Performs customHeader) events s) : Inv n events s := by
  apply run.history (Inv n) (start_inv hn)
  intro events s event after h hstep
  obtain ⟨s', hstep', h'⟩ := h.step _ (step_possible hstep)
  obtain rfl : after = s' := by
    rw [hstep, Option.some_inj] at hstep'
    exact hstep'
  exact h'

theorem droppedItself_dropped (h : droppedItself events = true) : dropped events = true := by
  obtain ⟨event, hmem, hevent⟩ := List.any_eq_true.mp h
  apply List.any_eq_true.mpr
  refine ⟨event, hmem, ?_⟩
  split at hevent
  · rfl
  · cases hevent

/-- The listener is told nothing before the last link has decided and then once. It is told
of a drop if a link dropped the sample, exactly when then some link dropped the element of
the sample itself. -/
theorem drop_reported (customHeader : Bool) (n : Nat) (hn : 0 < n) (events : List Event)
    (s : Sending) (run : Run (.start n) (Performs customHeader) events s) :
    (∀ event, Possible s event → ∃ s', Performs customHeader s event s') ∧
    decisions events ≤ n ∧
    (decisions events < n → s.elements.notified = []) ∧
    (decisions events = n → ∃ notification, s.elements.notified = [notification] ∧
      (Notification.isDropped notification = dropped events ↔
        (dropped events = true → droppedItself events = true))) := by
  have h := run_inv hn run
  have hcount := h.count
  refine ⟨?_, by omega, ?_, ?_⟩
  · intro event hpossible
    obtain ⟨s', hs', -⟩ := h.step customHeader hpossible
    exact ⟨s', hs'⟩
  · intro hless
    exact (h.sound.before (by omega)).2
  · intro hall
    obtain ⟨notification, hnotified, hdropped⟩ := h.sound.after (by omega)
    refine ⟨notification, hnotified, ?_⟩
    rw [hdropped]
    constructor
    · intro heq hdrop
      rw [heq, hdrop]
    · intro hitself
      cases hmark : droppedItself events with
      | true => exact (droppedItself_dropped hmark).symm
      | false =>
        cases hdrop : dropped events with
        | true => rw [hitself hdrop] at hmark; cases hmark
        | false => rfl

/-- One link drops the element of the sample, the other sends it in two fragments. -/
def droppedAndDelivered : List Event :=
  [.send, .send, .fragment .send, .dataDropped .send true, .dataDelivered (.fragment 0),
    .dataDelivered (.customized 1 .send)]

theorem drop_reported_fragmented :
    ∃ s notification, Run (.start 2) (Performs false) droppedAndDelivered s ∧
      s.elements.notified = [notification] ∧ Notification.isDropped notification = true := by
  have hends : (droppedAndDelivered.foldlM (Sending.step false) (.start 2)).isSome = true := by
    decide
  obtain ⟨s, hs⟩ := Option.isSome_iff_exists.mp hends
  have run : Run (.start 2) (Performs false) ([] ++ droppedAndDelivered) s :=
    Run.follow (fun _ _ _ h => h) .start hs
  obtain ⟨-, -, -, hall⟩ := drop_reported false 2 (by decide) droppedAndDelivered s run
  obtain ⟨notification, hnotified, hdropped⟩ := hall (by decide)
  exact ⟨s, notification, run, hnotified, hdropped.mpr (by decide)⟩

/-- The only link drops its customized element, and the listener is told of a delivery. -/
theorem customized_drop_delivered :
    ¬ ∀ (customHeader : Bool) (n : Nat) (events : List Event) (s : Sending), 0 < n →
      Run (.start n) (Performs customHeader) events s → decisions events = n →
      ∃ notification, s.elements.notified = [notification] ∧
        Notification.isDropped notification = dropped events := by
  intro claim
  have hends : (([.send, .dataDropped (.customized 0 .send) true] : List Event).foldlM
      (Sending.step true) (.start 1)).map (·.elements.notified) = some [.dataDelivered] := by decide
  obtain ⟨s, hs, hnotified⟩ := Option.map_eq_some_iff.mp hends
  obtain ⟨notification, hone, hdropped⟩ := claim true 1 _ s (by decide)
    (Run.follow (fun _ _ _ h => h) .start hs) (by decide)
  rw [hnotified] at hone
  cases hone
  cases hdropped

end OpenDDS.Guarantees.DropReporting
