import OpenDDS.Guarantees.HistoryDepth
import OpenDDS.Guarantees.TakeAsRead
import OpenDDS.Source.ReaderAccess

/-!
# Access to the samples of a reader

For every cache in order and every arguments, a call returns exactly where none of the samples
that it puts before the filter lacks data, and, for `take_instance`, where there is the instance.
`read_instance` refuses an unknown handle. The samples that a query condition meets are all that
the masks admit; going from instance to instance ends with the first that has a sample to give, and
`contains_sample_filtered` with the first sample that its evaluator accepts.
-/
namespace OpenDDS.Guarantees.ReadAccess
open Library.AssociationList Source Source.ReaderCache Cache

variable {α δ : Type} {c : Cache δ} {samples : Nat → List Nat} {req : Request δ} {masks : Masks}
  {handles : List Nat} {handle : Nat} {oper : ReaderCache.Operation} {call : Call δ}

/-- Nothing is used that is not there. -/
def Returns (run : Except Fault α) : Prop := ∃ result, run = .ok result

def Performed (call : Call δ) : Prop :=
  checkInputs call.sequences call.maxSamples = .ok ∧ call.choice.permitted = true

/-- An access to one instance returns, and refuses an unknown handle. -/
def Guarded (c : Cache δ) (call : Call δ) (handle : Nat) (run : Except Fault (Access δ)) : Prop :=
  Returns run ∧ (Performed call → c.getHandleInstance handle = none →
    run = .ok ⟨.badParameter, none, c⟩)

theorem returns_map {β : Type} {run : Except Fault α} {f : α → β} :
    Returns (run.map f) ↔ Returns run := by
  cases run with
  | error fault =>
    constructor
    · rintro ⟨_, h⟩
      cases h
    · rintro ⟨_, h⟩
      cases h
  | ok a => exact ⟨fun _ => ⟨a, rfl⟩, fun _ => ⟨f a, rfl⟩⟩

theorem not_returns {run : Except Fault α} (h : ∃ fault, run = .error fault) : ¬ Returns run := by
  rintro ⟨result, hok⟩
  obtain ⟨fault, herror⟩ := h
  rw [herror] at hok
  cases hok

theorem checked_performed (performed : Performed call) (body : Except Fault (Access δ)) :
    c.checked call body = body := by
  unfold checked
  rw [if_neg (not_not_intro performed.1), if_pos performed.2]

theorem checked_refused (refused : ¬ Performed call) (body : Except Fault (Access δ)) :
    c.checked call body = .ok ⟨.preconditionNotMet, none, c⟩ := by
  unfold checked
  by_cases hinputs : checkInputs call.sequences call.maxSamples = .ok
  · rw [if_neg (not_not_intro hinputs), if_neg fun hpermitted => refused ⟨hinputs, hpermitted⟩]
  · rw [if_pos hinputs]

theorem checked_returns (body : Except Fault (Access δ)) :
    Returns (c.checked call body) ↔ (Performed call → Returns body) := by
  by_cases hperformed : Performed call
  · rw [checked_performed hperformed]
    exact ⟨fun h _ => h, fun h => h hperformed⟩
  · rw [checked_refused hperformed]
    exact ⟨fun _ h => absurd h hperformed, fun _ => ⟨_, rfl⟩⟩

/-- The samples that are given for the instances `handles`. -/
def given (c : Cache δ) (req : Request δ) (masks : Masks) (handles : List Nat) : List RakeData :=
  (c.inOrder req (c.matching req masks handles)).take req.limit

theorem given_length : (given c req masks handles).length =
    min req.limit (c.matching req masks handles).length := by
  unfold given
  rw [List.length_take, (inOrder_perm _).length_eq]

theorem given_eq_nil_iff : given c req masks handles = [] ↔
    req.limit = 0 ∨ c.matching req masks handles = [] := by
  rw [← List.length_eq_zero_iff, given_length, ← List.length_eq_zero_iff]
  omega

section

variable (oper : ReaderCache.Operation) (w : Wf c samples) (nodup : handles.Nodup)
  (found : ∀ h ∈ handles, (c.getHandleInstance h).isSome)
include w nodup found

theorem rake_total (total : FilterTotal c req masks handles) :
    ∃ output c', c.rake oper req masks handles = .ok (output, c') ∧
      output.receivedData = ((given c req masks handles).map RakeData.rde).map
        (TakeAsRead.place c req.zeroCopy) ∧
      (given c req masks handles = [] → c' = c) := by
  obtain ⟨results, hgather, hselected⟩ := gather_selected w nodup found (total.defined w)
  have hresults : chosen req results = given c req masks handles := by
    rw [gather_eq w found total] at hgather
    cases hgather
    exact chosen_collected handles
  rw [hresults] at hselected
  obtain ⟨c', hcopy, -, -⟩ := copyInto_spec oper req.zeroCopy w hselected
  refine ⟨(summary c samples req.zeroCopy (given c req masks handles)).output, c', ?_,
    TakeAsRead.summary_received req.zeroCopy w hselected, ?_⟩
  · unfold rake
    rw [hgather]
    dsimp only [bind, Except.bind]
    rw [hresults]
    exact hcopy
  · intro hempty
    rw [hempty] at hcopy
    cases hcopy
    rfl

theorem rake_returns :
    Returns (c.rake oper req masks handles) ↔ FilterTotal c req masks handles := by
  by_cases htotal : FilterTotal c req masks handles
  · obtain ⟨output, c', hok, -⟩ := rake_total oper w nodup found htotal
    exact iff_of_true ⟨_, hok⟩ htotal
  · apply iff_of_false _ htotal
    obtain ⟨fault, herror⟩ := gather_error w found htotal
    apply not_returns
    refine ⟨fault, ?_⟩
    unfold rake
    rw [herror]
    rfl

end

/-- The filter is defined for each instance that is reached: those before it have nothing to
give. -/
def ReachedTotal (c : Cache δ) (req : Request δ) (masks : Masks) (handles : List Nat) : Prop :=
  ∀ before handle after, handles = before ++ handle :: after →
    req.limit = 0 ∨ c.matching req masks before = [] → FilterTotal c req masks [handle]

theorem matching_cons (c : Cache δ) (req : Request δ) (masks : Masks) (handle : Nat)
    (handles : List Nat) : c.matching req masks (handle :: handles) =
      c.matching req masks [handle] ++ c.matching req masks handles := by
  unfold matching
  rw [List.flatMap_cons, List.filter_append, List.flatMap_singleton]

theorem reachedTotal_cons (first : FilterTotal c req masks [handle]) :
    ReachedTotal c req masks (handle :: handles) ↔
      (given c req masks [handle] = [] → ReachedTotal c req masks handles) := by
  constructor
  · intro htotal hempty before other after hsplit hbefore
    apply htotal (handle :: before) other after (by rw [hsplit]; rfl)
    rw [matching_cons, List.append_eq_nil_iff]
    rcases given_eq_nil_iff.mp hempty with hlimit | hmatching
    · exact .inl hlimit
    · exact hbefore.imp id fun h => ⟨hmatching, h⟩
  · intro htotal before other after hsplit hbefore
    cases before with
    | nil =>
      obtain ⟨rfl, -⟩ := List.cons.inj hsplit
      exact first
    | cons head before =>
      obtain ⟨rfl, hrest⟩ := List.cons.inj hsplit
      rw [matching_cons, List.append_eq_nil_iff] at hbefore
      apply htotal _ before other after hrest (hbefore.imp id And.right)
      exact given_eq_nil_iff.mpr (hbefore.imp id And.left)

variable (oper) in
theorem nextInstance_returns (w : Wf c samples)
    {visit : Cache δ → Nat → Except Fault (Access δ)}
    (visits : ∀ h ∈ handles, visit c h = (c.rake oper req masks [h]).map .answer)
    (found : ∀ h ∈ handles, (c.getHandleInstance h).isSome)
    (last : Access δ) (current : last.cache = c) :
    Returns (nextInstance visit handles last) ↔ ReachedTotal c req masks handles := by
  induction handles generalizing last with
  | nil =>
    refine iff_of_true ⟨_, rfl⟩ ?_
    intro before handle after hsplit
    simp at hsplit
  | cons handle handles ih =>
    have hknown : ∀ h ∈ [handle], (c.getHandleInstance h).isSome := by
      intro h hh
      rw [List.mem_singleton.mp hh]
      exact found handle List.mem_cons_self
    unfold nextInstance
    rw [current, visits handle List.mem_cons_self]
    by_cases htotal : FilterTotal c req masks [handle]
    · obtain ⟨output, c', hok, hreceived, hsame⟩ :=
        rake_total oper w (List.nodup_singleton handle) hknown htotal
      rw [hok, reachedTotal_cons htotal]
      have hcode : (Access.answer (output, c')).code = .noData ↔
          given c req masks [handle] = [] := by
        have hlength : output.receivedData.length = 0 ↔ given c req masks [handle] = [] := by
          rw [hreceived, List.length_map, List.length_map, List.length_eq_zero_iff]
        rw [← hlength]
        unfold Access.answer
        split
        · exact iff_of_true rfl ‹_›
        · exact iff_of_false nofun ‹_›
      dsimp only [Except.map, bind, Except.bind]
      by_cases hempty : given c req masks [handle] = []
      · rw [if_pos (hcode.mpr hempty)]
        refine Iff.trans (ih (fun h hh => visits h (List.mem_cons_of_mem _ hh))
          (fun h hh => found h (List.mem_cons_of_mem _ hh)) _ (hsame hempty)) ?_
        exact ⟨fun h _ => h, fun h => h hempty⟩
      · rw [if_neg fun h => hempty (hcode.mp h)]
        exact iff_of_true ⟨_, rfl⟩ fun h => absurd h hempty
    · apply iff_of_false
      · obtain ⟨fault, herror⟩ : ∃ fault, c.rake oper req masks [handle] = .error fault := by
          cases hrun : c.rake oper req masks [handle] with
          | error fault => exact ⟨fault, rfl⟩
          | ok result =>
            exact absurd ((rake_returns oper w (List.nodup_singleton handle) hknown).mp ⟨_, hrun⟩)
              htotal
        rw [herror]
        exact not_returns ⟨fault, rfl⟩
      · intro hreached
        exact htotal (hreached [] handle handles rfl (.inr rfl))

theorem anyItem_cons (evaluator : δ → Bool) (item : Nat) (items : List Nat) :
    c.anyItem evaluator (item :: items) =
      match (c.element item).registeredData with
      | none => .error .nullData
      | some data => if evaluator data then .ok true else c.anyItem evaluator items := rfl

theorem anyItem_append (evaluator : δ → Bool) (items rest : List Nat) :
    c.anyItem evaluator (items ++ rest) = (do
      let found ← c.anyItem evaluator items
      if found then .ok true else c.anyItem evaluator rest) := by
  induction items with
  | nil => rfl
  | cons item items ih =>
    rw [List.cons_append, anyItem_cons, anyItem_cons]
    cases (c.element item).registeredData with
    | none => rfl
    | some data =>
      dsimp only
      split
      · rfl
      · exact ih

theorem anyInstance_eq (w : Wf c samples) (evaluator : δ → Bool)
    (found : ∀ h ∈ handles, (c.getHandleInstance h).isSome) :
    c.anyInstance masks evaluator handles =
      c.anyItem evaluator (handles.flatMap (c.admitted masks)) := by
  induction handles with
  | nil => rfl
  | cons handle handles ih =>
    obtain ⟨inst, hinst⟩ := Option.isSome_iff_exists.mp (found handle List.mem_cons_self)
    have hrest := ih fun h hh => found h (List.mem_cons_of_mem _ hh)
    have hwalk := (w.lists handle inst hinst).walk
    rw [List.flatMap_cons, anyItem_append]
    unfold anyInstance
    rw [deref_eq_ok hinst]
    dsimp only [bind, Except.bind]
    by_cases hmasks : masks.admitsInstance inst.instanceState = true
    · rw [if_pos hmasks, hwalk, admitted_eq w hinst hmasks, hrest]
    · rw [if_neg hmasks, admitted, hinst, hrest]
      dsimp only
      rw [if_neg hmasks]
      rfl

/-- A sample that lacks data comes behind one that the evaluator accepts. -/
def ItemsReached (c : Cache δ) (evaluator : δ → Bool) (items : List Nat) : Prop :=
  ∀ before a after, items = before ++ a :: after → (c.element a).registeredData = none →
    ∃ b ∈ before, (c.element b).registeredData.any evaluator = true

theorem anyItem_returns (evaluator : δ → Bool) (items : List Nat) :
    Returns (c.anyItem evaluator items) ↔ ItemsReached c evaluator items := by
  induction items with
  | nil =>
    refine iff_of_true ⟨false, rfl⟩ ?_
    intro before a after hsplit
    simp at hsplit
  | cons item items ih =>
    rw [anyItem_cons]
    cases hdata : (c.element item).registeredData with
    | none =>
      refine iff_of_false (not_returns ⟨.nullData, rfl⟩) ?_
      intro hreached
      obtain ⟨b, hb, -⟩ := hreached [] item items rfl hdata
      cases hb
    | some data =>
      dsimp only
      by_cases haccepted : evaluator data = true
      · rw [if_pos haccepted]
        refine iff_of_true ⟨true, rfl⟩ ?_
        intro before a after hsplit hnone
        cases before with
        | nil =>
          obtain ⟨rfl, -⟩ := List.cons.inj hsplit
          rw [hdata] at hnone
          cases hnone
        | cons head before =>
          obtain ⟨rfl, -⟩ := List.cons.inj hsplit
          exact ⟨item, List.mem_cons_self, by rw [hdata]; exact haccepted⟩
      · rw [if_neg haccepted, ih]
        constructor
        · intro hreached before a after hsplit hnone
          cases before with
          | nil =>
            obtain ⟨rfl, -⟩ := List.cons.inj hsplit
            rw [hdata] at hnone
            cases hnone
          | cons head before =>
            obtain ⟨b, hb, hany⟩ := hreached before a after (List.cons.inj hsplit).2 hnone
            exact ⟨b, List.mem_cons_of_mem _ hb, hany⟩
        · intro hreached before a after hsplit hnone
          obtain ⟨b, hb, hany⟩ :=
            hreached (item :: before) a after (by rw [hsplit]; rfl) hnone
          rcases List.mem_cons.mp hb with rfl | hb
          · rw [hdata] at hany
            exact absurd hany haccepted
          · exact ⟨b, hb, hany⟩

theorem handlesAfter_found (w : Wf c samples) (handle : Nat) :
    ∀ h ∈ c.handlesAfter handle, (c.getHandleInstance h).isSome := by
  intro h hin
  apply w.found
  unfold handlesAfter at hin
  split at hin
  · exact hin
  · exact (List.dropWhile_suffix _).subset (List.mem_of_mem_tail hin)

theorem handlesInOrder_found : ∀ h ∈ c.handlesInOrder, (c.getHandleInstance h).isSome := by
  intro h hin
  obtain ⟨entry, hentry, rfl⟩ := List.mem_map.mp (List.mem_mergeSort.mp hin)
  exact lookup_isSome hentry

theorem readOne_known {inst : SubscriptionInstance} (call : Call δ)
    (known : c.getHandleInstance handle = some inst) : c.readOne call handle =
      (c.rake .read call.request call.choice.masks [handle]).map .answer := by
  unfold readOne
  rw [known]
  rfl

variable (call) in
theorem rake_one_returns (oper : ReaderCache.Operation) (w : Wf c samples) {inst : SubscriptionInstance}
    (known : c.getHandleInstance handle = some inst) :
    Returns ((c.rake oper call.request call.choice.masks [handle]).map Access.answer) ↔
      FilterTotal c call.request call.choice.masks [handle] := by
  rw [returns_map]
  apply rake_returns oper w (List.nodup_singleton handle)
  intro h hh
  rw [List.mem_singleton.mp hh, known]
  rfl

theorem readInstance_guarded (w : Wf c samples) (call : Call δ) (handle : Nat) :
    Guarded c call handle (c.readInstance call handle) ↔
      (Performed call → (c.getHandleInstance handle).isSome →
        FilterTotal c call.request call.choice.masks [handle]) := by
  unfold Guarded readInstance
  rw [checked_returns]
  by_cases hperformed : Performed call
  · rw [checked_performed hperformed]
    cases hknown : c.getHandleInstance handle with
    | none =>
      have hrefused : c.readOne call handle = .ok ⟨.badParameter, none, c⟩ := by
        unfold readOne
        rw [hknown]
      rw [hrefused]
      exact iff_of_true ⟨fun _ => ⟨_, rfl⟩, fun _ _ => rfl⟩ fun _ h => nomatch h
    | some inst =>
      rw [readOne_known call hknown, rake_one_returns call .read w hknown]
      exact ⟨fun h hp _ => h.1 hp, fun h => ⟨fun hp => h hp rfl, fun _ hnone => nomatch hnone⟩⟩
  · exact iff_of_true ⟨fun h => absurd h hperformed, fun h => absurd h hperformed⟩
      fun h => absurd h hperformed

theorem takeInstance_guarded (w : Wf c samples) (call : Call δ) (handle : Nat) :
    Guarded c call handle (c.takeInstance call handle) ↔
      (Performed call → (c.getHandleInstance handle).isSome ∧
        FilterTotal c call.request call.choice.masks [handle]) := by
  unfold Guarded takeInstance
  rw [checked_returns]
  by_cases hperformed : Performed call
  · cases hknown : c.getHandleInstance handle with
    | none =>
      have hfault : ¬ Returns (c.takeOne call handle) := by
        apply not_returns
        refine ⟨.releasedInstance, ?_⟩
        unfold takeOne takeInstanceI rake gather
        rw [List.foldlM_cons]
        unfold insertInstance
        rw [deref_eq_error hknown]
        rfl
      exact iff_of_false (fun h => hfault (h.1 hperformed)) fun h => nomatch (h hperformed).1
    | some inst =>
      have hone := rake_one_returns call .take w hknown
      exact ⟨fun h hp => ⟨rfl, hone.mp (h.1 hp)⟩,
        fun h => ⟨fun hp => hone.mpr (h hp).2, fun _ hnone => nomatch hnone⟩⟩
  · exact iff_of_true ⟨fun h => absurd h hperformed, fun h => absurd h hperformed⟩
      fun h => absurd h hperformed

/-- Which calls return. -/
theorem access_iff (w : Wf c samples) (call : Call δ) (handle : Nat) (masks : Masks)
    (evaluator : δ → Bool) :
    (Returns (c.read call) ↔ (Performed call →
      FilterTotal c call.request call.choice.masks (c.instanceMap.map Prod.snd))) ∧
    (Returns (c.take call) ↔ (Performed call →
      FilterTotal c call.request call.choice.masks (c.instanceMap.map Prod.snd))) ∧
    (Guarded c call handle (c.readInstance call handle) ↔ (Performed call →
      (c.getHandleInstance handle).isSome →
        FilterTotal c call.request call.choice.masks [handle])) ∧
    (Guarded c call handle (c.takeInstance call handle) ↔ (Performed call →
      (c.getHandleInstance handle).isSome ∧
        FilterTotal c call.request call.choice.masks [handle])) ∧
    (Returns (c.readNextInstance call handle) ↔ (Performed call →
      ReachedTotal c call.request call.choice.masks (c.handlesAfter handle))) ∧
    (Returns (c.takeNextInstance call handle) ↔ (Performed call →
      ReachedTotal c call.request call.choice.masks (c.handlesAfter handle))) ∧
    (Returns (c.containsSampleFiltered masks evaluator) ↔
      ItemsReached c evaluator (c.handlesInOrder.flatMap (c.admitted masks))) := by
  have hall : ∀ oper, Returns ((c.rake oper call.request call.choice.masks
      (c.instanceMap.map Prod.snd)).map Access.answer) ↔
      FilterTotal c call.request call.choice.masks (c.instanceMap.map Prod.snd) := by
    intro oper
    rw [returns_map]
    exact rake_returns oper w w.distinct w.found
  have hafter := handlesAfter_found w handle
  refine ⟨?_, ?_, readInstance_guarded w call handle, takeInstance_guarded w call handle, ?_, ?_, ?_⟩
  · exact (checked_returns _).trans (imp_congr_right fun _ => hall .read)
  · exact (checked_returns _).trans (imp_congr_right fun _ => hall .take)
  · refine (checked_returns _).trans (imp_congr_right fun _ => ?_)
    apply nextInstance_returns .read w _ hafter _ rfl
    intro h hh
    obtain ⟨inst, hinst⟩ := Option.isSome_iff_exists.mp (hafter h hh)
    exact readOne_known call hinst
  · refine (checked_returns _).trans (imp_congr_right fun _ => ?_)
    exact nextInstance_returns .take w (fun _ _ => rfl) hafter _ rfl
  · unfold containsSampleFiltered
    rw [anyInstance_eq w evaluator handlesInOrder_found]
    exact anyItem_returns evaluator _

/-- All samples, or those that a query condition lets through, as copies. -/
def anyCall : Call Nat where
  sequences := ⟨0, 0, 10, true, 0⟩
  maxSamples := lengthUnlimited
  choice := .states TakeAsRead.anyState
  orderedTopic := false

def positive : Call Nat :=
  { anyCall with choice := .condition true TakeAsRead.anyState (some ⟨some (0 < ·), none⟩) }

/-- A sample with data is filtered. -/
theorem access_iff_filtered : Returns (TakeAsRead.lastHeld.read positive) := by
  refine (access_iff TakeAsRead.lastHeld_wf positive 1 TakeAsRead.anyState (0 < ·)).1.mpr ?_
  intro _ handle _ a _ _
  rfl

def disposed : Cache Nat :=
  (HistoryDepth.replay
    [HistoryDepth.messageAt .sampleData 10, HistoryDepth.messageAt .disposeInstance 11]).cache

/-- A filter is put on the notice of a disposal in each of the calls, and `take_instance` uses an
instance that there is not. -/
theorem notice_is_filtered :
    (disposed.read positive).map Access.code = .error .nullData ∧
    (disposed.take positive).map Access.code = .error .nullData ∧
    (disposed.readInstance positive 10).map Access.code = .error .nullData ∧
    (disposed.takeInstance positive 10).map Access.code = .error .nullData ∧
    (disposed.readNextInstance positive 0).map Access.code = .error .nullData ∧
    (disposed.takeNextInstance positive 0).map Access.code = .error .nullData ∧
    disposed.containsSampleFiltered TakeAsRead.anyState (fun n => 20 < n) = .error .nullData ∧
    (disposed.takeInstance anyCall 7).map Access.code = .error .releasedInstance := by
  refine ⟨?_, ?_, ?_, ?_, ?_, ?_, ?_, ?_⟩ <;> decide +kernel

end OpenDDS.Guarantees.ReadAccess
