import OpenDDS.Guarantees.ReadAccess
import OpenDDS.Guarantees.SampleRetention

/-!
# Going from instance to instance

`read_next_instance` and `take_next_instance`, called with the handle of the instance returned last
until there is no data. The position is a handle that is looked up in `instance_map_`, so that the
calls end early where the instance that was taken last has been released.
-/
namespace OpenDDS.Guarantees.InstanceIteration
open Library Source Source.ReaderCache Cache ReadAccess

variable {δ : Type} {c c' : Cache δ} {samples : Nat → List Nat} {oper : ReaderCache.Operation}
  {handle : Nat} {masks : Masks} {req : Request δ}

structure Arguments where
  sequences : Sequences
  maxSamples : Int
  masks : Masks
  orderedTopic : Bool

def Arguments.call (args : Arguments) : Call δ :=
  ⟨args.sequences, args.maxSamples, .states args.masks, args.orderedTopic⟩

def Arguments.Ready (args : Arguments) : Prop := checkInputs args.sequences args.maxSamples = .ok

/-- `max_samples` as it is counted. -/
def Arguments.limit (args : Arguments) : Nat := (args.call (δ := Unit)).request.limit

/-- `read_next_instance` or `take_next_instance`. -/
def nextAccess (oper : ReaderCache.Operation) (args : Arguments) (c : Cache δ) (handle : Nat) :
    Except Fault (Access δ) :=
  match oper with
  | .read => c.readNextInstance args.call handle
  | .take => c.takeNextInstance args.call handle

/-- The instances that the calls return, from the one behind `handle` until there is no data. -/
inductive Iterates (oper : ReaderCache.Operation) (args : Arguments) :
    Cache δ → Nat → List Nat → Prop
  | done {c : Cache δ} {handle : Nat} {access : Access δ} :
      nextAccess oper args c handle = .ok access → access.code = .noData →
      Iterates oper args c handle []
  | next {c : Cache δ} {handle : Nat} {access : Access δ} {output : Output δ} {info : SampleInfo}
      {rest : List Nat} :
      nextAccess oper args c handle = .ok access → access.code = .ok →
      access.output = some output → output.infoSeq.head? = some info →
      Iterates oper args access.cache info.instanceHandle rest →
      Iterates oper args c handle (info.instanceHandle :: rest)

theorem iterates_unique {args : Arguments} {returned returned' : List Nat}
    (h : Iterates oper args c handle returned) (h' : Iterates oper args c handle returned') :
    returned = returned' := by
  induction h generalizing returned' with
  | done hok hcode =>
    cases h' with
    | done => rfl
    | next hok' hcode' =>
      cases hok.symm.trans hok'
      cases hcode.symm.trans hcode'
  | next hok hcode houtput hinfo _ ih =>
    cases h' with
    | done hok' hcode' =>
      cases hok.symm.trans hok'
      cases hcode.symm.trans hcode'
    | next hok' hcode' houtput' hinfo' hrest =>
      cases hok.symm.trans hok'
      cases houtput.symm.trans houtput'
      cases hinfo.symm.trans hinfo'
      rw [ih hrest]

/-- The calls end, and return each instance with a sample that the masks admit exactly once. -/
def Complete (oper : ReaderCache.Operation) (args : Arguments) (c : Cache δ) : Prop :=
  ∃ returned, Iterates oper args c 0 returned ∧
    ∀ h, returned.count h = if c.admitted args.masks h = [] then 0 else 1

/-- The instances with samples to return, in the order of `instance_map_`. -/
def offering (c : Cache δ) (masks : Masks) : List Nat :=
  (c.instanceMap.map Prod.snd).filter fun h => c.admitted masks h ≠ []

/-- An instance that is released when its samples are taken: all of them are taken, and it has lost
its writers. -/
structure Released (c : Cache δ) (args : Arguments) (handle : Nat) : Prop where
  all : c.admitted args.masks handle = c.held handle
  within : (c.held handle).length ≤ args.limit
  pending : ∃ inst, c.getHandleInstance handle = some inst ∧
    inst.instanceState.releasePending = true ∧ inst.instanceState.writers = ∅

theorem matching_masks (plain : req.cond = none) (handle : Nat) :
    c.matching req masks [handle] = c.numbered masks handle := by
  have hselects : c.selects req = fun _ => true := by
    funext rd
    unfold selects
    rw [plain]
    cases (c.element rd.rde).registeredData <;> simp
  unfold matching
  rw [hselects, List.filter_true, List.flatMap_singleton]

theorem given_masks (plain : req.cond = none) (handle : Nat) :
    given c req masks [handle] = [] ↔ req.limit = 0 ∨ c.admitted masks handle = [] := by
  rw [given_eq_nil_iff, matching_masks plain]
  unfold numbered
  rw [List.map_eq_nil_iff, List.zipIdx_eq_nil_iff]

theorem given_own (plain : req.cond = none) {rd : RakeData}
    (h : rd ∈ given c req masks [handle]) :
    rd.si = handle ∧ rd.rde ∈ c.admitted masks handle := by
  have hin := (inOrder_perm _).mem_iff.mp (List.mem_of_mem_take h)
  rw [matching_masks plain] at hin
  refine ⟨?_, mem_numbered hin⟩
  obtain ⟨n, -, rfl⟩ := List.mem_map.mp hin
  rfl

theorem numbered_rde (c : Cache δ) (masks : Masks) (handle : Nat) :
    (c.numbered masks handle).map RakeData.rde = c.admitted masks handle := by
  unfold numbered
  rw [List.map_map]
  exact List.zipIdx_map_fst 1 _

theorem given_perm (c : Cache δ) (masks : Masks) (plain : req.cond = none) (handle : Nat) :
    ((c.inOrder req (c.matching req masks [handle])).map RakeData.rde).Perm
      (c.admitted masks handle) := by
  rw [← numbered_rde, ← matching_masks plain]
  exact (inOrder_perm _).map _

theorem left_nil_iff (masks : Masks) (plain : req.cond = none) (w : Wf c samples) (handle : Nat) :
    left .take samples (given c req masks [handle]) handle = [] ↔
      c.admitted masks handle = samples handle ∧ (samples handle).length ≤ req.limit := by
  have hsub := admitted_sublist w masks handle
  have hperm := given_perm c masks plain handle
  have hmap : (given c req masks [handle]).map RakeData.rde =
      ((c.inOrder req (c.matching req masks [handle])).map RakeData.rde).take req.limit := by
    unfold given
    rw [List.map_take]
  unfold left
  rw [List.filter_eq_nil_iff, hmap]
  constructor
  · intro hall
    have hgiven : ∀ a ∈ samples handle,
        a ∈ ((c.inOrder req (c.matching req masks [handle])).map RakeData.rde).take req.limit := by
      intro a ha
      exact not_not.mp fun hnot => hall a ha (decide_eq_true hnot)
    have hlength := ((w.apart.nodup handle).subperm hgiven).length_le
    rw [List.length_take, hperm.length_eq] at hlength
    have hadmitted : c.admitted masks handle = samples handle :=
      hsub.eq_of_length_le (by omega)
    exact ⟨hadmitted, by omega⟩
  · rintro ⟨hadmitted, hlimit⟩ a ha
    have hin : a ∈ (c.inOrder req (c.matching req masks [handle])).map RakeData.rde :=
      hperm.mem_iff.mpr (hadmitted ▸ ha)
    have hshort : ((c.inOrder req (c.matching req masks [handle])).map RakeData.rde).length ≤
        req.limit := by
      rw [hperm.length_eq, hadmitted]
      exact hlimit
    rw [List.take_of_length_le hshort]
    simpa using hin

structure Accessed (oper : ReaderCache.Operation) (req : Request δ) (masks : Masks) (handle : Nat)
    (c : Cache δ) (samples : Nat → List Nat) (inst : SubscriptionInstance) (output : Output δ)
    (c' : Cache δ) : Prop where
  wf : Wf c' (left oper samples (given c req masks [handle]))
  frame : Frame handle (samples handle) c c'
  stays : Stays c c'
  silent : given c req masks [handle] = [] → c' = c ∧ output.receivedData = []
  returned : given c req masks [handle] ≠ [] → output.receivedData ≠ [] ∧
    ∃ info, output.infoSeq.head? = some info ∧ info.instanceHandle = inst.instanceState.handle
  gone : c'.getHandleInstance handle = none ↔
    Gone inst.instanceState (samples handle) (left oper samples (given c req masks [handle]) handle)

theorem rake_one {inst : SubscriptionInstance} (oper : ReaderCache.Operation) (masks : Masks)
    (plain : req.cond = none) (w : Wf c samples) (found : c.getHandleInstance handle = some inst) :
    ∃ output c', c.rake oper req masks [handle] = .ok (output, c') ∧
      Accessed oper req masks handle c samples inst output c' := by
  have hfound : ∀ h ∈ [handle], (c.getHandleInstance h).isSome := by
    intro h hh
    rw [List.mem_singleton.mp hh, found]
    rfl
  have htotal : FilterTotal c req masks [handle] := by
    intro _ _ _ _ hfilter
    rw [plain] at hfilter
    cases hfilter
  obtain ⟨output, c', hok, hreceived, hsame⟩ :=
    rake_total oper w (List.nodup_singleton handle) hfound htotal
  obtain ⟨results, hgather, -, hselected, houtput, hcopy, -⟩ :=
    rake_summary w (List.nodup_singleton handle) hfound hok
  rw [gather_eq w hfound htotal] at hgather
  cases hgather
  have hchosen : chosen req (c.collected req ([handle].flatMap (c.numbered masks))) =
      given c req masks [handle] := chosen_collected [handle]
  rw [hchosen] at hselected houtput hcopy
  obtain ⟨after, hcopied, hw, hgone⟩ := copyInto_spec oper req.zeroCopy w hselected
  cases hcopied.symm.trans hcopy
  have hown : ∀ rd ∈ given c req masks [handle], rd.si = handle ∧ rd.rde ∈ samples handle := by
    intro rd hrd
    obtain ⟨hsi, hin⟩ := given_own plain hrd
    exact ⟨hsi, (admitted_sublist w masks handle).subset hin⟩
  refine ⟨_, _, hok, hw, frame_copyInto hown hcopy, stays_copyInto hcopy, ?_, ?_,
    hgone handle inst found⟩
  · intro hempty
    rw [hreceived, hempty]
    exact ⟨hsame hempty, rfl⟩
  · intro hsome
    obtain ⟨rd, rest, hgiven⟩ := List.exists_cons_of_ne_nil hsome
    have hfirst : (given c req masks [handle])[0]? = some rd := by
      rw [hgiven]
      rfl
    obtain ⟨info, inst', -, -, hinfo, hinst', hall, -⟩ :=
      summary_ranks req.zeroCopy w hselected hfirst
    rw [(hown rd (hgiven ▸ List.mem_cons_self)).1, found] at hinst'
    cases hinst'
    refine ⟨?_, info, ?_, ?_⟩
    · rw [hreceived, hgiven]
      exact List.cons_ne_nil _ _
    · rw [List.head?_eq_getElem?, houtput]
      exact hinfo
    · rw [hall]
      rfl

section

variable {args : Arguments} {before after : List Nat}

def visit (oper : ReaderCache.Operation) (args : Arguments) (c : Cache δ) (handle : Nat) :
    Except Fault (Access δ) :=
  match oper with
  | .read => c.readOne args.call handle
  | .take => c.takeOne args.call handle

theorem nextAccess_eq (oper : ReaderCache.Operation) (c : Cache δ) (ready : args.Ready)
    (handle : Nat) : nextAccess oper args c handle =
      nextInstance (visit oper args) (c.handlesAfter handle) ⟨.noData, none, c⟩ := by
  have hperformed : Performed (args.call (δ := δ)) := ⟨ready, rfl⟩
  cases oper with
  | read => exact checked_performed hperformed _
  | take => exact checked_performed hperformed _

theorem visit_eq (found : (c.getHandleInstance handle).isSome) :
    visit oper args c handle = (c.rake oper args.call.request args.masks [handle]).map .answer := by
  obtain ⟨inst, hinst⟩ := Option.isSome_iff_exists.mp found
  cases oper with
  | read => exact readOne_known args.call hinst
  | take => rfl

/-- Nothing is given for the instance. -/
def Silent (args : Arguments) (c : Cache δ) (handle : Nat) : Prop :=
  args.limit = 0 ∨ c.admitted args.masks handle = []

section

variable (oper : ReaderCache.Operation) (w : Wf c samples)
include w

theorem visit_silent (found : (c.getHandleInstance handle).isSome) (silent : Silent args c handle) :
    ∃ access, visit oper args c handle = .ok access ∧ access.code = .noData ∧ access.cache = c := by
  obtain ⟨inst, hinst⟩ := Option.isSome_iff_exists.mp found
  have hplain : (args.call (δ := δ)).request.cond = none := rfl
  obtain ⟨output, c', hok, haccessed⟩ := rake_one oper args.masks hplain w hinst
  obtain ⟨rfl, hempty⟩ := haccessed.silent ((given_masks rfl handle).mpr silent)
  rw [visit_eq found, hok]
  refine ⟨_, rfl, ?_, rfl⟩
  unfold Access.answer
  rw [hempty]
  rfl

theorem visit_gives {inst : SubscriptionInstance} (found : c.getHandleInstance handle = some inst)
    (gives : ¬ Silent args c handle) :
    ∃ output c', visit oper args c handle = .ok ⟨.ok, some output, c'⟩ ∧
      Accessed oper args.call.request args.masks handle c samples inst output c' := by
  have hplain : (args.call (δ := δ)).request.cond = none := rfl
  obtain ⟨output, c', hok, haccessed⟩ := rake_one oper args.masks hplain w found
  obtain ⟨hsome, -⟩ := haccessed.returned (mt (given_masks rfl handle).mp gives)
  refine ⟨output, c', ?_, haccessed⟩
  rw [visit_eq (by rw [found]; rfl), hok]
  show Except.ok (Access.answer (output, c')) = _
  unfold Access.answer
  rw [if_neg (mt List.length_eq_zero_iff.mp hsome)]

theorem nextInstance_append (found : ∀ h ∈ before, (c.getHandleInstance h).isSome)
    (silent : ∀ h ∈ before, Silent args c h) {last : Access δ} (current : last.cache = c) :
    ∃ last', last'.cache = c ∧ nextInstance (visit oper args) (before ++ after) last =
      nextInstance (visit oper args) after last' := by
  induction before generalizing last with
  | nil => exact ⟨last, current, rfl⟩
  | cons handle rest ih =>
    obtain ⟨access, hok, hcode, hcache⟩ := visit_silent oper w
      (found handle List.mem_cons_self) (silent handle List.mem_cons_self)
    obtain ⟨last', hlast, heq⟩ := ih (fun h hh => found h (List.mem_cons_of_mem _ hh))
      (fun h hh => silent h (List.mem_cons_of_mem _ hh)) hcache
    refine ⟨last', hlast, ?_⟩
    rw [List.cons_append, nextInstance, current, hok]
    dsimp only [bind, Except.bind]
    rw [if_pos hcode]
    exact heq

theorem left_other {i : Nat} (plain : req.cond = none) (other : i ≠ handle) :
    left oper samples (given c req masks [handle]) i = samples i := by
  cases oper with
  | read => rfl
  | take =>
    apply List.filter_eq_self.mpr
    intro a ha
    rw [decide_eq_true_iff]
    intro hin
    obtain ⟨rd, hrd, rfl⟩ := List.mem_map.mp hin
    have hown := (admitted_sublist w masks handle).subset (given_own plain hrd).2
    exact other (w.own rd.rde hown i ha)

end

theorem gone_iff_released {inst : SubscriptionInstance} (w : Wf c samples)
    (found : c.getHandleInstance handle = some inst) (gives : ¬ Silent args c handle) :
    Gone inst.instanceState (samples handle)
        (left oper samples (given c args.call.request args.masks [handle]) handle) ↔
      oper = .take ∧ Released c args handle := by
  have hsome : samples handle ≠ [] := by
    intro hnone
    have hsub := admitted_sublist w args.masks handle
    rw [hnone] at hsub
    exact gives (.inr (List.sublist_nil.mp hsub))
  cases oper with
  | read =>
    refine iff_of_false (fun hgone => hsome hgone.2.1) fun h => nomatch h.1
  | take =>
    have hplain : (args.call (δ := δ)).request.cond = none := rfl
    have hleft := left_nil_iff args.masks hplain w handle
    constructor
    · rintro ⟨-, hnil, hpending, hwriters⟩
      obtain ⟨hall, hwithin⟩ := hleft.mp hnil
      exact ⟨rfl, hall.trans (held_eq w handle).symm, (held_eq w handle).symm ▸ hwithin, inst,
        found, hpending, hwriters⟩
    · rintro ⟨-, hreleased⟩
      obtain ⟨inst', hinst', hpending, hwriters⟩ := hreleased.pending
      cases found.symm.trans hinst'
      have hnil := hleft.mpr ⟨held_eq w handle ▸ hreleased.all, held_eq w handle ▸ hreleased.within⟩
      exact ⟨hsome, hnil, hpending, hwriters⟩

/-- The instances that are still to come, from a position, are as they were: which of them give
samples, and which are released then. -/
structure Ahead (oper : ReaderCache.Operation) (args : Arguments) (gives lost : Nat → Prop)
    (c : Cache δ) (samples : Nat → List Nat) (handle : Nat) (rest : List Nat) : Prop where
  wf : Wf c samples
  cursor : c.handlesAfter handle = rest
  keys : ∃ front, c.instanceMap.map Prod.snd = front ++ rest
  named : ∀ h ∈ rest, h ≠ 0 ∧ ∃ inst, c.getHandleInstance h = some inst ∧
    inst.instanceState.handle = h
  gives : ∀ h ∈ rest, ¬ Silent args c h ↔ gives h
  lost : ∀ h ∈ rest, oper = .take ∧ Released c args h ↔ lost h

theorem handlesAfter_split {front : List Nat} (distinct : (c.instanceMap.map Prod.snd).Nodup)
    (keys : c.instanceMap.map Prod.snd = front ++ handle :: after) (nonzero : handle ≠ 0) :
    c.handlesAfter handle = after := by
  have hfront : ∀ h ∈ front, decide (h ≠ handle) = true := by
    intro h hh
    rw [keys] at distinct
    exact decide_eq_true ((List.nodup_append.mp distinct).2.2 h hh handle List.mem_cons_self)
  unfold handlesAfter
  rw [if_neg nonzero, keys, List.dropWhile_append_of_pos hfront,
    List.dropWhile_cons_of_neg (by simp)]
  rfl

theorem handlesAfter_gone (gone : handle ∉ c.instanceMap.map Prod.snd) (nonzero : handle ≠ 0) :
    c.handlesAfter handle = [] := by
  have hall : ∀ h ∈ c.instanceMap.map Prod.snd, decide (h ≠ handle) = true := by
    intro h hh
    exact decide_eq_true fun heq => gone (heq ▸ hh)
  unfold handlesAfter
  rw [if_neg nonzero, List.dropWhile_eq_nil_iff.mpr hall]
  rfl

variable {gives lost : Nat → Prop} {cursor : Nat} {inst : SubscriptionInstance} {output : Output δ}

section

variable (h : Ahead oper args gives lost c samples cursor (before ++ handle :: after))
  (found : c.getHandleInstance handle = some inst) (given : gives handle)
  (accessed : Accessed oper args.call.request args.masks handle c samples inst output c')
include h found given accessed

theorem Ahead.ends (released : lost handle) : c'.handlesAfter handle = [] := by
  have hmem : handle ∈ before ++ handle :: after := by simp
  have hgone := accessed.gone.mpr ((gone_iff_released h.wf found
    ((h.gives handle hmem).mpr given)).mpr ((h.lost handle hmem).mpr released))
  apply handlesAfter_gone _ (h.named handle hmem).1
  intro hin
  have hsome := accessed.wf.found handle hin
  rw [hgone] at hsome
  cases hsome

/-- An instance that is left is the next position, and what is behind it is untouched. -/
theorem Ahead.step (kept : ¬ lost handle) : Ahead oper args gives lost c'
      (left oper samples (ReadAccess.given c args.call.request args.masks [handle])) handle
      after := by
  have hmem : handle ∈ before ++ handle :: after := by simp
  obtain ⟨hnonzero, -⟩ := h.named handle hmem
  obtain ⟨front, hkeys⟩ := h.keys
  have hsome : (c'.getHandleInstance handle).isSome := by
    rw [Option.isSome_iff_ne_none]
    intro hnone
    have hgone := accessed.gone.mp hnone
    exact kept ((h.lost handle hmem).mp
      ((gone_iff_released h.wf found ((h.gives handle hmem).mpr given)).mp hgone))
  have hsame : c'.instanceMap = c.instanceMap := by
    rcases accessed.frame.keys with hsame | hless
    · exact hsame
    · have hin : handle ∈ c.instanceMap.map Prod.snd := by
        rw [hkeys]
        exact List.mem_append_right _ hmem
      obtain ⟨entry, hentry, hhandle⟩ := List.mem_map.mp hin
      have hstill := accessed.stays.remains.keys entry hentry (hhandle ▸ hsome)
      rw [hless, List.mem_filter, decide_eq_true_iff] at hstill
      exact absurd hhandle hstill.2
  have hsplit : c'.instanceMap.map Prod.snd = (front ++ before) ++ handle :: after := by
    rw [hsame, hkeys, List.append_assoc]
  have hbehind : ∀ i ∈ after, i ∈ before ++ handle :: after ∧ i ≠ handle := by
    intro i hi
    refine ⟨List.mem_append_right _ (List.mem_cons_of_mem _ hi), ?_⟩
    rintro rfl
    have hnodup := accessed.wf.distinct
    rw [hsplit] at hnodup
    exact (List.nodup_cons.mp (List.nodup_append.mp hnodup).2.1).1 hi
  have hplain : (args.call (δ := δ)).request.cond = none := rfl
  have hadmitted : ∀ i ∈ after, c'.admitted args.masks i = c.admitted args.masks i := fun i hi =>
    accessed.frame.admitted h.wf accessed.wf (hbehind i hi).2
      (left_other oper h.wf hplain (hbehind i hi).2)
  have hheld : ∀ i ∈ after, c'.held i = c.held i := by
    intro i hi
    rw [held_eq accessed.wf, held_eq h.wf, left_other oper h.wf hplain (hbehind i hi).2]
  constructor
  · exact accessed.wf
  · exact handlesAfter_split accessed.wf.distinct hsplit hnonzero
  · exact ⟨(front ++ before) ++ [handle], hsplit.trans (List.append_cons _ _ _)⟩
  · intro i hi
    obtain ⟨hne, inst', hinst', hname⟩ := h.named i (hbehind i hi).1
    exact ⟨hne, inst', (accessed.frame.others i (hbehind i hi).2).trans hinst', hname⟩
  · intro i hi
    rw [← h.gives i (hbehind i hi).1]
    unfold Silent
    rw [hadmitted i hi]
  · intro i hi
    rw [← h.lost i (hbehind i hi).1]
    have hfind := accessed.frame.others i (hbehind i hi).2
    constructor
    · rintro ⟨htake, hreleased⟩
      exact ⟨htake, hadmitted i hi ▸ hheld i hi ▸ hreleased.all, hheld i hi ▸ hreleased.within,
        hfind ▸ hreleased.pending⟩
    · rintro ⟨htake, hreleased⟩
      exact ⟨htake, (hadmitted i hi).symm ▸ (hheld i hi).symm ▸ hreleased.all,
        (hheld i hi).symm ▸ hreleased.within, hfind.symm ▸ hreleased.pending⟩

end

/-- What the calls return: the instances that give samples, up to the first that is released. -/
def expected (gives lost : Nat → Prop) [DecidablePred gives] [DecidablePred lost] :
    List Nat → List Nat
  | [] => []
  | handle :: rest =>
    if gives handle then handle :: (if lost handle then [] else expected gives lost rest)
    else expected gives lost rest

variable [DecidablePred gives] [DecidablePred lost]

theorem expected_skip (silent : ∀ h ∈ before, ¬ gives h) :
    expected gives lost (before ++ after) = expected gives lost after := by
  induction before with
  | nil => rfl
  | cons handle rest ih =>
    rw [List.cons_append, expected, if_neg (silent handle List.mem_cons_self)]
    exact ih fun h hh => silent h (List.mem_cons_of_mem _ hh)

theorem split_first (P : Nat → Prop) (rest : List Nat) : (∀ h ∈ rest, ¬ P h) ∨
    ∃ before h after, rest = before ++ h :: after ∧ (∀ i ∈ before, ¬ P i) ∧ P h := by
  induction rest with
  | nil => exact .inl nofun
  | cons handle rest ih =>
    by_cases hP : P handle
    · exact .inr ⟨[], handle, rest, rfl, nofun, hP⟩
    · rcases ih with hnone | ⟨before, h, after, rfl, hbefore, hh⟩
      · exact .inl (List.forall_mem_cons.mpr ⟨hP, hnone⟩)
      · exact .inr ⟨handle :: before, h, after, rfl, List.forall_mem_cons.mpr ⟨hP, hbefore⟩, hh⟩

theorem Ahead.iterates (ready : args.Ready) {rest : List Nat}
    (h : Ahead oper args gives lost c samples cursor rest) :
    Iterates oper args c cursor (expected gives lost rest) := by
  induction hn : rest.length using Nat.strongRecOn generalizing rest c samples cursor with
  | ind n ih =>
    have hcall := nextAccess_eq oper c ready cursor
    rw [h.cursor] at hcall
    have hfound : ∀ i ∈ rest, (c.getHandleInstance i).isSome := by
      intro i hi
      obtain ⟨-, inst, hinst, -⟩ := h.named i hi
      rw [hinst]
      rfl
    have hsilent : ∀ i ∈ rest, ¬ gives i → Silent args c i := fun i hi hnot =>
      not_not.mp (mt (h.gives i hi).mp hnot)
    rcases split_first gives rest with hnone | ⟨before, handle, after, rfl, hbefore, hgives⟩
    · have hpassed : ∃ last, last.cache = c ∧
          nextInstance (visit oper args) (rest ++ []) ⟨.noData, none, c⟩ =
            nextInstance (visit oper args) [] last :=
        nextInstance_append oper h.wf hfound (fun i hi => hsilent i hi (hnone i hi)) rfl
      obtain ⟨last, -, hlast⟩ := hpassed
      rw [List.append_nil] at hlast
      have hempty : expected gives lost rest = [] := by
        rw [← List.append_nil rest, expected_skip hnone]
        rfl
      rw [hempty]
      exact .done (hcall.trans hlast) rfl
    · have hmem : handle ∈ before ++ handle :: after := by simp
      obtain ⟨-, inst, hinst, hname⟩ := h.named handle hmem
      obtain ⟨output, c', hvisit, haccessed⟩ :=
        visit_gives oper h.wf hinst ((h.gives handle hmem).mpr hgives)
      have hpassed : ∃ last, last.cache = c ∧
          nextInstance (visit oper args) (before ++ handle :: after) ⟨.noData, none, c⟩ =
            nextInstance (visit oper args) (handle :: after) last :=
        nextInstance_append oper h.wf (fun i hi => hfound i (List.mem_append_left _ hi))
          (fun i hi => hsilent i (List.mem_append_left _ hi) (hbefore i hi)) rfl
      obtain ⟨last, hlast, heq⟩ := hpassed
      rw [heq, nextInstance, hlast, hvisit] at hcall
      have hgiven : given c args.call.request args.masks [handle] ≠ [] :=
        mt (given_masks rfl handle).mp ((h.gives handle hmem).mpr hgives)
      obtain ⟨-, info, hinfo, hhandle⟩ := haccessed.returned hgiven
      rw [hname] at hhandle
      rw [expected_skip hbefore, expected, if_pos hgives, ← hhandle]
      refine .next hcall rfl rfl hinfo ?_
      rw [hhandle]
      by_cases hlost : lost handle
      · rw [if_pos hlost]
        have hend := nextAccess_eq oper c' ready handle
        rw [h.ends hinst hgives haccessed hlost] at hend
        exact .done hend rfl
      · rw [if_neg hlost]
        exact ih after.length (by simp [← hn]; omega) (h.step hinst hgives haccessed hlost) rfl

theorem expected_sublist (rest : List Nat) :
    (expected gives lost rest).Sublist (rest.filter fun h => gives h) := by
  induction rest with
  | nil => exact List.Sublist.refl _
  | cons handle rest ih =>
    unfold expected
    by_cases hgives : gives handle
    · rw [if_pos hgives, List.filter_cons_of_pos (by simpa using hgives)]
      apply List.Sublist.cons_cons
      split
      · exact List.nil_sublist _
      · exact ih
    · rw [if_neg hgives, List.filter_cons_of_neg (by simpa using hgives)]
      exact ih

theorem expected_eq_iff (rest : List Nat) :
    expected gives lost rest = rest.filter (fun h => gives h) ↔
      ∀ h ∈ (rest.filter fun h => gives h).dropLast, ¬ lost h := by
  induction rest with
  | nil => exact iff_of_true rfl nofun
  | cons handle rest ih =>
    unfold expected
    by_cases hgives : gives handle
    · rw [if_pos hgives, List.filter_cons_of_pos (by simpa using hgives), List.cons_inj_right]
      cases hrest : rest.filter fun h => gives h with
      | nil =>
        have hnone : (expected gives lost rest).Sublist (rest.filter fun h => gives h) :=
          expected_sublist rest
        rw [hrest, List.sublist_nil] at hnone
        refine iff_of_true ?_ nofun
        rw [hnone, ite_self]
      | cons next others =>
        rw [List.dropLast_cons_cons, List.forall_mem_cons, ← hrest, ← ih]
        by_cases hlost : lost handle
        · rw [if_pos hlost]
          refine iff_of_false (fun h => ?_) fun h => h.1 hlost
          rw [hrest] at h
          cases h
        · rw [if_neg hlost]
          exact ⟨fun h => ⟨hlost, h⟩, And.right⟩
    · rw [if_neg hgives, List.filter_cons_of_neg (by simpa using hgives)]
      exact ih

end

/-- The samples of the instance are returned. -/
def Gives (args : Arguments) (c : Cache δ) (handle : Nat) : Prop := ¬ Silent args c handle

/-- The instance is taken and is gone then. -/
def Lost (oper : ReaderCache.Operation) (args : Arguments) (c : Cache δ) (handle : Nat) : Prop :=
  oper = .take ∧ Released c args handle

open SampleRanks (Event Happens Blank)

/-- A step in which a new instance gets a handle, which is not `HANDLE_NIL`. -/
def Numbered (qos : Qos) (c : Cache δ) (event : Event δ) (c' : Cache δ) : Prop :=
  Happens qos c event c' ∧ ∀ msg, event = .received msg → msg.newHandle ≠ 0

def Sound (c : Cache δ) : Prop := ∃ samples, Wf c samples ∧ Addressed c

theorem Sound.step {qos : Qos} {event : Event δ} (sound : Sound c) (h : Numbered qos c event c') :
    Sound c' := by
  obtain ⟨samples, w, haddressed⟩ := sound
  apply SampleRanks.happens_keeps (fun h stays _ => h.stays stays)
    (fun msg hmsg => addressed_keeps qos msg (h.2 msg hmsg)) _ w haddressed h.1
  intro writer _ h
  exact h.restateAll _ fun state => writerBecameDead_handle state qos.lifecycle writer

theorem Blank.sound (h : Blank c) : Sound c := by
  have hnone : ∀ handle, c.getHandleInstance handle = none := by
    intro handle
    unfold getHandleInstance
    rw [h.instances]
    rfl
  obtain ⟨samples, w, -⟩ := h.grown
  refine ⟨samples, w, ?_, ?_, hnone 0⟩
  · intro i inst hinst
    rw [hnone] at hinst
    cases hinst
  · intro i hsome
    rw [hnone] at hsome
    cases hsome

theorem run_sound {qos : Qos} {c₀ : Cache δ} {events : List (Event δ)} (blank : Blank c₀)
    (run : Run c₀ (Numbered qos) events c) : Sound c :=
  run.invariant Sound (Blank.sound blank) fun _ _ _ sound h => sound.step h

theorem offering_count (w : Wf c samples) (addressed : Addressed c) (masks : Masks) (h : Nat) :
    (offering c masks).count h = if c.admitted masks h = [] then 0 else 1 := by
  have hmem : h ∈ offering c masks ↔ c.admitted masks h ≠ [] := by
    unfold offering
    rw [List.mem_filter, decide_eq_true_iff]
    constructor
    · exact And.right
    · intro hsome
      refine ⟨?_, hsome⟩
      cases hinst : c.getHandleInstance h with
      | none =>
        unfold admitted at hsome
        rw [hinst] at hsome
        exact absurd rfl hsome
      | some inst =>
        obtain ⟨entry, hentry, rfl⟩ := addressed.keyed h (by rw [hinst]; rfl)
        exact List.mem_map_of_mem hentry
  have hnodup : (offering c masks).Nodup := w.distinct.filter _
  rw [hnodup.count]
  by_cases hnone : c.admitted masks h = []
  · rw [if_pos hnone, if_neg fun hin => hmem.mp hin hnone]
  · rw [if_neg hnone, if_pos (hmem.mpr hnone)]

theorem Sound.complete_iff {args : Arguments} (sound : Sound c) (ready : args.Ready) :
    Complete oper args c ↔
      (args.limit = 0 → offering c args.masks = []) ∧
        (oper = .take → ∀ h ∈ (offering c args.masks).dropLast, ¬ Released c args h) := by
  classical
  obtain ⟨samples, w, haddressed⟩ := sound
  have hahead : Ahead oper args (Gives args c) (Lost oper args c) c samples 0
      (c.instanceMap.map Prod.snd) := by
    refine ⟨w, if_pos rfl, ⟨[], rfl⟩, ?_, fun _ _ => Iff.rfl, fun _ _ => Iff.rfl⟩
    intro h hh
    obtain ⟨inst, hinst⟩ := Option.isSome_iff_exists.mp (w.found h hh)
    refine ⟨?_, inst, hinst, haddressed.named h inst hinst⟩
    rintro rfl
    rw [haddressed.nonzero] at hinst
    cases hinst
  have hiterates := hahead.iterates ready
  have hcomplete : Complete oper args c ↔
      (expected (Gives args c) (Lost oper args c)
        (c.instanceMap.map Prod.snd)).Perm (offering c args.masks) := by
    rw [List.perm_iff_count]
    constructor
    · rintro ⟨returned, hreturned, hcount⟩ h
      rw [← iterates_unique hreturned hiterates, hcount, offering_count w haddressed]
    · intro hcount
      refine ⟨_, hiterates, fun h => ?_⟩
      rw [hcount, offering_count w haddressed]
  rw [hcomplete]
  by_cases hlimit : args.limit = 0
  · have hnone : expected (Gives args c) (Lost oper args c) (c.instanceMap.map Prod.snd) = [] := by
      rw [← List.append_nil (c.instanceMap.map Prod.snd)]
      exact expected_skip fun h _ => not_not_intro (.inl hlimit)
    rw [hnone, List.nil_perm]
    constructor
    · intro hoffering
      rw [hoffering]
      exact ⟨fun _ => rfl, fun _ => nofun⟩
    · exact fun h => h.1 hlimit
  · have hoffering : (c.instanceMap.map Prod.snd).filter (fun h => Gives args c h) =
        offering c args.masks := by
      apply List.filter_congr
      intro h _
      unfold Gives Silent
      simp only [hlimit, false_or]
    rw [← hoffering]
    have hsub : (expected (Gives args c) (Lost oper args c) (c.instanceMap.map Prod.snd)).Sublist
        ((c.instanceMap.map Prod.snd).filter fun h => Gives args c h) := expected_sublist _
    constructor
    · intro hperm
      have hlost := (expected_eq_iff _).mp (hsub.eq_of_length hperm.length_eq)
      exact ⟨fun h => absurd h hlimit, fun htake h hh hreleased => hlost h hh ⟨htake, hreleased⟩⟩
    · intro hkept
      have hall := (expected_eq_iff _).mpr fun h hh (hlost : Lost oper args c h) =>
        hkept.2 hlost.1 h hh hlost.2
      rw [hall]

/-- In every cache that is reached, the calls return each instance with samples exactly once if and
only if samples may be returned at all and no instance but the last is released when it is taken. -/
theorem iteration_complete_iff {qos : Qos} {c₀ : Cache δ} {events : List (Event δ)}
    {args : Arguments} (blank : Blank c₀) (run : Run c₀ (Numbered qos) events c) (ready : args.Ready) :
    Complete oper args c ↔
      (args.limit = 0 → offering c args.masks = []) ∧
        (oper = .take → ∀ h ∈ (offering c args.masks).dropLast, ¬ Released c args h) :=
  (run_sound blank run).complete_iff ready

open SampleRanks (nothing nothing_blank sampleAt anyState)
open SampleRetention (oneEach)

def otherSample : Message Nat := { sampleAt 12 with key := 2, pub := 2 }

def oneInstance : Cache Nat := (nothing.dataReceived oneEach (sampleAt 10)).toOption.getD nothing

def twoInstances : Cache Nat := (oneInstance.dataReceived oneEach otherSample).toOption.getD nothing

def bereft : Cache Nat := twoInstances.instancesLivelinessUpdate oneEach 1

theorem bereft_run : ∃ events, Run nothing (Numbered oneEach) events bereft := by
  have hfirst : Numbered oneEach nothing (.received (sampleAt 10)) oneInstance :=
    ⟨⟨⟨rfl, rfl, rfl, by decide⟩, rfl⟩, by rintro _ ⟨⟩; decide⟩
  have hsecond : Numbered oneEach oneInstance (.received otherSample) twoInstances :=
    ⟨⟨⟨rfl, rfl, rfl, by decide⟩, rfl⟩, by rintro _ ⟨⟩; decide⟩
  have hdead : Numbered oneEach twoInstances (.writerDead 1) bereft := by
    constructor
    · rw [Happens, bereft]
    · rintro msg ⟨⟩
  exact ⟨_, ((Run.start.next hfirst).next hsecond).next hdead⟩

def allSamples : Arguments := ⟨⟨0, 0, 5, true, 0⟩, lengthUnlimited, anyState, false⟩

theorem allSamples_ready : allSamples.Ready := rfl

/-- A read returns both instances. -/
theorem iteration_complete_read : Complete .read allSamples bereft := by
  obtain ⟨events, hrun⟩ := bereft_run
  exact (iteration_complete_iff nothing_blank hrun allSamples_ready).mpr
    ⟨fun h => absurd h (by decide), nofun⟩

/-- A take returns the instance that has lost its writer, and then nothing, although there is a
sample of the other. -/
theorem take_ends_early : ¬ ∀ (oper : ReaderCache.Operation) (args : Arguments) (qos : Qos)
    (c₀ c : Cache Nat) (events : List (Event Nat)), Blank c₀ → Run c₀ (Numbered qos) events c →
    args.Ready → Complete oper args c := by
  intro hclaim
  obtain ⟨events, hrun⟩ := bereft_run
  have hcomplete := hclaim .take allSamples oneEach nothing bereft events nothing_blank hrun
    allSamples_ready
  have hkept := ((run_sound nothing_blank hrun).complete_iff allSamples_ready).mp hcomplete
  have hfirst : 10 ∈ (offering bereft allSamples.masks).dropLast := by decide +kernel
  exact hkept.2 rfl 10 hfirst ⟨by decide +kernel, by decide +kernel, _, rfl, rfl, rfl⟩

end OpenDDS.Guarantees.InstanceIteration
