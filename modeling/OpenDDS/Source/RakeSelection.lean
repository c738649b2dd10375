import OpenDDS.Source.RakeResults

/-!
# What is selected

The samples of an instance that the masks admit, numbered as they are met, and those of them that
the query condition lets through. Where its filter is defined, gathering gives the first of them in
their order; where it is not, gathering fails.
-/
namespace OpenDDS.Source.ReaderCache
open Library.LinkedList Library.Folds Cache

variable {δ : Type} {c : Cache δ} {samples : Nat → List Nat} {handle : Nat} {req : Request δ}
  {masks : Masks} {rd : RakeData}

namespace Cache

variable (c : Cache δ)

/-- The samples of an instance that the masks admit. -/
def admitted (masks : Masks) (handle : Nat) : List Nat :=
  match c.getHandleInstance handle with
  | none => []
  | some inst =>
    if masks.admitsInstance inst.instanceState then
      ((walk c.links.nextDataSample inst.rcvdSamples.size.toNat inst.rcvdSamples.head).getD []).filter
        fun item => masks.admitsSample (c.element item)
    else []

def numbered (masks : Masks) (handle : Nat) : List RakeData :=
  ((c.admitted masks handle).zipIdx 1).map fun n => ⟨n.1, handle, n.2⟩

/-- The filter and, where the samples are sorted by a query condition, the demand for data. -/
def selects (req : Request δ) (rd : RakeData) : Bool :=
  (match req.cond.bind QueryCondition.filter, (c.element rd.rde).registeredData with
    | none, _ => true
    | some _, none => false
    | some filter, some data => filter data) &&
  !(req.doSort && req.cond.isSome && (c.element rd.rde).registeredData.isNone)

/-- The samples of the instances that the masks and the query condition let through, as they are
met. -/
def matching (req : Request δ) (masks : Masks) (handles : List Nat) : List RakeData :=
  (handles.flatMap (c.numbered masks)).filter (c.selects req)

def inOrder (req : Request δ) (list : List RakeData) : List RakeData :=
  if req.doSort then list.foldl (fun sorted rd => c.insertSorted req rd sorted) [] else list

/-- What is collected of the samples `list`. -/
def collected (req : Request δ) (list : List RakeData) : Results :=
  if req.doSort then ⟨c.inOrder req (list.filter (c.selects req)), []⟩
  else ⟨[], (list.filter (c.selects req)).take req.limit⟩

end Cache

/-- The filter is defined on all samples that the masks admit. -/
def FilterTotal (c : Cache δ) (req : Request δ) (masks : Masks) (handles : List Nat) : Prop :=
  ∀ handle ∈ handles, ∀ a ∈ c.admitted masks handle, FilterDefined c req a

theorem admitted_eq (w : Wf c samples) {inst : SubscriptionInstance}
    (found : c.getHandleInstance handle = some inst)
    (hmasks : masks.admitsInstance inst.instanceState = true) :
    c.admitted masks handle =
      (samples handle).filter fun item => masks.admitsSample (c.element item) := by
  have hwalk := (w.lists handle inst found).walk
  simp only [admitted, found, hmasks, if_true, hwalk, Option.getD_some]

theorem admitted_sublist (w : Wf c samples) (masks : Masks) (handle : Nat) :
    (c.admitted masks handle).Sublist (samples handle) := by
  unfold admitted
  split
  · exact List.nil_sublist _
  · rename_i inst hinst
    split
    · rw [(w.lists handle inst hinst).walk]
      exact List.filter_sublist
    · exact List.nil_sublist _

theorem mem_numbered (h : rd ∈ c.numbered masks handle) : rd.rde ∈ c.admitted masks handle := by
  obtain ⟨n, hn, rfl⟩ := List.mem_map.mp h
  exact List.fst_mem_of_mem_zipIdx hn

theorem exists_numbered {a : Nat} (h : a ∈ c.admitted masks handle) :
    ∃ rd ∈ c.numbered masks handle, rd.rde = a := by
  have hin : a ∈ ((c.admitted masks handle).zipIdx 1).map Prod.fst := by
    rwa [List.zipIdx_map_fst]
  obtain ⟨n, hn, rfl⟩ := List.mem_map.mp hin
  exact ⟨_, List.mem_map_of_mem hn, rfl⟩

theorem insertInstance_eq (w : Wf c samples) (found : (c.getHandleInstance handle).isSome)
    (results : Results) :
    c.insertInstance req masks results handle =
      (c.numbered masks handle).foldlM (c.insertSample req) results := by
  obtain ⟨inst, hinst⟩ := Option.isSome_iff_exists.mp found
  have hwalk := (w.lists handle inst hinst).walk
  unfold insertInstance numbered
  rw [deref_eq_ok hinst]
  dsimp only [bind, Except.bind]
  by_cases hmasks : masks.admitsInstance inst.instanceState = true
  · rw [if_pos hmasks, hwalk, admitted_eq w hinst hmasks, List.foldlM_map]
  · rw [if_neg hmasks, admitted, hinst]
    simp only [hmasks]
    rfl

theorem passes_eq (h : FilterDefined c req rd.rde) :
    c.passes req rd = .ok (match req.cond.bind QueryCondition.filter,
      (c.element rd.rde).registeredData with
      | none, _ => true
      | some _, none => false
      | some filter, some data => filter data) := by
  unfold passes
  unfold FilterDefined at h
  cases hfilter : req.cond.bind QueryCondition.filter with
  | none => rfl
  | some filter =>
    rw [hfilter] at h
    obtain ⟨data, hdata⟩ := Option.isSome_iff_exists.mp (h rfl)
    rw [hdata]

theorem place_collected (list : List RakeData) (data : c.selects req rd = true) :
    c.place req (c.collected req list) rd = c.collected req (list ++ [rd]) := by
  have hfilter : (list ++ [rd]).filter (c.selects req) = list.filter (c.selects req) ++ [rd] := by
    rw [List.filter_append, List.filter_singleton, data]
    rfl
  unfold place collected
  rw [hfilter]
  cases hsort : req.doSort with
  | true =>
    have hdata : ¬ (req.cond.isSome && (c.element rd.rde).registeredData.isNone) = true := by
      intro hnone
      unfold selects at data
      rw [hsort, Bool.true_and, hnone] at data
      simp at data
    rw [if_pos rfl, if_neg hdata]
    simp only [inOrder, hsort, if_true, List.foldl_append, List.foldl_cons, List.foldl_nil]
  | false =>
    simp only [if_false, Bool.false_eq_true]
    generalize list.filter (c.selects req) = found
    by_cases hfull : found.length < req.limit
    · have hshort : ¬ (found.take req.limit).length = req.limit := by
        rw [List.length_take]
        omega
      rw [if_neg hshort, List.take_of_length_le (by omega),
        List.take_of_length_le (by rw [List.length_append, List.length_singleton]; omega)]
    · have hlong : (found.take req.limit).length = req.limit := by
        rw [List.length_take]
        omega
      rw [if_pos hlong, List.take_append_of_le_length (by omega)]

theorem insertSample_collected (h : FilterDefined c req rd.rde) (list : List RakeData) :
    c.insertSample req (c.collected req list) rd = .ok (c.collected req (list ++ [rd])) := by
  have hskip : c.selects req rd = false →
      c.collected req (list ++ [rd]) = c.collected req list := by
    intro hselects
    unfold collected
    rw [List.filter_append, List.filter_singleton, hselects]
    simp
  unfold insertSample
  rw [passes_eq h]
  dsimp only [bind, Except.bind]
  by_cases hpassed : (match req.cond.bind QueryCondition.filter,
      (c.element rd.rde).registeredData with
      | none, _ => true
      | some _, none => false
      | some filter, some data => filter data) = true
  · rw [if_pos hpassed]
    by_cases hselects : c.selects req rd = true
    · rw [place_collected list hselects]
    · rw [Bool.not_eq_true] at hselects
      rw [hskip hselects]
      unfold selects at hselects
      rw [hpassed, Bool.true_and, Bool.not_eq_false', Bool.and_assoc, Bool.and_eq_true] at hselects
      unfold place
      rw [if_pos hselects.1, if_pos hselects.2]
  · rw [if_neg hpassed, hskip]
    unfold selects
    rw [Bool.not_eq_true] at hpassed
    rw [hpassed, Bool.false_and]

theorem gather_eq (w : Wf c samples) {handles : List Nat}
    (found : ∀ h ∈ handles, (c.getHandleInstance h).isSome)
    (total : FilterTotal c req masks handles) :
    c.gather req masks handles = .ok (c.collected req (handles.flatMap (c.numbered masks))) := by
  have hempty : c.collected req [] = ⟨[], []⟩ := by
    unfold collected inOrder
    simp
  have hloop : ∃ results, c.gather req masks handles = .ok results ∧
      results = c.collected req (handles.flatMap (c.numbered masks)) := by
    apply foldlM_total (fun done results =>
      results = c.collected req (done.flatMap (c.numbered masks)))
    · exact hempty.symm
    · intro done handle rest results hsplit hresults
      have hin : handle ∈ handles := by simp [hsplit]
      rw [insertInstance_eq w (found handle hin), hresults, List.flatMap_append,
        List.flatMap_singleton]
      apply foldlM_total (fun seen results =>
        results = c.collected req (done.flatMap (c.numbered masks) ++ seen))
      · rw [List.append_nil]
      · intro seen rd later results hnumbered hcollected
        have hrd : rd ∈ c.numbered masks handle := by simp [hnumbered]
        refine ⟨_, ?_, rfl⟩
        rw [hcollected, insertSample_collected (total handle hin _ (mem_numbered hrd)),
          List.append_assoc]
  obtain ⟨results, hok, rfl⟩ := hloop
  exact hok

theorem chosen_collected (handles : List Nat) :
    chosen req (c.collected req (handles.flatMap (c.numbered masks))) =
      (c.inOrder req (c.matching req masks handles)).take req.limit := by
  unfold chosen collected matching
  cases hsort : req.doSort with
  | true => rfl
  | false =>
    simp only [Bool.false_eq_true, if_false, inOrder, hsort, List.take_take, Nat.min_self]

theorem inOrder_perm (list : List RakeData) : (c.inOrder req list).Perm list := by
  unfold inOrder
  split
  · induction list using List.reverseRecOn with
    | nil => exact List.Perm.refl []
    | append_singleton list rd ih =>
      rw [List.foldl_concat]
      refine (insertSorted_perm c req rd _).trans ?_
      exact (ih.cons rd).trans (List.perm_append_singleton rd list).symm
  · exact List.Perm.refl list

theorem gather_error (w : Wf c samples) {handles : List Nat}
    (found : ∀ h ∈ handles, (c.getHandleInstance h).isSome)
    (undefined : ¬ FilterTotal c req masks handles) :
    ∃ fault, c.gather req masks handles = .error fault := by
  unfold FilterTotal at undefined
  push Not at undefined
  obtain ⟨handle, hhandle, a, ha, hfilter⟩ := undefined
  obtain ⟨rd, hrd, rfl⟩ := exists_numbered ha
  apply foldlM_error hhandle
  intro results
  rw [insertInstance_eq w (found handle hhandle)]
  apply foldlM_error hrd
  intro results
  unfold FilterDefined at hfilter
  push Not at hfilter
  obtain ⟨filter, hfilter, hdata⟩ : ∃ filter, req.cond.bind QueryCondition.filter = some filter ∧
      (c.element rd.rde).registeredData = none := by
    obtain ⟨filter, hsome⟩ := Option.isSome_iff_exists.mp hfilter.1
    exact ⟨filter, hsome, by simpa using hfilter.2⟩
  refine ⟨.nullData, ?_⟩
  unfold insertSample passes
  rw [hfilter, hdata]
  rfl

theorem FilterTotal.defined (w : Wf c samples) {handles : List Nat}
    (total : FilterTotal c req masks handles) : Defined c samples req masks handles := by
  intro handle hhandle inst found hmasks a ha hadmits
  apply total handle hhandle
  rw [admitted_eq w found hmasks]
  exact List.mem_filter.mpr ⟨ha, hadmits⟩

end OpenDDS.Source.ReaderCache
