import OpenDDS.Guarantees.SamplePlacement

/-!
# What the resource limits evict

When a container holds as many samples as it may, `obtain_buffer` takes the oldest sample of each
instance that is full, then of each that has more than one, until one of them is released. A sample
that is still being sent leaves its instance without being released, so the loops go on although
there is room: what is evicted are the candidates up to and including the first that is not being
sent.
-/
namespace OpenDDS.Guarantees.ResourceEviction

open Library Library.LinkedList Source Source.Container Source.DataWriter SamplePlacement

def queueOf (c : Container) (i : PublicationInstance) : List Nat :=
  (walk c.elements.nextInstanceSample c.fuel i.samples.head).getD []

/-- What is left of a list of samples when the full ones have lost their oldest. -/
def trimmed (depth : Nat) (samples : List Nat) : List Nat :=
  if samples.length = depth then samples.tail else samples

def oldestIf (full : Nat → Bool) (samples : List Nat) : Option Nat :=
  if full samples.length then samples.head? else none

/-- The samples that the loops take, in their order, if none is released. -/
def candidates (limits : ContainerLimits) (c : Container) : List Nat :=
  c.instances.filterMap (fun i => oldestIf (· = limits.depth) (queueOf c i)) ++
    c.instances.filterMap fun i => oldestIf (1 < ·) (trimmed limits.depth (queueOf c i))

def upTo (stays : Nat → Bool) : List Nat → List Nat
  | [] => []
  | a :: rest => a :: if stays a then upTo stays rest else []

/-- The candidates up to and including the first that is not being sent. -/
def evictions (limits : ContainerLimits) (c : Container) : List Nat :=
  upTo (· ∈ samplesOf c .sending) (candidates limits c)

def samplesIn (counted : Nat → Bool) (c : Container) : Int :=
  ((c.instances.filter fun i => counted i.instanceHandle).map (·.samples.size)).sum

/-- `obtain_buffer` reaches the loops with the container `c₁`. -/
structure Enters (limits : ContainerLimits) (element handle : Nat) (c c₁ : Container) : Prop where
  kept : ∃ i ∈ c.getHandleInstance handle, ∃ oldestReleased,
    (c.allocate element handle).keepDepth limits i = some (.ok, oldestReleased, c₁)
  limited : limits.maxNumSamples > 0 ∧ c₁.numAllSamples ≥ limits.maxNumSamples
  shared : limits.maxNumInstances > 0 ∧ oversubscribed limits = true

variable {limits : ContainerLimits} {c c' c₁ : Container} {p p' : Placement} {a handle : Nat}

theorem samplesIn_all (c : Container) : samplesIn (fun _ => true) c = c.numAllSamples := by
  rw [samplesIn, numAllSamples, List.filter_true]

variable {ns : List Nat}

theorem sum_map_take_one {f g : Nat → Int} {m : Nat} (nodup : ns.Nodup)
    (hother : ∀ n, n ≠ m → g n = f n) (hone : g m + 1 = f m) :
    (ns.map g).sum + (if m ∈ ns then 1 else 0) = (ns.map f).sum := by
  induction ns with
  | nil => rfl
  | cons n ns ih =>
    obtain ⟨hn, hnodup⟩ := List.nodup_cons.mp nodup
    have hrest := ih hnodup
    simp only [List.map_cons, List.sum_cons, List.mem_cons]
    by_cases hm : m = n
    · subst hm
      rw [if_neg hn] at hrest
      omega
    · rw [hother n (Ne.symm hm)]
      simp only [hm, false_or]
      omega

theorem samplesIn_eq (counted : Nat → Bool) (h : c.Settled limits p) :
    samplesIn counted c =
      ((c.handles.filter counted).map fun n => ((p.queues (n, .samples)).length : Int)).sum := by
  rw [samplesIn, handles, List.filter_map, List.map_map]
  congr 1
  apply List.map_congr_left
  intro i hi
  exact (h.keeps i (List.mem_of_mem_filter hi) .samples).size

theorem samplesIn_evict (counted : Nat → Bool) (h : c.Settled limits p) (h' : c'.Settled limits p')
    (hev : Evicts [a] c c' p p') (hactive : p.Active a) :
    samplesIn counted c' + (if counted (c.elements.handle a) then 1 else 0) = samplesIn counted c := by
  have hmem : a ∈ p.queues (c.elements.handle a, .samples) := (h.owned _ a).mpr ⟨rfl, hactive⟩
  have hqueue : ∀ n, p'.queues (n, .samples) = (p.queues (n, .samples)).erase a := by
    intro n
    rw [hev.samples, (h.queues.nodup _).erase_eq_filter]
    apply List.filter_congr
    intro x _
    by_cases hx : x = a <;> simp [hx]
  have hnodup : (c.handles.filter counted).Nodup := h.handles.filter counted
  have hin : c.elements.handle a ∈ c.handles.filter counted ↔ counted (c.elements.handle a) = true := by
    rw [List.mem_filter]
    exact and_iff_right (h.registered a hactive)
  rw [samplesIn_eq counted h, samplesIn_eq counted h', hev.handles,
    ← sum_map_take_one (f := fun n => ((p.queues (n, .samples)).length : Int))
      (g := fun n => ((p'.queues (n, .samples)).length : Int)) hnodup (m := c.elements.handle a)]
  · simp only [hin]
  · intro n hn
    have hnot : a ∉ p.queues (n, .samples) := fun hin => hn ((h.owned n a).mp hin).1.symm
    rw [hqueue, List.erase_of_not_mem hnot]
  · have hpos := List.length_pos_of_mem hmem
    rw [hqueue, List.length_erase_of_mem hmem]
    omega

/-- What a loop over the instances would take, in the terms of a placement. -/
def takes (full : Nat → Bool) (p : Placement) (ns : List Nat) : List Nat :=
  ns.filterMap fun n => oldestIf full (p.queues (n, .samples))

theorem removeFromOthers_released (full : PublicationInstance → Bool) (ns : List Nat)
    (ret : ReturnCode) : removeFromOthers full ns ret true c = some (ret, true, c) := by
  cases ns with
  | nil => rfl
  | cons n ns => rw [removeFromOthers, if_pos rfl]

variable {xs : List Nat}

theorem upTo_congr {stays stays' : Nat → Bool} (h : ∀ x ∈ xs, stays x = stays' x) :
    upTo stays xs = upTo stays' xs := by
  induction xs with
  | nil => rfl
  | cons x xs ih =>
    rw [upTo, upTo, h x List.mem_cons_self, ih fun y hy => h y (List.mem_cons_of_mem _ hy)]

theorem all_congr_mem {stays stays' : Nat → Bool} (h : ∀ x ∈ xs, stays x = stays' x) :
    xs.all stays = xs.all stays' := by
  induction xs with
  | nil => rfl
  | cons x xs ih =>
    rw [List.all_cons, List.all_cons, h x List.mem_cons_self,
      ih fun y hy => h y (List.mem_cons_of_mem _ hy)]

theorem upTo_append (stays : Nat → Bool) (xs ys : List Nat) :
    upTo stays (xs ++ ys) = if xs.all stays then xs ++ upTo stays ys else upTo stays xs := by
  induction xs with
  | nil => rfl
  | cons x xs ih =>
    rw [List.cons_append, upTo, upTo, ih, List.all_cons]
    cases stays x with
    | true => cases xs.all stays <;> rfl
    | false => rfl

theorem upTo_of_all {stays : Nat → Bool} (h : xs.all stays = true) : upTo stays xs = xs := by
  have happend := upTo_append stays xs []
  rw [List.append_nil, if_pos h] at happend
  exact happend.trans (List.append_nil _)

variable {full : Nat → Bool}

theorem mem_takes {x : Nat} (h : x ∈ takes full p ns) :
    ∃ n ∈ ns, full (p.queues (n, .samples)).length = true ∧ (p.queues (n, .samples)).head? = some x := by
  obtain ⟨n, hn, hx⟩ := List.mem_filterMap.mp h
  unfold oldestIf at hx
  split at hx
  next hfull => exact ⟨n, hn, hfull, hx⟩
  next => cases hx

theorem takes_evict (h : c.Settled limits p) (hev : Evicts [a] c c' p p')
    (hns : c.elements.handle a ∉ ns) : takes full p' ns = takes full p ns := by
  apply List.filterMap_congr
  intro n hn
  have hnot : a ∉ p.queues (n, .samples) := fun hin => hns (((h.owned n a).mp hin).1 ▸ hn)
  have hsame : (p.queues (n, .samples)).filter (· ∉ [a]) = p.queues (n, .samples) := by
    apply List.filter_eq_self.mpr
    intro x hx
    simp only [List.mem_singleton, decide_eq_true_eq]
    exact fun heq => hnot (heq ▸ hx)
  rw [hev.samples, hsame]

/-- `evicted` leave their instances, and nothing else. -/
structure Takes (limits : ContainerLimits) (evicted : List Nat) (c c' : Container)
    (p p' : Placement) : Prop where
  settled : c'.Settled limits p'
  evicts : Evicts evicted c c' p p'
  count : ∀ counted : Nat → Bool, samplesIn counted c' +
    (evicted.countP fun a => counted (c.elements.handle a) : Nat) = samplesIn counted c

theorem Takes.none (h : c.Settled limits p) : Takes limits [] c c p p where
  settled := h
  evicts := Evicts.refl
  count counted := by rw [List.countP_nil]; exact Int.add_zero _

theorem Takes.trans {es es' : List Nat} {c'' : Container} {p'' : Placement}
    (h : Takes limits es c c' p p') (h' : Takes limits es' c' c'' p' p'') :
    Takes limits (es ++ es') c c'' p p'' where
  settled := h'.settled
  evicts := h.evicts.trans h'.evicts
  count counted := by
    have hfirst := h.count counted
    have hsecond := h'.count counted
    rw [h.evicts.handle] at hsecond
    rw [List.countP_append]
    omega

theorem Takes.one (h : c.Settled limits p) (h' : c'.Settled limits p')
    (hev : Evicts [a] c c' p p') (hactive : p.Active a) : Takes limits [a] c c' p p' where
  settled := h'
  evicts := hev
  count counted := by
    have hone := samplesIn_evict counted h h' hev hactive
    rw [List.countP_singleton]
    split at hone
    next htrue => rw [if_pos htrue]; exact hone
    next hfalse => rw [if_neg hfalse]; exact hone

theorem removeFromOthers_takes {sel : PublicationInstance → Bool}
    (hsel : ∀ (i : PublicationInstance) (n : Nat), i.samples.size = n → sel i = full n)
    (nodup : ns.Nodup) (sub : ∀ n ∈ ns, n ∈ c.handles) (ret : ReturnCode) (h : c.Settled limits p) :
    ∃ ret' c' p', removeFromOthers sel ns ret false c =
        some (ret', !(takes full p ns).all (· ∈ p.lists .sending), c') ∧
      Takes limits (upTo (· ∈ p.lists .sending) (takes full p ns)) c c' p p' := by
  induction ns generalizing ret c p with
  | nil => exact ⟨ret, c, p, rfl, Takes.none h⟩
  | cons n ns ih =>
    obtain ⟨hn, hnodup⟩ := List.nodup_cons.mp nodup
    obtain ⟨i, hi, rfl⟩ := exists_instance (sub n List.mem_cons_self)
    have hrest : ∀ m ∈ ns, m ∈ c.handles := fun m hm => sub m (List.mem_cons_of_mem _ hm)
    have hsize : sel i = full (p.queues (i.instanceHandle, .samples)).length :=
      hsel i _ (h.keeps i hi .samples).size
    have hfind := h.getHandleInstance hi
    have hskip : oldestIf full (p.queues (i.instanceHandle, .samples)) = none →
        takes full p (i.instanceHandle :: ns) = takes full p ns :=
      fun hnone => List.filterMap_cons_none hnone
    cases hfull : full (p.queues (i.instanceHandle, .samples)).length with
    | false =>
      rw [hskip (by rw [oldestIf, hfull]; rfl)]
      obtain ⟨ret', c', p', heq, htakes⟩ := ih hnodup hrest ret h
      refine ⟨ret', c', p', ?_, htakes⟩
      rw [removeFromOthers, if_neg Bool.false_ne_true, hfind, Option.bind_eq_bind, Option.bind_some,
        hsize, hfull, if_neg Bool.false_ne_true]
      exact heq
    | true =>
      have hstep : removeFromOthers sel (i.instanceHandle :: ns) ret false c =
          (c.removeOldestSample i.instanceHandle false).bind fun r =>
            removeFromOthers sel ns r.1 r.2.1 r.2.2 := by
        rw [removeFromOthers, if_neg Bool.false_ne_true, hfind, Option.bind_eq_bind,
          Option.bind_some, hsize, hfull, if_pos rfl]
        rfl
      cases hxs : p.queues (i.instanceHandle, .samples) with
      | nil =>
        rw [hskip (by rw [hxs, oldestIf, List.head?_nil, ite_self])]
        obtain ⟨ret', c', p', heq, htakes⟩ := ih hnodup hrest .error h
        refine ⟨ret', c', p', ?_, htakes⟩
        have hhead : i.samples.head = none := by
          have hkeeps := (h.keeps i hi .samples).head
          rwa [hxs] at hkeeps
        have hremove : c.removeOldestSample i.instanceHandle false = some (.error, false, c) := by
          simp [removeOldestSample, hfind, hhead]
        rw [hstep, hremove]
        exact heq
      | cons a xs =>
        obtain ⟨howner, hactive⟩ := (h.owned _ a).mp (hxs ▸ List.mem_cons_self)
        obtain ⟨c₁, p₁, hremove, h₁, hev⟩ := removeOldestSample_spec false h hi hxs
        have hone := Takes.one h h₁ hev hactive
        have htakes : takes full p (i.instanceHandle :: ns) = a :: takes full p ns := by
          apply List.filterMap_cons_some
          rw [oldestIf, hfull, hxs]
          rfl
        rw [hstep, hremove, htakes, upTo, List.all_cons]
        by_cases hsending : a ∈ p.lists .sending
        · have hrest₁ : ∀ m ∈ ns, m ∈ c₁.handles := fun m hm => hev.handles ▸ hrest m hm
          have hsame : takes full p₁ ns = takes full p ns := takes_evict h hev (howner ▸ hn)
          have hstays : ∀ x ∈ takes full p ns,
              decide (x ∈ p₁.lists .sending) = decide (x ∈ p.lists .sending) := by
            intro x hx
            obtain ⟨m, hm, _, hhead⟩ := mem_takes hx
            have hne : x ≠ a := by
              rintro rfl
              have hin := (h.owned m x).mp (List.mem_of_head? hhead)
              exact hn (howner ▸ hin.1 ▸ hm)
            rw [hev.sending]
            simp [hne]
          obtain ⟨ret', c', p', heq, hmore⟩ := ih hnodup hrest₁ .ok h₁
          rw [hsame, all_congr_mem hstays] at heq
          rw [hsame, upTo_congr hstays] at hmore
          refine ⟨ret', c', p', ?_, ?_⟩
          · simpa [hsending] using heq
          · simpa [hsending] using hone.trans hmore
        · refine ⟨.ok, c₁, p₁, ?_, ?_⟩
          · simpa [hsending] using removeFromOthers_released sel ns .ok
          · simpa [hsending] using hone

/-- What the second loop would take, in the terms of the placement before the first. -/
def takesTrimmed (depth : Nat) (p : Placement) (ns : List Nat) : List Nat :=
  ns.filterMap fun n => oldestIf (1 < ·) (trimmed depth (p.queues (n, .samples)))

theorem queueOf_eq {i : PublicationInstance} (h : c.Settled limits p) (hi : i ∈ c.instances) :
    queueOf c i = p.queues (i.instanceHandle, .samples) := by
  have hkeeps := h.keeps i hi .samples
  have hhead : i.samples.head = _ := hkeeps.head
  rw [queueOf, hhead, walk_path hkeeps.forward (h.queue_length_le _), Option.getD_some]

theorem filterMap_queueOf {f : List Nat → Option Nat} (h : c.Settled limits p) :
    c.instances.filterMap (fun i => f (queueOf c i)) =
      c.handles.filterMap fun n => f (p.queues (n, .samples)) := by
  rw [handles, List.filterMap_map]
  apply List.filterMap_congr
  intro i hi
  rw [queueOf_eq h hi]
  rfl

theorem candidates_eq (limits₀ : ContainerLimits) (h : c.Settled limits p) :
    candidates limits₀ c = takes (· = limits₀.depth) p c.handles ++
      takesTrimmed limits₀.depth p c.handles := by
  rw [candidates, filterMap_queueOf h, takes, takesTrimmed]
  congr 1
  exact filterMap_queueOf (f := fun samples => oldestIf (1 < ·) (trimmed limits₀.depth samples)) h

theorem samples_trimmed {depth n : Nat} (h : c.Settled limits p) (hn : n ∈ c.handles) :
    (p.queues (n, .samples)).filter (· ∉ takes (· = depth) p c.handles) =
      trimmed depth (p.queues (n, .samples)) := by
  have hhead : ∀ x ∈ p.queues (n, .samples), x ∈ takes (· = depth) p c.handles ↔
      (p.queues (n, .samples)).length = depth ∧ (p.queues (n, .samples)).head? = some x := by
    intro x hx
    constructor
    · intro hmem
      obtain ⟨m, _, hfull, hm⟩ := mem_takes hmem
      have hkey := h.queues.unique (List.mem_of_head? hm) hx
      obtain rfl : m = n := (Prod.mk.inj hkey).1
      exact ⟨of_decide_eq_true hfull, hm⟩
    · rintro ⟨hfull, hm⟩
      refine List.mem_filterMap.mpr ⟨n, hn, ?_⟩
      rw [oldestIf, if_pos (decide_eq_true hfull)]
      exact hm
  unfold trimmed
  split
  next hfull =>
    cases hxs : p.queues (n, .samples) with
    | nil => rfl
    | cons a xs =>
      rw [hxs] at hhead hfull
      have hnodup : (a :: xs).Nodup := hxs ▸ h.queues.nodup (n, .samples)
      have hmem := (hhead a List.mem_cons_self).mpr ⟨hfull, rfl⟩
      rw [List.filter_cons_of_neg (by simpa using hmem), List.tail_cons]
      apply List.filter_eq_self.mpr
      intro x hx
      rw [decide_eq_true_eq, hhead x (List.mem_cons_of_mem _ hx)]
      rintro ⟨_, heq⟩
      cases heq
      exact (List.nodup_cons.mp hnodup).1 hx
  next hfull =>
    apply List.filter_eq_self.mpr
    intro x hx
    rw [decide_eq_true_eq, hhead x hx]
    exact fun hboth => hfull hboth.1

/-- The loops of `obtain_buffer` take the candidates up to and including the first one that is not
being sent. -/
theorem makeRoom_takes (limits₀ : ContainerLimits) (h : c.Settled limits p) :
    ∃ ret c' p', c.makeRoom limits₀ = some (ret, c') ∧
      Takes limits (evictions limits₀ c) c c' p p' := by
  have hsizes : ∀ (i : PublicationInstance) (n : Nat), i.samples.size = n →
      decide (i.samples.size = limits₀.depth) = decide (n = limits₀.depth) := by
    intro i n hi
    exact decide_eq_decide.mpr (by omega)
  have hmore : ∀ (i : PublicationInstance) (n : Nat), i.samples.size = n →
      decide (i.samples.size > 1) = decide (1 < n) := by
    intro i n hi
    exact decide_eq_decide.mpr (by omega)
  have hnodup : c.handles.Nodup := h.handles
  obtain ⟨ret₁, c₁, p₁, heq₁, htakes₁⟩ :=
    removeFromOthers_takes hsizes hnodup (fun n hn => hn) .ok h
  have hroom : c.makeRoom limits₀ = (removeFromOthers (fun i => i.samples.size > 1) c.handles ret₁
      (!(takes (· = limits₀.depth) p c.handles).all (· ∈ p.lists .sending)) c₁).bind
        fun r => some (r.1, r.2.2) := by
    exact congrArg (Option.bind · _) heq₁
  rw [hroom, evictions, candidates_eq limits₀ h, samplesOf_eq h, upTo_append]
  cases hall : (takes (· = limits₀.depth) p c.handles).all (· ∈ p.lists .sending) with
  | false =>
    refine ⟨ret₁, c₁, p₁, ?_, htakes₁⟩
    rw [Bool.not_false, removeFromOthers_released]
    rfl
  | true =>
    rw [upTo_of_all hall] at htakes₁
    have htrimmed : takes (1 < ·) p₁ c.handles = takesTrimmed limits₀.depth p c.handles := by
      apply List.filterMap_congr
      intro n hn
      rw [htakes₁.evicts.samples, samples_trimmed h hn]
    have hstays : ∀ x ∈ takesTrimmed limits₀.depth p c.handles,
        decide (x ∈ p₁.lists .sending) = decide (x ∈ p.lists .sending) := by
      intro x hx
      rw [← htrimmed] at hx
      obtain ⟨n, _, _, hhead⟩ := mem_takes hx
      have hin := List.mem_of_head? hhead
      rw [htakes₁.evicts.samples, List.mem_filter, decide_eq_true_eq] at hin
      rw [htakes₁.evicts.sending]
      simp [hin.2]
    have hsub : ∀ n ∈ c.handles, n ∈ c₁.handles := fun n hn => htakes₁.evicts.handles ▸ hn
    obtain ⟨ret₂, c₂, p₂, heq₂, htakes₂⟩ :=
      removeFromOthers_takes hmore hnodup hsub ret₁ htakes₁.settled
    rw [htrimmed, upTo_congr hstays] at htakes₂
    refine ⟨ret₂, c₂, p₂, ?_, htakes₁.trans htakes₂⟩
    exact congrArg (Option.bind · _) heq₂

theorem Enters.settled {limits₀ : ContainerLimits} (h : c.Settled limits p) (fresh : a ∉ c.allocated)
    (hhandle : handle ∈ c.handles) (enters : Enters limits₀ a handle c c₁) :
    ∃ p₁, c₁.Settled limits p₁ := by
  obtain ⟨i, hfound, oldestReleased, hkeep⟩ := enters.kept
  obtain ⟨hi, rfl⟩ := getHandleInstance_some hfound
  have h₀ := (h.allocate fresh hhandle).1
  unfold keepDepth at hkeep
  split_ifs at hkeep
  · cases hkeep
  · obtain ⟨ret, released, c', p', es, heq, h', _⟩ :=
      removeOldestSample_settled true h₀ hhandle
    rw [heq] at hkeep
    cases hkeep
    exact ⟨p', h'⟩
  · cases hkeep
    exact ⟨p, h₀⟩

/-- However the samples are counted, those of all instances or those of the others only: the loops
remove no more than there are too many if and only if the candidates up to the first that is not
being sent are no more. -/
theorem evictions_bounded_iff {limits₀ : ContainerLimits} (h : c.Settled limits p)
    (fresh : a ∉ c.allocated) (hhandle : handle ∈ c.handles)
    (enters : Enters limits₀ a handle c c₁) :
    ∃ ret c₂, c₁.makeRoom limits₀ = some (ret, c₂) ∧ ∀ counted : Nat → Bool,
      samplesIn counted c₁ - samplesIn counted c₂ ≤ c₁.numAllSamples - limits₀.maxNumSamples + 1 ↔
        ((evictions limits₀ c₁).countP fun a => counted (c₁.elements.handle a) : Nat) ≤
          c₁.numAllSamples - limits₀.maxNumSamples + 1 := by
  obtain ⟨p₁, h₁⟩ := enters.settled h fresh hhandle
  obtain ⟨ret, c₂, p₂, heq, htakes⟩ := makeRoom_takes limits₀ h₁
  refine ⟨ret, c₂, heq, fun counted => ?_⟩
  have hcount := htakes.count counted
  constructor <;> intro hle <;> omega

/-- Three instances have one sample each, which is being sent, and that is as many as there may
be; a fourth instance is registered. -/
def filled : List Operation :=
  [.registerInstance none 1, .registerInstance none 2, .registerInstance none 3,
    .registerInstance none 4,
    .obtainBuffer 10 1 false, .enqueue, .sendUnsent,
    .obtainBuffer 20 2 false, .enqueue, .sendUnsent,
    .obtainBuffer 30 3 false, .enqueue, .sendUnsent]

def tight : ContainerLimits := ⟨1, 4, 3, false⟩

theorem filled_delivered : ∃ w, Run create (PerformsOrderly tight) (filled ++ [.dataDelivered 10]) w ∧
    create.performAll tight (filled ++ [.dataDelivered 10]) = some w := by
  obtain ⟨w, hw⟩ : ∃ w, create.performAll tight (filled ++ [.dataDelivered 10]) = some w :=
    Option.isSome_iff_exists.mp (by decide)
  have htrans : ∀ op ∈ filled ++ [.dataDelivered 10], ∀ w w', w.perform tight op = some w' →
      PerformsOrderly tight w op w' := by
    intro op hop w w' hperform
    simp only [filled, List.cons_append, List.nil_append, List.mem_cons, List.not_mem_nil,
      or_false] at hop
    rcases hop with rfl | rfl | rfl | rfl | rfl | rfl | rfl | rfl | rfl | rfl | rfl | rfl | rfl | rfl <;>
      exact ⟨⟨rfl, hperform⟩, trivial⟩
  have run : Run create (PerformsOrderly tight) ([] ++ (filled ++ [.dataDelivered 10])) w :=
    run_performAll htrans .start hw
  exact ⟨w, run, hw⟩

def aroundLoops (limits : ContainerLimits) (a handle : Nat) (c : Container) :
    Option (Int × Int) := do
  let i ← c.getHandleInstance handle
  let (ret, _, c₁) ← (c.allocate a handle).keepDepth limits i
  if ret = .ok then
    let (_, c₂) ← c₁.makeRoom limits
    return (c₁.numAllSamples, c₂.numAllSamples)
  else none

theorem aroundLoops_spec {n m : Int} (h : aroundLoops limits a handle c = some (n, m))
    (hlimited : limits.maxNumSamples > 0 ∧ n ≥ limits.maxNumSamples)
    (hshared : limits.maxNumInstances > 0 ∧ oversubscribed limits = true) :
    ∃ c₁ ret c₂, Enters limits a handle c c₁ ∧ c₁.makeRoom limits = some (ret, c₂) ∧
      c₁.numAllSamples = n ∧ c₂.numAllSamples = m := by
  obtain ⟨i, hi, h⟩ := Option.bind_eq_some_iff.mp h
  obtain ⟨⟨ret, oldestReleased, c₁⟩, hkeep, h⟩ := Option.bind_eq_some_iff.mp h
  simp only at h
  split_ifs at h with hret
  obtain ⟨⟨ret', c₂⟩, hroom, h⟩ := Option.bind_eq_some_iff.mp h
  cases h
  subst hret
  exact ⟨c₁, ret', c₂, ⟨⟨i, hi, oldestReleased, hkeep⟩, hlimited, hshared⟩, hroom, rfl, rfl⟩

theorem evictions_bounded_filled :
    ∃ w c₁ ret c₂, create.performAll tight (filled ++ [.dataDelivered 10]) = some w ∧
      Enters tight 40 4 w.container c₁ ∧ c₁.makeRoom tight = some (ret, c₂) ∧
      (samplesIn (fun _ => true) c₁ - samplesIn (fun _ => true) c₂ ≤ c₁.numAllSamples - 3 + 1 ↔
        ((evictions tight c₁).countP fun _ => true : Nat) ≤ c₁.numAllSamples - 3 + 1) := by
  obtain ⟨w, run, hw⟩ := filled_delivered
  obtain ⟨p, horderly⟩ := orderliness run
  have hnumbers : (create.performAll tight (filled ++ [.dataDelivered 10])).map (fun w =>
      (aroundLoops tight 40 4 w.container, decide (40 ∉ w.container.allocated),
        decide (4 ∈ w.container.handles))) = some (some (3, 2), true, true) := by decide
  rw [hw, Option.map_some, Option.some_inj] at hnumbers
  simp only [Prod.mk.injEq, decide_eq_true_eq] at hnumbers
  obtain ⟨c₁, _, _, henters, _, _, _⟩ := aroundLoops_spec hnumbers.1 (by decide) (by decide)
  obtain ⟨ret, c₂, hroom, hiff⟩ :=
    evictions_bounded_iff horderly.threads.settled hnumbers.2.1 hnumbers.2.2 henters
  exact ⟨w, c₁, ret, c₂, hw, henters, hroom, hiff fun _ => true⟩

/-- One sample more than there may be costs each of the three full instances its sample. -/
theorem all_full_stripped :
    ¬ ∀ (limits : ContainerLimits) (ops : List Operation) (w : DataWriter) (a handle : Nat)
      (c₁ c₂ : Container) (ret : ReturnCode), Run create (Performs limits) ops w →
      a ∉ w.container.allocated → handle ∈ w.container.handles →
      Enters limits a handle w.container c₁ → c₁.makeRoom limits = some (ret, c₂) →
      samplesIn (fun _ => true) c₁ - samplesIn (fun _ => true) c₂ ≤
        c₁.numAllSamples - limits.maxNumSamples + 1 := by
  intro claim
  have hnumbers : (create.performAll tight filled).map (fun w =>
      (aroundLoops tight 40 4 w.container, decide (40 ∉ w.container.allocated),
        decide (4 ∈ w.container.handles))) = some (some (3, 0), true, true) := by decide
  obtain ⟨w, hw, hnumbers⟩ := Option.map_eq_some_iff.mp hnumbers
  simp only [Prod.mk.injEq, decide_eq_true_eq] at hnumbers
  obtain ⟨c₁, ret, c₂, henters, hroom, hbefore, hafter⟩ :=
    aroundLoops_spec hnumbers.1 (by decide) (by decide)
  have hle := claim tight filled w 40 4 c₁ c₂ ret (run_of_performAll rfl hw) hnumbers.2.1
    hnumbers.2.2 henters hroom
  rw [samplesIn_all, samplesIn_all, hbefore, hafter] at hle
  exact absurd hle (by decide)

end OpenDDS.Guarantees.ResourceEviction
