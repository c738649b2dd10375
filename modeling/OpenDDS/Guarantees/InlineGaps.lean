import OpenDDS.Source.RtpsWriter

/-!
# GAP submessages sent in-line with new samples

`customize_queue_element` moves `expected_` behind every element it sees, also behind a
historic sample that is resent to one reader and gets no GAP itself. If the next new
sample is customized when no reader waits for durable data any more, the GAP in front of
it starts behind the historic sample and covers everything sent since. The entry of the
writer in `writers_` goes with its last reader, and `expected_` of the next entry starts
over at one. The numbers a GAP declares are right exactly when nothing above the last
element of the entry was sent before.
-/
namespace OpenDDS.Guarantees.InlineGaps
open Library Source Source.SequenceNumber Source.RtpsWriter

/-- The elements of a writer: new samples, and historic ones directed to a reader. -/
inductive Element where
  | live (seq : Int)
  | directed (seq : Int)
  deriving DecidableEq

def Element.seq : Element → Int
  | .live seq => seq
  | .directed seq => seq

/-- What happens at the writer: its events, and readers that come and go. -/
inductive Label where
  | event (e : Event)
  | associated (remoteId : Nat) (localDurable remoteDurable located : Bool)
  | released (remoteId : Nat)

def element : Event → Option Element
  | .customize seq => some (.live seq)
  | .customizeDurable _ seq => some (.directed seq)
  | _ => none

/-- The entry of the writer in `writers_`, every element customized, and those customized
since the entry was made. -/
structure Link where
  entry : Option Writer
  elements : List Element
  since : List Element

def Link.initial : Link := ⟨none, [], []⟩

def Link.assigned (l : Link) : List Int := l.elements.map Element.seq

/-- The numbers of the new samples customized so far. -/
def Link.lives (l : Link) : List Int :=
  l.elements.filterMap fun
    | .live seq => some seq
    | .directed _ => none

def Link.state (l : Link) (w : Writer) : State := ⟨w, l.assigned, []⟩

/-- The events do nothing at a writer without an entry. -/
def trans (capacity : Nat) (l : Link) (label : Label) (after : Link) : Prop :=
  match label, l.entry with
  | .event e, none =>
    InDomain (l.state .created) e ∧ after = { l with elements := l.elements ++ (element e).toList }
  | .event e, some w =>
    ∃ s, Steps capacity (l.state w) e s ∧
      after = ⟨some s.writer, l.elements ++ (element e).toList, l.since ++ (element e).toList⟩
  | .associated remoteId localDurable remoteDurable located, entry =>
    after = { l with entry := some (associated entry remoteId localDurable remoteDurable located) }
  | .released _, none => after = l
  | .released remoteId, some w =>
    after = match releaseReservationsI w remoteId with
      | none => { l with entry := none, since := [] }
      | some w => { l with entry := some w }

/-- The GAP `customize_queue_element` puts in front of a new sample. -/
def inlineGap (l : Link) (seq : Int) : Option Gap :=
  l.entry.bind fun w => (customizeQueueElement w seq).1

section

variable {capacity fuel : Nat} {s after : State}

theorem receivedAckNack_expected {w result : Writer} {ri : ReaderInfo} {acknack : AckNackSubmessage}
    (h : receivedAckNack fuel w ri acknack = .ok result) : result.expected = w.expected := by
  unfold receivedAckNack at h
  split at h
  · cases h
    rfl
  · simp only at h
    split at h
    · cases h
      rfl
    · split at h
      · cases h
        rfl
      · split at h
        · cases h
        · cases h
          rfl

theorem receivedNackFrag_expected (w : Writer) (ri : ReaderInfo) (nackfrag : NackFragSubmessage) :
    (receivedNackFrag w ri nackfrag).expected = w.expected := by
  unfold receivedNackFrag
  split <;> rfl

theorem sendNackReplies_expected {w result : Writer} {memory : DisjointSequence.Bitmap} {gap : Option Gap}
    (h : sendNackReplies fuel w memory = .ok (gap, result)) : result.expected = w.expected := by
  unfold sendNackReplies at h
  split at h
  · cases h
  · split at h
    · cases h
    · split at h
      · cases h
      · cases h
        rfl

theorem sendHeartbeats_expected (w : Writer) (expired : List Nat) :
    (sendHeartbeats w expired).2.expected = w.expected := by
  unfold sendHeartbeats
  simp only
  split <;> rfl

/-- Only an element moves `expected_`. -/
theorem step_expected {e : Event} (h : Steps capacity s e after) :
    after.writer.expected = match element e with
      | some element => next element.seq
      | none => s.writer.expected := by
  obtain ⟨-, fuel, h⟩ := h
  cases e with
  | customize seq =>
    cases h
    rfl
  | customizeDurable reader seq =>
    cases h
    rfl
  | sendPacket seq =>
    cases h
    rfl
  | acknack acknack =>
    simp only [step] at h
    split at h
    · cases h
      rfl
    · split at h
      · cases h
      · rename_i heq
        cases h
        exact receivedAckNack_expected heq
  | nackfrag nackfrag =>
    simp only [step] at h
    split at h
    · cases h
      rfl
    · cases h
      exact receivedNackFrag_expected _ _ _
  | nackReply memory =>
    simp only [step] at h
    split at h
    · cases h
    · rename_i heq
      cases h
      exact sendNackReplies_expected heq
  | heartbeat expired =>
    cases h
    exact sendHeartbeats_expected _ _

theorem releaseReservationsI_expected {w result : Writer} {remoteId : Nat}
    (h : releaseReservationsI w remoteId = some result) : result.expected = w.expected := by
  unfold releaseReservationsI at h
  simp only at h
  split at h
  · cases h
  · cases h
    rfl

end

theorem live_above {l : Link} {w : Writer} {e : Event} {seq : Int} (hdom : InDomain (l.state w) e)
    (he : element e = some (.live seq)) : ∀ m ∈ l.assigned, m < seq := by
  unfold element at he
  split at he
  · cases he
    exact hdom.2
  · cases he
  · cases he

theorem live_pos {l : Link} {w : Writer} {e : Event} {seq : Int} (hdom : InDomain (l.state w) e)
    (he : element e = some (.live seq)) : 1 ≤ seq := by
  unfold element at he
  split at he
  · cases he
    exact hdom.1
  · cases he
  · cases he

theorem mem_lives {l : Link} {n : Int} : n ∈ l.lives ↔ .live n ∈ l.elements := by
  simp only [Link.lives, List.mem_filterMap]
  constructor
  · rintro ⟨element, helement, hn⟩
    cases element with
    | live seq =>
      cases hn
      exact helement
    | directed seq => cases hn
  · exact fun h => ⟨.live n, h, rfl⟩

/-- `expected_` of the entry is the number after its last element, and a new sample is above
those before it. -/
structure Follows (l : Link) : Prop where
  expected : ∀ w, l.entry = some w → w.expected = match l.since.getLast? with
    | some element => next element.seq
    | none => 1
  absent : l.entry = none → l.since = []
  members : ∀ element ∈ l.since, element ∈ l.elements
  greatest : ∀ last, l.since.getLast? = some (.live last) → ∀ n ∈ l.lives, n ≤ last

theorem greatest_concat {l : Link} {w : Writer} {e : Event} {entry : Option Writer} (inv : Follows l)
    (hdom : InDomain (l.state w) e) (last : Int)
    (hlast : (l.since ++ (element e).toList).getLast? = some (.live last)) :
    ∀ n ∈ Link.lives ⟨entry, l.elements ++ (element e).toList, l.since ++ (element e).toList⟩,
      n ≤ last := by
  intro n hn
  rw [mem_lives] at hn
  cases he : element e with
  | none =>
    simp only [he, Option.toList_none, List.append_nil] at hlast hn
    exact inv.greatest last hlast n (mem_lives.mpr hn)
  | some element =>
    simp only [he, Option.toList_some, List.getLast?_concat, Option.some.injEq] at hlast hn
    subst hlast
    rcases List.mem_append.mp hn with hn | hn
    · exact (live_above hdom he n (List.mem_map_of_mem hn)).le
    · cases List.mem_singleton.mp hn
      exact le_rfl

theorem follows_step {capacity : Nat} {l after : Link} {label : Label} (inv : Follows l)
    (h : trans capacity l label after) : Follows after := by
  cases label with
  | event e =>
    cases hentry : l.entry with
    | none =>
      simp only [trans, hentry] at h
      obtain ⟨-, rfl⟩ := h
      have hsince := inv.absent hentry
      refine ⟨fun w hw => ?_, fun _ => hsince, fun element helement => ?_, fun last hlast => ?_⟩
      · cases hw
      · exact List.mem_append_left _ (inv.members element helement)
      · rw [hsince] at hlast
        cases hlast
    | some w =>
      simp only [trans, hentry] at h
      obtain ⟨s, hs, rfl⟩ := h
      refine ⟨fun v hv => ?_, fun hnone => (by cases hnone), fun element helement => ?_,
        greatest_concat inv hs.1⟩
      · cases hv
        rw [step_expected hs]
        cases element e with
        | none => simpa [Link.state] using inv.expected w hentry
        | some element => simp
      · rcases List.mem_append.mp helement with hmem | hmem
        · exact List.mem_append_left _ (inv.members element hmem)
        · exact List.mem_append_right _ hmem
  | associated remoteId localDurable remoteDurable located =>
    cases hentry : l.entry with
    | none =>
      simp only [trans, hentry] at h
      subst h
      refine ⟨fun w hw => ?_, fun hnone => (by cases hnone), inv.members, inv.greatest⟩
      cases hw
      rw [inv.absent hentry]
      rfl
    | some w =>
      simp only [trans, hentry] at h
      subst h
      refine ⟨fun v hv => ?_, fun hnone => (by cases hnone), inv.members, inv.greatest⟩
      cases hv
      exact inv.expected w hentry
  | released remoteId =>
    cases hentry : l.entry with
    | none =>
      simp only [trans, hentry] at h
      exact h ▸ inv
    | some w =>
      simp only [trans, hentry] at h
      cases hrelease : releaseReservationsI w remoteId with
      | none =>
        simp only [hrelease] at h
        subst h
        exact ⟨fun w hw => (by cases hw), fun _ => rfl, fun _ helement => (by cases helement),
          fun _ hlast => (by cases hlast)⟩
      | some result =>
        simp only [hrelease] at h
        subst h
        refine ⟨fun v hv => ?_, fun hnone => (by cases hnone), inv.members, inv.greatest⟩
        cases hv
        rw [releaseReservationsI_expected hrelease]
        exact inv.expected w hentry

theorem follows {capacity : Nat} {labels : List Label} {l : Link}
    (run : Run Link.initial (trans capacity) labels l) : Follows l :=
  run.invariant Follows ⟨fun _ h => (by cases h), fun _ => rfl, fun _ h => (by cases h),
    fun _ h => (by cases h)⟩ fun _ _ _ inv h => follows_step inv h

theorem lives_pos {capacity : Nat} {labels : List Label} {l : Link}
    (run : Run Link.initial (trans capacity) labels l) : ∀ n ∈ l.lives, 1 ≤ n := by
  refine run.invariant (fun l => ∀ n ∈ l.lives, 1 ≤ n) (fun _ h => by cases h) ?_
  intro l label after ih h n hn
  have helements : ∀ {w : Writer} {e : Event}, InDomain (l.state w) e →
      .live n ∈ l.elements ++ (element e).toList → 1 ≤ n := by
    intro w e hdom hmem
    rcases List.mem_append.mp hmem with hmem | hmem
    · exact ih n (mem_lives.mpr hmem)
    · exact live_pos hdom (Option.mem_toList.mp hmem)
  rw [mem_lives] at hn
  unfold trans at h
  split at h
  · obtain ⟨hdom, rfl⟩ := h
    exact helements hdom hn
  · obtain ⟨s, hs, rfl⟩ := h
    exact helements hs.1 hn
  · subst h
    exact ih n (mem_lives.mpr hn)
  · subst h
    exact ih n (mem_lives.mpr hn)
  · subst h
    split at hn
    · exact ih n (mem_lives.mpr hn)
    · exact ih n (mem_lives.mpr hn)

theorem declares_iff {first base n : Int} {readers : List Nat} :
    Gap.Declares ⟨first, base, 1, fun _ => 0, readers⟩ n ↔ first ≤ n ∧ n < base := by
  refine or_iff_left ?_
  rintro ⟨k, -, hbit, -⟩
  simp [DisjointSequence.bitSet] at hbit

/-- No new sample customized before lies above the last element since the entry was made. -/
def NothingAbove (l : Link) : Prop :=
  match l.since.getLast? with
  | none => l.lives = []
  | some (.live _) => True
  | some (.directed last) => ∀ n ∈ l.lives, n ≤ last

theorem nothingAbove_iff {l : Link} {w : Writer} (inv : Follows l) (hentry : l.entry = some w)
    (hpos : ∀ n ∈ l.lives, 1 ≤ n) (hmax : ∀ element ∈ l.elements, element.seq < maxValue) :
    NothingAbove l ↔ ∀ n ∈ l.lives, n < w.expected := by
  have hexpected := inv.expected w hentry
  unfold NothingAbove
  cases hlast : l.since.getLast? with
  | none =>
    simp only [hlast] at hexpected
    rw [hexpected]
    constructor
    · intro hnil n hn
      rw [hnil] at hn
      cases hn
    · intro hall
      refine List.eq_nil_iff_forall_not_mem.mpr fun n hn => ?_
      have h₁ := hall n hn
      have h₂ := hpos n hn
      omega
  | some element =>
    have hlt := hmax element (inv.members element (List.mem_of_getLast? hlast))
    simp only [hlast, next_of_lt hlt] at hexpected
    cases element with
    | live last =>
      refine iff_of_true trivial fun n hn => ?_
      have hle := inv.greatest last hlast n hn
      simp only [Element.seq] at hexpected
      omega
    | directed last =>
      simp only [Element.seq] at hexpected
      exact forall₂_congr fun n _ => by omega

/-- After every run, the GAP in front of the next new sample declares no number of a new sample
customized before, exactly if the writer has no entry, or some reader waits for durable data, or
no new sample lies above the last element since the entry was made. -/
theorem inline_gap_iff {capacity : Nat} {labels : List Label} {l : Link}
    (run : Run Link.initial (trans capacity) labels l) (seq : Int)
    (hseq : InDomain (l.state .created) (.customize seq)) (hmax : seq ≤ maxValue) :
    (∀ gap, inlineGap l seq = some gap → ∀ n, gap.Declares n → n ∉ l.lives) ↔
      ∀ w, l.entry = some w →
        w.remoteReaders.any expectingDurableData = true ∨ NothingAbove l := by
  have hbelow : ∀ element ∈ l.elements, element.seq < seq := fun element helement =>
    hseq.2 _ (List.mem_map_of_mem helement)
  have hlives : ∀ n ∈ l.lives, n < seq := fun n hn => hbelow _ (mem_lives.mp hn)
  cases hentry : l.entry with
  | none =>
    refine iff_of_true (fun gap hgap => ?_) (fun w h => by cases h)
    simp [inlineGap, hentry] at hgap
  | some w =>
    have hgap : ∀ gap, inlineGap l seq = some gap ↔
        w.remoteReaders.any expectingDurableData = false ∧ seq ≠ w.expected ∧
          gap = ⟨w.expected, seq, 1, fun _ => 0, []⟩ := by
      simp only [inlineGap, hentry, Option.bind_some, customizeQueueElement, addGapSubmsg]
      cases w.remoteReaders.any expectingDurableData with
      | true => simp
      | false =>
        by_cases hne : seq = w.expected
        · simp [hne]
        · simp [hne, eq_comm]
    have habove := nothingAbove_iff (follows run) hentry (lives_pos run) fun element helement =>
      lt_of_lt_of_le (hbelow element helement) hmax
    constructor
    · rintro hclear v hv
      cases hv
      by_contra hnot
      rw [not_or, habove] at hnot
      obtain ⟨hwait, hexists⟩ := hnot
      push Not at hexists
      obtain ⟨n, hn, hle⟩ := hexists
      have hnseq := hlives n hn
      refine hclear _ ((hgap _).mpr ⟨by simpa using hwait, by omega, rfl⟩) n ?_ hn
      exact declares_iff.mpr ⟨hle, hnseq⟩
    · intro hcond gap hg n hn hlive
      obtain ⟨hwait, -, rfl⟩ := (hgap gap).mp hg
      rcases hcond w rfl with hexpect | hnothing
      · rw [hwait] at hexpect
        cases hexpect
      · have h₁ := (declares_iff.mp hn).1
        have h₂ := habove.mp hnothing n hlive
        omega

def news : List Label :=
  [.associated 5 true false true, .event (.customize 1), .event (.customize 2), .event (.customize 3)]

def afterNews : Link :=
  ⟨some { associated none 5 true false true with expected := 4 }, [.live 1, .live 2, .live 3],
    [.live 1, .live 2, .live 3]⟩

theorem run_event {capacity : Nat} {labels : List Label} {l : Link} {w : Writer}
    {s : State} (run : Run Link.initial (trans capacity) labels l) (e : Event) (hentry : l.entry = some w)
    (h : Steps capacity (l.state w) e s) :
    Run Link.initial (trans capacity) (labels ++ [.event e])
      ⟨some s.writer, l.elements ++ (element e).toList, l.since ++ (element e).toList⟩ := by
  refine run.next ?_
  simp only [trans, hentry]
  exact ⟨s, h, rfl⟩

theorem run_associated {capacity : Nat} {labels : List Label} {l : Link}
    (run : Run Link.initial (trans capacity) labels l) (remoteId : Nat)
    (localDurable remoteDurable located : Bool) :
    Run Link.initial (trans capacity)
      (labels ++ [.associated remoteId localDurable remoteDurable located])
      { l with entry := some (associated l.entry remoteId localDurable remoteDurable located) } :=
  run.next rfl

theorem run_news (capacity : Nat) : Run Link.initial (trans capacity) news afterNews := by
  have h₁ := run_associated (Run.start : Run Link.initial (trans capacity) [] _) 5 true false true
  have h₂ := run_event h₁ (.customize 1) rfl ⟨⟨by decide, by decide⟩, 0, rfl⟩
  have h₃ := run_event h₂ (.customize 2) rfl ⟨⟨by decide, by decide⟩, 0, rfl⟩
  exact run_event h₃ (.customize 3) rfl ⟨⟨by decide, by decide⟩, 0, rfl⟩

/-- A late reader is sent the first sample again and acknowledges it. -/
def lateReader : List Label :=
  news ++ [.associated 7 true true true] ++ [.event (.customizeDurable 7 1)] ++
    [.event (.acknack ⟨7, true, ⟨⟨0, 2⟩, 0, fun _ => 0, by decide⟩, 1⟩)]

theorem run_lateReader (capacity : Nat) : ∃ l, Run Link.initial (trans capacity) lateReader l ∧
    l.elements = [.live 1, .live 2, .live 3, .directed 1] ∧
      inlineGap l 4 = some ⟨2, 4, 1, fun _ => 0, []⟩ := by
  have h₁ := run_associated (run_news capacity) 7 true true true
  have h₂ := run_event h₁ (.customizeDurable 7 1) rfl ⟨le_rfl, 0, rfl⟩
  have h₃ := run_event h₂ (.acknack ⟨7, true, ⟨⟨0, 2⟩, 0, fun _ => 0, by decide⟩, 1⟩) rfl
    ⟨trivial, 0, rfl⟩
  exact ⟨_, h₃, rfl, rfl⟩

/-- After the new samples alone, the next one may leave a gap. -/
theorem inline_gap_after_news : Run Link.initial (trans 10) news afterNews ∧
    inlineGap afterNews 6 = some ⟨4, 6, 1, fun _ => 0, []⟩ ∧
      ∀ gap, inlineGap afterNews 6 = some gap → ∀ n, gap.Declares n → n ∉ afterNews.lives :=
  ⟨run_news 10, rfl, (inline_gap_iff (run_news 10) 6 ⟨by decide, by decide⟩ (by decide)).mpr
    fun _ _ => .inr trivial⟩

/-- The GAP in front of number 4 covers 2 and 3, which were sent before. -/
theorem inline_gap_covers_sent :
    ¬ ∀ (capacity : Nat) (labels : List Label) (l : Link)
      (_ : Run Link.initial (trans capacity) labels l) (seq : Int)
      (_ : InDomain (l.state .created) (.customize seq)) (_ : seq ≤ maxValue),
      ∀ gap, inlineGap l seq = some gap → ∀ n, gap.Declares n → n ∉ l.lives := by
  intro claim
  obtain ⟨l, run, helements, hgap⟩ := run_lateReader 10
  have hdom : InDomain (l.state .created) (.customize 4) := by
    refine ⟨by decide, ?_⟩
    rw [Link.state, Link.assigned, helements]
    decide
  refine claim 10 lateReader l run 4 hdom (by decide) _ hgap 2 (declares_iff.mpr ⟨le_rfl, by decide⟩) ?_
  rw [Link.lives, helements]
  decide

end OpenDDS.Guarantees.InlineGaps
