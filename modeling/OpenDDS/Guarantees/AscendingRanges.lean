import OpenDDS.Source.ReliableSession

/-!
# The ranges a passive multicast session inserts

`DisjointSequence::validate` throws on a descending range. A passive `ReliableSession`
builds ranges from a remote value in three places without comparing the two ends: the
baseline of a SYN, the shift of a NAKACK and, through the recorded high-water marks,
the suppression of NAKs.
-/
namespace OpenDDS.Guarantees.AscendingRanges
open Library Library.RangeList Source Source.SequenceNumber Source.DisjointSequence
open Source.ReliableSession

/-- Sequence numbers of received headers and control samples are not negative. -/
def InDomain : Event → Prop
  | .header header => 0 ≤ header.sequence ∧ header.sequence ≤ maxValue
  | .control header control => (0 ≤ header.sequence ∧ header.sequence ≤ maxValue) ∧
      match control with
      | .nakack low => 0 ≤ low ∧ low ≤ maxValue
      | _ => True
  | .tick _ _ => True

/-- The condition on a NAKACK: the number in front of its low-water mark is not below
everything received, and its wrap to the largest value meets no range there. -/
def NakackFits (s : Session) (header : TransportHeader) (mark : Int) : Prop :=
  if s.acked then s.nakSequence ≠ [] ∧ low s.nakSequence ≤ previous mark ∧
    ¬ Clash s.nakSequence (low s.nakSequence, previous mark)
  else header.sequence ≤ previous mark ∨ (s.nakSequence ≠ [] ∧ low s.nakSequence ≤ previous mark)

def KeepsAscending (config : Config) (s : Session) : Event → Prop
  | .header _ => True
  | .control header (.syn peer) => s.remotePeer = header.source → peer = config.localPeer →
      s.acked = false → 1 ≤ header.sequence
  | .control header (.nakack mark) => s.remotePeer = header.source → NakackFits s header mark
  | .control _ _ => True
  | .tick _ sendAt => ∀ r ∈ s.nakRequests, r.1 ≤ sendAt

/-- An event of the domain; the outcome is the session or the exception. -/
def Outcomes (config : Config) (x : Except Fault Session) (e : Event) (y : Except Fault Session) :
    Prop :=
  ∃ s, x = .ok s ∧ InDomain e ∧ y = step config s e

def AscendingOutcomes (config : Config) (x : Except Fault Session) (e : Event)
    (y : Except Fault Session) : Prop :=
  ∃ s, x = .ok s ∧ InDomain e ∧ KeepsAscending config s e ∧ y = step config s e

/-- The recorded marks ascend in time and lie between the ends of what was received. -/
structure SessionInv (s : Session) : Prop where
  wellFormed : WellFormed s.nakSequence
  marks : s.nakRequests.Pairwise fun a b => a.1 < b.1 ∧ a.2 ≤ b.2
  bounded : ∀ r ∈ s.nakRequests, s.nakSequence ≠ [] ∧ low s.nakSequence ≤ r.2 ∧
    r.2 ≤ high s.nakSequence
  acked : s.nakRequests ≠ [] → s.acked = true
  peers : s.nakPeers = []

theorem started_inv (remotePeer : Nat) (acked : Bool) :
    SessionInv (Session.started remotePeer acked) where
  wellFormed := wellFormed_nil
  marks := List.Pairwise.nil
  bounded := by simp [Session.started]
  acked := by simp [Session.started]
  peers := rfl

variable {header : TransportHeader}

section

variable {config : Config} {s : Session}

theorem SessionInv.grow (inv : SessionInv s) {seqs : List Range} (hwf : WellFormed seqs)
    (hsub : ∀ n, Covers s.nakSequence n → Covers seqs n) :
    SessionInv { s with nakSequence := seqs } where
  wellFormed := hwf
  marks := inv.marks
  bounded := by
    intro r hr
    obtain ⟨hne, hlow, hhigh⟩ := inv.bounded r hr
    have h₁ := low_mono inv.wellFormed.canonical hwf.canonical hne hsub
    have h₂ := le_high hwf.canonical (hsub _ (covers_high inv.wellFormed.canonical hne))
    exact ⟨ne_nil_of_covers (hsub _ (covers_low inv.wellFormed.canonical hne)), by simp only; omega,
      by simp only; omega⟩
  acked := inv.acked
  peers := inv.peers

theorem checkHeader_inv (inv : SessionInv s) (h0 : 0 ≤ header.sequence)
    (hmax : header.sequence ≤ maxValue) :
    ∃ fresh seqs, checkHeader s header = .ok (fresh, { s with nakSequence := seqs }) ∧
      SessionInv { s with nakSequence := seqs } ∧
      (∀ n, Covers s.nakSequence n → Covers seqs n) ∧
      (s.remotePeer = header.source → Covers seqs header.sequence) := by
  unfold checkHeader
  split
  · rename_i hpeer
    exact ⟨true, s.nakSequence, rfl, inv, fun _ h => h, fun h => absurd h hpeer⟩
  · obtain ⟨fresh, seqs, heq, hwf, hcov⟩ := insert_spec inv.wellFormed h0 hmax
    have hsub : ∀ n, Covers s.nakSequence n → Covers seqs n := fun n hn => (hcov n).mpr (.inl hn)
    simp only [heq]
    exact ⟨fresh, seqs, rfl, inv.grow hwf hsub, hsub, fun _ => (hcov _).mpr (.inr rfl)⟩

theorem dropUpTo_spec (wf : WellFormed s.nakSequence) (hne : s.nakSequence ≠ []) {last : Int}
    (hlow : low s.nakSequence ≤ last) (hmax : last ≤ maxValue) :
    ∃ dropped seqs, dropUpTo s last = .ok (dropped, { s with nakSequence := seqs }) ∧
      WellFormed seqs ∧ Covers seqs last ∧
      (∀ n, Covers s.nakSequence n → ∃ m, n ≤ m ∧ Covers seqs m) ∧
      (¬ Clash s.nakSequence (low s.nakSequence, last) →
        ∀ n, Covers s.nakSequence n → Covers seqs n) := by
  have hempty : empty s.nakSequence = false := by simpa [empty] using hne
  obtain ⟨dropped, hgaps⟩ := gapsOf_fromLow wf hne hlow
  obtain ⟨grew, seqs, heq, hwf, hlast, hreach, -⟩ :=
    insertI_weak (low s.nakSequence, last) wf (low_nonneg wf) hlow hmax
  refine ⟨dropped, seqs, ?_, hwf, hlast, hreach, fun hclash n hn => ?_⟩
  · simp [dropUpTo, hempty, insertGaps, hgaps, heq]
  · obtain ⟨grew', seqs', heq', -, hcov⟩ :=
      insertI_spec (low s.nakSequence, last) wf (low_nonneg wf) hlow hmax hclash
    rw [heq, Except.ok.injEq, Prod.mk.injEq] at heq'
    rw [heq'.2]
    exact (hcov n).mpr (.inl hn)

theorem previous_le (mark : Int) (hmax : mark ≤ maxValue) : previous mark ≤ maxValue := by
  unfold previous
  split <;> omega

theorem SessionInv.unrequested (inv : SessionInv s) (hnone : s.nakRequests = [])
    {seqs : List Range} (hwf : WellFormed seqs) (acked : Bool) :
    SessionInv { s with nakSequence := seqs, acked := acked } where
  wellFormed := hwf
  marks := inv.marks
  bounded := by simp [hnone]
  acked := by simp [hnone]
  peers := inv.peers

theorem synReceived_inv (inv : SessionInv s) {peer : Nat} (hmax : header.sequence ≤ maxValue)
    (hkeeps : s.remotePeer = header.source → peer = config.localPeer → s.acked = false →
      1 ≤ header.sequence) :
    ∃ after, synReceived config s header peer = .ok after ∧ SessionInv after := by
  unfold synReceived
  split
  · exact ⟨s, rfl, inv⟩
  · rename_i hpeer
    split
    · exact ⟨s, rfl, inv⟩
    · rename_i hlocal
      split
      · exact ⟨s, rfl, inv⟩
      · rename_i hacked
        have hseq := hkeeps (by simpa using hpeer) (by simpa using hlocal) (by simpa using hacked)
        have hnone : s.nakRequests = [] := by
          by_contra h
          exact hacked (inv.acked h)
        obtain ⟨grew, seqs, heq, hwf, -⟩ := insertI_weak (ofValue minValue, header.sequence)
          wellFormed_nil (by simp [ofValue, minValue]) hseq hmax
        simp only [synHook, heq]
        exact ⟨_, rfl, inv.unrequested hnone hwf true⟩

theorem nakackReceived_inv (inv : SessionInv s) {mark : Int} (hmax : mark ≤ maxValue)
    (hkeeps : s.remotePeer = header.source → s.nakSequence ≠ [] ∧ low s.nakSequence ≤ previous mark ∧
      (s.nakRequests ≠ [] → ¬ Clash s.nakSequence (low s.nakSequence, previous mark))) :
    ∃ after, nakackReceived s header mark = .ok after ∧ SessionInv after := by
  unfold nakackReceived
  split
  · exact ⟨s, rfl, inv⟩
  · rename_i hpeer
    obtain ⟨hne, hlow, hclash⟩ := hkeeps (by simpa using hpeer)
    obtain ⟨dropped, seqs, heq, hwf, -, -, hsub⟩ :=
      dropUpTo_spec inv.wellFormed hne hlow (previous_le mark hmax)
    simp only [heq]
    by_cases hnone : s.nakRequests = []
    · exact ⟨_, rfl, inv.unrequested hnone hwf s.acked⟩
    · exact ⟨_, rfl, inv.grow hwf (hsub (hclash hnone))⟩

/-- Control samples: the carrying header is recorded first, then the sample is handled. -/
theorem controlReceived_inv (inv : SessionInv s) {control : Control}
    (hdom : InDomain (.control header control))
    (hkeeps : KeepsAscending config s (.control header control)) :
    ∃ after, controlReceived config s header control = .ok after ∧ SessionInv after := by
  obtain ⟨⟨h0, hmax⟩, hdom⟩ := hdom
  obtain ⟨fresh, seqs, hcheck, hinv, hsub, hcov⟩ := checkHeader_inv inv h0 hmax
  unfold controlReceived
  by_cases hrecord : s.acked = false ∧ s.remotePeer = header.source
  · have hnone : s.nakRequests = [] := by
      by_contra h
      rw [inv.acked h] at hrecord
      simp at hrecord
    rw [if_pos (by simp [hrecord.1, hrecord.2]), hcheck]
    cases control with
    | syn peer => exact synReceived_inv hinv hmax hkeeps
    | synack peer => exact ⟨_, rfl, hinv⟩
    | nak peer ranges => exact ⟨_, rfl, hinv⟩
    | nakack mark =>
      have hseq := hcov hrecord.2
      refine nakackReceived_inv hinv hdom.2 fun hpeer => ⟨ne_nil_of_covers hseq, ?_, fun h => absurd hnone h⟩
      have hfits := hkeeps hpeer
      simp only [NakackFits, hrecord.1, Bool.false_eq_true, if_false] at hfits
      rcases hfits with h | ⟨hne, h⟩
      · exact (low_le hinv.wellFormed.canonical hseq).trans h
      · exact (low_mono inv.wellFormed.canonical hinv.wellFormed.canonical hne hsub).trans h
  · have hskip : (!s.acked && decide (s.remotePeer = header.source)) = false := by
      rw [Bool.and_eq_false_iff]
      by_cases hacked : s.acked = false
      · exact .inr (by simpa using fun h => hrecord ⟨hacked, h⟩)
      · exact .inl (by simpa using hacked)
    rw [if_neg (by simp [hskip])]
    cases control with
    | syn peer => exact synReceived_inv inv hmax hkeeps
    | synack peer => exact ⟨_, rfl, inv⟩
    | nak peer ranges => exact ⟨_, rfl, inv⟩
    | nakack mark =>
      refine nakackReceived_inv inv hdom.2 fun hpeer => ?_
      have hacked : s.acked = true := by
        by_contra h
        exact hrecord ⟨by simpa using h, hpeer⟩
      have hfits := hkeeps hpeer
      simp only [NakackFits, hacked, if_true] at hfits
      exact ⟨hfits.1, hfits.2.1, fun _ => hfits.2.2⟩

theorem expireNaks_inv (config : Config) (inv : SessionInv s) (now : Int) :
    ∃ requests seqs, expireNaks config s now =
        .ok { s with nakSequence := seqs, nakRequests := requests } ∧
      SessionInv { s with nakSequence := seqs, nakRequests := requests } ∧
      ∀ r ∈ requests, r ∈ s.nakRequests := by
  unfold expireNaks
  simp only
  have hsplit : s.nakRequests.takeWhile (fun r => r.1 ≤ now - config.nakTimeout) ++
      s.nakRequests.dropWhile (fun r => r.1 ≤ now - config.nakTimeout) = s.nakRequests :=
    List.takeWhile_append_dropWhile
  generalize s.nakRequests.takeWhile (fun r => r.1 ≤ now - config.nakTimeout) = expired at *
  generalize s.nakRequests.dropWhile (fun r => r.1 ≤ now - config.nakTimeout) = kept at *
  split
  · exact ⟨s.nakRequests, s.nakSequence, rfl, inv, fun _ h => h⟩
  · rename_i hexpired
    have hkept : ∀ r ∈ kept, r ∈ s.nakRequests := fun r hr => by rw [← hsplit]; simp [hr]
    have hmarks := inv.marks
    rw [← hsplit] at hmarks
    obtain ⟨-, hkmarks, -⟩ := List.pairwise_append.mp hmarks
    -- the mark up to which everything is given up is not above any mark that stays
    obtain ⟨⟨r, hr, hlast⟩, hle⟩ : (∃ r ∈ s.nakRequests, r.2 = lastExpired s.nakRequests kept) ∧
        ∀ r ∈ kept, lastExpired s.nakRequests kept ≤ r.2 := by
      cases kept with
      | nil =>
        have hne : s.nakRequests ≠ [] := by
          rw [← hsplit]
          simpa using hexpired
        refine ⟨⟨s.nakRequests.getLast hne, List.getLast_mem hne, ?_⟩, by simp⟩
        simp [lastExpired, List.getLast?_eq_some_getLast hne]
      | cons r rest =>
        refine ⟨⟨r, hkept r (by simp), rfl⟩, fun x hx => ?_⟩
        rcases List.mem_cons.mp hx with rfl | hx
        · exact le_rfl
        · exact ((List.pairwise_cons.mp hkmarks).1 x hx).2
    rw [← hlast] at hle ⊢
    obtain ⟨hne, hlow, hhigh⟩ := inv.bounded r hr
    obtain ⟨dropped, seqs, heq, hwf, hcov, hreach, -⟩ := dropUpTo_spec inv.wellFormed hne hlow
      (hhigh.trans (high_le inv.wellFormed hne))
    simp only [heq]
    refine ⟨kept, seqs, rfl, ⟨hwf, hkmarks, ?_, fun h => ?_, inv.peers⟩, hkept⟩
    · intro x hx
      obtain ⟨m, hm, hmcov⟩ := hreach _ (covers_high inv.wellFormed.canonical hne)
      have h₁ := low_le hwf.canonical hcov
      have h₂ := hle x hx
      have h₃ := (inv.bounded x (hkept x hx)).2.2
      have h₄ := le_high hwf.canonical hmcov
      exact ⟨ne_nil_of_covers hcov, by simp only; omega, by simp only; omega⟩
    · obtain ⟨x, hx⟩ := List.exists_mem_of_ne_nil _ h
      exact inv.acked (List.ne_nil_of_mem (hkept x hx))

theorem recordRequest_marks (now : Int) {seq : Int} {requests : List (Int × Int)}
    (hmarks : requests.Pairwise fun a b => a.1 < b.1 ∧ a.2 ≤ b.2)
    (hlast : ∀ r ∈ requests, r.1 ≤ now ∧ r.2 ≤ seq) :
    (recordRequest now seq requests).Pairwise fun a b => a.1 < b.1 ∧ a.2 ≤ b.2 := by
  induction requests with
  | nil => simp [recordRequest]
  | cons x rest ih =>
    obtain ⟨hx, hrest⟩ := List.pairwise_cons.mp hmarks
    have hxlast := hlast x (by simp)
    unfold recordRequest
    split
    · rename_i hlt
      refine List.pairwise_cons.mpr ⟨fun y hy => ?_, ih hrest fun r hr => hlast r (by simp [hr])⟩
      rcases recordRequest_mem hy with rfl | hy
      · exact ⟨hlt, hxlast.2⟩
      · exact hx y hy
    · rw [if_pos (by omega)]
      refine List.pairwise_cons.mpr ⟨fun y hy => ?_, hrest⟩
      have h₁ := (hx y hy).1
      have h₂ := (hlast y (by simp [hy])).1
      omega

theorem closeIgnored_mem {first second : Int} {ignored : List Range} {p : Range}
    (h : p ∈ closeIgnored first second ignored) :
    p ∈ ignored ∨ (p = (first, second) ∧ first ≠ 1 ∧ second ≠ 1) := by
  unfold closeIgnored at h
  split at h
  · rename_i hset
    rcases List.mem_append.mp h with h | h
    · exact .inl h
    · exact .inr ⟨by simpa using h, hset.1, hset.2.1⟩
  · exact .inl h

theorem ignoredLoop_ascending {P : Int → Prop} {oldest : Int} (hold : P oldest) (i : Nat)
    (requests : List (Int × Int)) (first second : Int) (ignored : List Range)
    (hsorted : requests.Pairwise fun a b => b.2 ≤ a.2)
    (hvalues : ∀ r ∈ requests, P r.2 ∧ oldest ≤ r.2) (hfirst : first ≠ 1 → P first)
    (hsecond : second ≠ 1 → P second ∧ first ≤ second ∧ oldest ≤ second ∧
      ∀ r ∈ requests, r.2 ≤ second) :
    ∀ p ∈ ignoredLoop config oldest i requests first second ignored,
      p ∈ ignored ∨ (P p.1 ∧ P p.2 ∧ p.1 ≤ p.2) := by
  induction requests generalizing i first second ignored with
  | nil =>
    intro p hp
    rcases closeIgnored_mem hp with h | ⟨rfl, h₁, h₂⟩
    · exact .inl h
    · exact .inr ⟨hfirst h₁, (hsecond h₂).1, (hsecond h₂).2.1⟩
  | cons r rest ih =>
    obtain ⟨hr, hrest⟩ := List.pairwise_cons.mp hsorted
    obtain ⟨hrP, hrold⟩ := hvalues r (by simp)
    have hvalues' : ∀ x ∈ rest, P x.2 ∧ oldest ≤ x.2 := fun x hx => hvalues x (by simp [hx])
    unfold ignoredLoop
    split
    · split
      · intro p hp
        rcases closeIgnored_mem hp with h | ⟨rfl, -, h₂⟩
        · exact .inl h
        · exact .inr ⟨hold, (hsecond h₂).1, (hsecond h₂).2.2.1⟩
      · rename_i hunset
        intro p hp
        rcases closeIgnored_mem hp with h | ⟨-, h₁, -⟩
        · rcases List.mem_append.mp h with h | h
          · exact .inl h
          · obtain rfl : p = (oldest, r.2) := by simpa using h
            exact .inr ⟨hold, hrP, hrold⟩
        · exact absurd h₁ hunset
    · have hnext : (if i % (config.nakDelayIntervals + 1) = 1 then r.2 else second) ≠ 1 →
          P (if i % (config.nakDelayIntervals + 1) = 1 then r.2 else second) ∧
          r.2 ≤ (if i % (config.nakDelayIntervals + 1) = 1 then r.2 else second) ∧
          oldest ≤ (if i % (config.nakDelayIntervals + 1) = 1 then r.2 else second) ∧
          ∀ x ∈ rest, x.2 ≤ (if i % (config.nakDelayIntervals + 1) = 1 then r.2 else second) := by
        split
        · exact fun _ => ⟨hrP, le_rfl, hrold, hr⟩
        · intro hne
          obtain ⟨h₁, -, h₃, h₄⟩ := hsecond hne
          exact ⟨h₁, h₄ r (by simp), h₃, fun x hx => h₄ x (by simp [hx])⟩
      simp only
      generalize (if i % (config.nakDelayIntervals + 1) = 1 then r.2 else second) = second' at *
      split
      · split
        · rename_i hset
          intro p hp
          rcases ih (i + 1) 1 1 _ hrest hvalues' (by simp) (by simp) p hp with h | h
          · rcases List.mem_append.mp h with h | h
            · exact .inl h
            · obtain rfl : p = (r.2, second') := by simpa using h
              exact .inr ⟨hrP, (hnext hset.2).1, (hnext hset.2).2.1⟩
          · exact .inr h
        · exact ih (i + 1) r.2 second' ignored hrest hvalues' (fun _ => hrP) hnext
      · refine ih (i + 1) _ second' ignored hrest hvalues' ?_ ?_
        · split
          · exact fun _ => hrP
          · exact hfirst
        · intro hne
          rw [if_pos hne]
          exact hnext hne

theorem ignoredRanges_ascending {P : Int → Prop} {requests : List (Int × Int)}
    (hmarks : requests.Pairwise fun a b => a.1 < b.1 ∧ a.2 ≤ b.2)
    (hvalues : ∀ r ∈ requests.dropLast, P r.2) :
    ∀ p ∈ ignoredRanges config requests, P p.1 ∧ P p.2 ∧ p.1 ≤ p.2 := by
  unfold ignoredRanges
  split
  · rename_i newest r rest hrev
    have hrequests : requests = (r :: rest).reverse ++ [newest] := by
      rw [← List.reverse_reverse requests, hrev, List.reverse_cons]
    have hlast : requests.dropLast = (r :: rest).reverse := by
      rw [hrequests, List.dropLast_concat]
    have hmem : ∀ x ∈ r :: rest, x ∈ requests.dropLast := fun x hx => by
      rw [hlast]
      exact List.mem_reverse.mpr hx
    have hsorted : (r :: rest).Pairwise fun a b => b.2 ≤ a.2 := by
      have h := List.pairwise_reverse.mpr (hmarks.imp fun h => h.2)
      rw [hrev] at h
      exact (List.pairwise_cons.mp h).2
    cases requests with
    | nil => simp at hrev
    | cons oldest later =>
      have holdest : ∀ x ∈ oldest :: later, oldest.2 ≤ x.2 := by
        intro x hx
        rcases List.mem_cons.mp hx with rfl | hx
        · exact le_rfl
        · exact ((List.pairwise_cons.mp hmarks).1 x hx).2
      have hmore : later ≠ [] := by
        rintro rfl
        simp at hlast
      have hfirst : oldest ∈ (oldest :: later).dropLast := by
        rw [List.dropLast_cons_of_ne_nil hmore]
        exact List.mem_cons_self
      intro p hp
      have h := ignoredLoop_ascending (P := P) (hvalues oldest hfirst) 1 (r :: rest) 1 1 []
        hsorted (fun x hx => ⟨hvalues x (hmem x hx), holdest x (List.dropLast_subset _ (hmem x hx))⟩)
        (by simp) (by simp) p hp
      simpa using h
  · simp

theorem suppress_total {received : List Range} (wf : WellFormed received) (ignored : List Range)
    (h : ∀ p ∈ ignored, (0 ≤ p.1 ∧ p.1 ≤ maxValue) ∧ (0 ≤ p.2 ∧ p.2 ≤ maxValue) ∧ p.1 ≤ p.2) :
    ∃ after, suppress received ignored = .ok after := by
  induction ignored generalizing received with
  | nil => exact ⟨received, rfl⟩
  | cons p rest ih =>
    have hrest : ∀ q ∈ rest, _ := fun q hq => h q (by simp [hq])
    obtain ⟨h₁, h₂, h₃⟩ := h p (by simp)
    unfold suppress
    split
    · obtain ⟨grew, after, heq, hwf, -⟩ := insertI_weak
        (if p.1 < cumulativeAck received then cumulativeAck received else p.1, p.2) wf
        (by simp only; split <;> omega) (by simp only; split <;> omega) h₂.2
      simp only [heq]
      exact ih hwf hrest
    · exact ih wf hrest

theorem sendNaks_inv (config : Config) (inv : SessionInv s) (now : Int) (hclock : ∀ r ∈ s.nakRequests, r.1 ≤ now) :
    ∃ naks after, sendNaks config s now = .ok (naks, after) ∧ SessionInv after := by
  unfold sendNaks
  split
  · exact ⟨_, _, rfl, inv⟩
  · rename_i hacked
    split
    · exact ⟨_, _, rfl, inv⟩
    · rename_i hdisjoint
      have hne : s.nakSequence ≠ [] := by
        rintro h
        simp [h, disjoint] at hdisjoint
      have hmarks := recordRequest_marks now inv.marks
        (fun r hr => ⟨hclock r hr, (inv.bounded r hr).2.2⟩)
      have hbounded : ∀ r ∈ recordRequest now (high s.nakSequence) s.nakRequests,
          low s.nakSequence ≤ r.2 ∧ r.2 ≤ high s.nakSequence := by
        intro r hr
        rcases recordRequest_mem hr with rfl | hr
        · exact ⟨low_le inv.wellFormed.canonical (covers_high inv.wellFormed.canonical hne), le_rfl⟩
        · exact (inv.bounded r hr).2
      generalize recordRequest now (high s.nakSequence) s.nakRequests = requests at *
      obtain ⟨received, hsuppress⟩ := suppress_total inv.wellFormed (ignoredRanges config requests)
        (ignoredRanges_ascending (P := fun v => 0 ≤ v ∧ v ≤ maxValue) hmarks fun r hr =>
          have hrequest := hbounded r (List.dropLast_subset _ hr)
          ⟨(low_nonneg inv.wellFormed).trans hrequest.1,
            hrequest.2.trans (high_le inv.wellFormed hne)⟩)
      simp only [hsuppress, inv.peers, suppressPeers]
      exact ⟨_, _, rfl, inv.wellFormed, hmarks, fun r hr => ⟨hne, hbounded r hr⟩,
        fun _ => by simpa using hacked, rfl⟩

end

theorem step_ascending (config : Config) {s : Session} (inv : SessionInv s) {e : Event}
    (hdom : InDomain e) (hkeeps : KeepsAscending config s e) :
    ∃ after, step config s e = .ok after ∧ SessionInv after := by
  cases e with
  | header header =>
    obtain ⟨fresh, seqs, heq, hinv, -⟩ := checkHeader_inv inv hdom.1 hdom.2
    exact ⟨_, by simp only [step, heq], hinv⟩
  | control header control => exact controlReceived_inv inv hdom hkeeps
  | tick expireAt sendAt =>
    obtain ⟨requests, seqs, heq, hinv, hsub⟩ := expireNaks_inv config inv expireAt
    obtain ⟨naks, after, heq', hinv'⟩ := sendNaks_inv config hinv sendAt
      fun r hr => hkeeps r (hsub r hr)
    exact ⟨after, by simp only [step, heq, heq'], hinv'⟩

/-- No operation of a passive session raises in a run whose events keep the ranges
ascending. -/
theorem passive_session_never_raises {config : Config} {remotePeer : Nat} {acked : Bool}
    {events : List Event} {x : Except Fault Session}
    (run : Run (.ok (Session.started remotePeer acked)) (AscendingOutcomes config) events x) :
    ∃ s, x = .ok s := by
  have hinv : ∃ s, x = .ok s ∧ SessionInv s := by
    refine run.invariant (fun x => ∃ s, x = .ok s ∧ SessionInv s)
      ⟨_, rfl, started_inv remotePeer acked⟩ ?_
    rintro y e z ⟨s, rfl, inv⟩ ⟨s', hs, hdom, hkeeps, rfl⟩
    cases hs
    exact step_ascending config inv hdom hkeeps
  obtain ⟨s, rfl, -⟩ := hinv
  exact ⟨s, rfl⟩

private def exampleConfig : Config :=
  { localPeer := 1, nakTimeout := 30, nakDelayIntervals := 4, nakMax := 3 }

/-- A SYN at number two, data up to number five with a gap, a NAK interval, and a NAKACK
that gives up number three. -/
theorem passive_session_never_raises_after_syn :
    ∃ events x, Run (.ok (Session.started 7 false)) (AscendingOutcomes exampleConfig) events x ∧
      events.length = 4 ∧ ∃ s, x = .ok s := by
  have h₁ : AscendingOutcomes exampleConfig (.ok (Session.started 7 false))
      (.control ⟨7, 2⟩ (.syn 1)) (.ok ⟨7, true, [(1, 2)], [], []⟩) :=
    ⟨_, rfl, ⟨by decide, trivial⟩, fun _ _ _ => by decide, rfl⟩
  have h₂ : AscendingOutcomes exampleConfig (.ok ⟨7, true, [(1, 2)], [], []⟩)
      (.header ⟨7, 5⟩) (.ok ⟨7, true, [(1, 2), (5, 5)], [], []⟩) :=
    ⟨_, rfl, ⟨by decide, by decide⟩, trivial, rfl⟩
  have h₃ : AscendingOutcomes exampleConfig (.ok ⟨7, true, [(1, 2), (5, 5)], [], []⟩)
      (.tick 100 100) (.ok ⟨7, true, [(1, 2), (5, 5)], [(100, 5)], []⟩) :=
    ⟨_, rfl, trivial, by simp [KeepsAscending], rfl⟩
  have h₄ : AscendingOutcomes exampleConfig (.ok ⟨7, true, [(1, 2), (5, 5)], [(100, 5)], []⟩)
      (.control ⟨7, 6⟩ (.nakack 4)) (.ok ⟨7, true, [(1, 3), (5, 5)], [(100, 5)], []⟩) :=
    ⟨_, rfl, ⟨by decide, by decide⟩, fun _ => ⟨by decide, by decide, fun h => absurd h.1 (by decide)⟩,
      rfl⟩
  have run := (((Run.start.next h₁).next h₂).next h₃).next h₄
  exact ⟨_, _, run, rfl, passive_session_never_raises run⟩

/-- Number five was received, and a NAKACK says that nothing below three can be
repaired. -/
theorem passive_session_raises :
    ¬ ∀ (config : Config) (remotePeer : Nat) (acked : Bool) (events : List Event)
      (x : Except Fault Session),
      Run (.ok (Session.started remotePeer acked)) (Outcomes config) events x → ∃ s, x = .ok s := by
  intro claim
  have h₁ : Outcomes exampleConfig (.ok (Session.started 7 true)) (.header ⟨7, 5⟩)
      (.ok ⟨7, true, [(5, 5)], [], []⟩) := ⟨_, rfl, ⟨by decide, by decide⟩, rfl⟩
  have h₂ : Outcomes exampleConfig (.ok ⟨7, true, [(5, 5)], [], []⟩)
      (.control ⟨7, 6⟩ (.nakack 3)) (.error .rangeInvalid) :=
    ⟨_, rfl, ⟨by decide, by decide⟩, rfl⟩
  obtain ⟨s, hs⟩ := claim exampleConfig 7 true _ _ ((Run.start.next h₁).next h₂)
  cases hs

end OpenDDS.Guarantees.AscendingRanges
