import Mathlib.Data.List.Nodup
import OpenDDS.Guarantees.AddedRanges
import OpenDDS.Source.ReliableSession

/-!
# Requests that a passive multicast session gives up

`expire_naks` looks up the first request that has not expired and takes the mark of that
one, not of the last request in front of it. What was missing below it is given up,
although the request for it is still open.
-/
namespace OpenDDS.Guarantees.RequestExpiry
open Library Library.RangeList Source Source.SequenceNumber Source.DisjointSequence
open Source.ReliableSession AddedRanges

/-- The numbers that a sender gives. `operator>>` hands on what it reads, also a number below one. -/
def Positive (sequence : Int) : Prop := 1 ≤ sequence ∧ sequence ≤ maxValue

def InDomain : Event → Prop
  | .header header => Positive header.sequence
  | .control header (.nakack low) => Positive header.sequence ∧ Positive low
  | .control header _ => Positive header.sequence
  | .tick _ _ => True

/-- An event of the domain; the outcome is the session or the exception. -/
def Outcomes (domain : Event → Prop) (config : Config) (x : Except Fault Session) (e : Event)
    (y : Except Fault Session) : Prop :=
  ∃ s, x = .ok s ∧ domain e ∧ y = step config s e

/-- A session that was reached by events of the domain. -/
def Reached (domain : Event → Prop) (config : Config) (s : Session) : Prop :=
  ∃ remotePeer acked events,
    Run (.ok (Session.started remotePeer acked)) (Outcomes domain config) events (.ok s)

/-- The requests are a map by times, and there are none before something was received. -/
structure Tracked (s : Session) : Prop where
  wellFormed : WellFormed s.nakSequence
  positive : ∀ n, Covers s.nakSequence n → 1 ≤ n
  times : s.nakRequests.Pairwise fun a b => a.1 < b.1
  marks : ∀ r ∈ s.nakRequests, 1 < r.2 ∧ r.2 ≤ maxValue
  received : s.nakRequests ≠ [] → s.nakSequence ≠ [] ∧ s.acked = true
  peers : s.nakPeers = []

theorem started_tracked (remotePeer : Nat) (acked : Bool) :
    Tracked (Session.started remotePeer acked) where
  wellFormed := wellFormed_nil
  positive := fun n hn => absurd hn (covers_nil n)
  times := .nil
  marks := by simp [Session.started]
  received := fun h => absurd rfl h
  peers := rfl

variable {header : TransportHeader} {requests : List (Int × Int)} {dropped : List Range}

section

variable {config : Config} {s after : Session}

theorem Tracked.receive (inv : Tracked s) {seqs : List Range} (hwf : WellFormed seqs)
    (hpos : ∀ n, Covers seqs n → 1 ≤ n) (hne : seqs ≠ []) :
    Tracked { s with nakSequence := seqs } :=
  ⟨hwf, hpos, inv.times, inv.marks, fun h => ⟨hne, (inv.received h).2⟩, inv.peers⟩

theorem checkHeader_tracked (inv : Tracked s) {fresh : Bool} (hdom : Positive header.sequence)
    (h : checkHeader s header = .ok (fresh, after)) : Tracked after := by
  unfold checkHeader at h
  split at h
  · cases h
    exact inv
  · obtain ⟨grew, seqs, heq, hwf, hcov⟩ :=
      insert_spec inv.wellFormed (by have := hdom.1; omega) hdom.2
    rw [heq] at h
    cases h
    refine inv.receive hwf (fun n hn => ?_) (ne_nil_of_covers ((hcov _).mpr (.inr rfl)))
    rcases (hcov n).mp hn with hold | rfl
    · exact inv.positive n hold
    · exact hdom.1

theorem low_pos (inv : Tracked s) (hne : s.nakSequence ≠ []) : 1 ≤ low s.nakSequence :=
  inv.positive _ (covers_low inv.wellFormed.canonical hne)

theorem dropUpTo_ok {last : Int} (h : dropUpTo s last = .ok (dropped, after)) :
    s.nakSequence ≠ [] ∧ low s.nakSequence ≤ last ∧
      ∃ grew seqs, after = { s with nakSequence := seqs } ∧
        gapsOf s.nakSequence (low s.nakSequence, last) = .ok dropped ∧
        insertI s.nakSequence (low s.nakSequence, last) = .ok (grew, seqs) := by
  unfold dropUpTo at h
  split at h
  · cases h
  · rename_i hempty
    have hne : s.nakSequence ≠ [] := by simpa [empty] using hempty
    split at h
    · cases h
    · rename_i grew seqs gaps heq
      cases h
      obtain ⟨hgaps, hinsert⟩ := insertGaps_eq_ok.mp heq
      refine ⟨hne, ?_, grew, seqs, rfl, hgaps, hinsert⟩
      by_contra hlt
      unfold insertI at hinsert
      rw [if_pos (by simp only; omega)] at hinsert
      cases hinsert

theorem dropUpTo_tracked (inv : Tracked s) {last : Int} (hmax : last ≤ maxValue)
    (h : dropUpTo s last = .ok (dropped, after)) :
    Tracked after ∧ after.nakRequests = s.nakRequests := by
  obtain ⟨hne, hasc, grew, seqs, rfl, -, hinsert⟩ := dropUpTo_ok h
  have hlow := low_pos inv hne
  obtain ⟨grew', seqs', heq, hwf, hlast, -, hcov⟩ :=
    insertI_weak (low s.nakSequence, last) inv.wellFormed (by simp only; omega) hasc hmax
  rw [heq] at hinsert
  cases hinsert
  refine ⟨inv.receive hwf (fun n hn => ?_) (ne_nil_of_covers hlast), rfl⟩
  rcases hcov n hn with hold | ⟨hlo, -⟩
  · exact inv.positive n hold
  · exact hlow.trans hlo

theorem synReceived_tracked (inv : Tracked s) {peer : Nat} (hdom : Positive header.sequence)
    (h : synReceived config s header peer = .ok after) : Tracked after := by
  unfold synReceived at h
  split at h
  · cases h
    exact inv
  · split at h
    · cases h
      exact inv
    · split at h
      · cases h
        exact inv
      · rename_i hacked
        have hnone : s.nakRequests = [] := by
          by_contra hne
          exact hacked (inv.received hne).2
        obtain ⟨grew, seqs, heq, hwf, hcov⟩ :=
          insertI_reset (ofValue minValue, header.sequence) (by simp [ofValue, minValue]) hdom.1
            hdom.2
        simp only [synHook, show ([] : List Range) = reset from rfl, heq] at h
        cases h
        exact ⟨hwf, fun n hn => ((hcov n).mp hn).1, inv.times, inv.marks,
          fun hne => absurd hnone hne, inv.peers⟩

theorem nakackReceived_tracked (inv : Tracked s) {mark : Int} (hdom : Positive mark)
    (h : nakackReceived s header mark = .ok after) : Tracked after := by
  unfold nakackReceived at h
  split at h
  · cases h
    exact inv
  · split at h
    · cases h
    · rename_i hdrop
      cases h
      refine (dropUpTo_tracked inv ?_ hdrop).1
      have hmark := hdom.2
      unfold previous
      split <;> omega

theorem controlReceived_tracked (inv : Tracked s) {control : Control}
    (hdom : InDomain (.control header control))
    (h : controlReceived config s header control = .ok after) : Tracked after := by
  have hheader : Positive header.sequence := by
    cases control with
    | nakack mark => exact hdom.1
    | _ => exact hdom
  unfold controlReceived at h
  split at h
  · cases h
  · rename_i fresh recorded hrecord
    have hinv : Tracked recorded := by
      split at hrecord
      · exact checkHeader_tracked inv hheader hrecord
      · cases hrecord
        exact inv
    cases control with
    | syn peer => exact synReceived_tracked hinv hheader h
    | synack peer =>
      cases h
      exact hinv
    | nak peer ranges =>
      cases h
      exact hinv
    | nakack mark => exact nakackReceived_tracked hinv hdom.2 h

theorem lastExpired_mem {deadline : Int} (h : requests.takeWhile (fun r => r.1 ≤ deadline) ≠ []) :
    ∃ r ∈ requests, lastExpired requests (requests.dropWhile fun r => r.1 ≤ deadline) = r.2 := by
  have hsplit : requests.takeWhile (fun r => r.1 ≤ deadline) ++
      requests.dropWhile (fun r => r.1 ≤ deadline) = requests := List.takeWhile_append_dropWhile
  cases hkept : requests.dropWhile (fun r => r.1 ≤ deadline) with
  | nil =>
    have hne : requests ≠ [] := by
      rintro rfl
      exact h rfl
    exact ⟨_, List.getLast_mem hne, by simp [lastExpired, List.getLast?_eq_some_getLast hne]⟩
  | cons r rest =>
    refine ⟨r, ?_, rfl⟩
    rw [← hsplit, hkept]
    simp

theorem expireDropping_tracked (inv : Tracked s) {now : Int}
    (h : expireDropping config s now = .ok (dropped, after)) : Tracked after := by
  unfold expireDropping at h
  simp only at h
  split at h
  · cases h
    exact inv
  · rename_i hexpired
    obtain ⟨r, hr, hlast⟩ := lastExpired_mem hexpired
    split at h
    · cases h
    · rename_i dropped' dropping hdrop
      cases h
      rw [hlast] at hdrop
      obtain ⟨hinv, hrequests⟩ := dropUpTo_tracked inv (inv.marks r hr).2 hdrop
      have hkept := List.dropWhile_sublist (l := s.nakRequests) fun r : Int × Int =>
        decide (r.1 ≤ now - config.nakTimeout)
      refine ⟨hinv.wellFormed, hinv.positive, inv.times.sublist hkept,
        fun r hr => inv.marks r (hkept.subset hr), fun hne => hinv.received ?_, hinv.peers⟩
      rw [hrequests]
      rintro hnil
      simp [hnil] at hne

theorem recordRequest_times (now seq : Int) (h : requests.Pairwise fun a b => a.1 < b.1) :
    (recordRequest now seq requests).Pairwise fun a b => a.1 < b.1 := by
  induction requests with
  | nil => simp [recordRequest]
  | cons x rest ih =>
    obtain ⟨hx, hrest⟩ := List.pairwise_cons.mp h
    unfold recordRequest
    split
    · rename_i hlt
      refine List.pairwise_cons.mpr ⟨fun r hr => ?_, ih hrest⟩
      rcases recordRequest_mem hr with rfl | hr
      · exact hlt
      · exact hx r hr
    · split
      · rename_i heq
        exact List.pairwise_cons.mpr ⟨fun r hr => heq ▸ hx r hr, hrest⟩
      · refine List.pairwise_cons.mpr ⟨fun r hr => ?_, h⟩
        rcases List.mem_cons.mp hr with rfl | hr
        · omega
        · have := hx r hr
          omega

theorem Tracked.record (inv : Tracked s) (hacked : s.acked = true)
    (hdisjoint : disjoint s.nakSequence = true) (now : Int) :
    Tracked { s with nakRequests := recordRequest now (high s.nakSequence) s.nakRequests } := by
  have hne : s.nakSequence ≠ [] := by
    rintro h
    simp [h, disjoint] at hdisjoint
  have hgap := cumulativeAck_lt_high inv.wellFormed hdisjoint
  have hack := low_le_cumulativeAck inv.wellFormed.canonical hne
  have hlow := low_pos inv hne
  refine ⟨inv.wellFormed, inv.positive, recordRequest_times now _ inv.times, fun r hr => ?_,
    fun _ => ⟨hne, hacked⟩, inv.peers⟩
  rcases recordRequest_mem hr with rfl | hr
  · exact ⟨by simp only; omega, high_le inv.wellFormed hne⟩
  · exact inv.marks r hr

theorem sendNaks_tracked (inv : Tracked s) {now : Int} {naks : List Range}
    (h : sendNaks config s now = .ok (naks, after)) : Tracked after := by
  unfold sendNaks at h
  split at h
  · cases h
    exact inv
  · rename_i hacked
    split at h
    · cases h
      exact inv
    · rename_i hdisjoint
      have hinv := inv.record (by simpa using hacked) (by simpa using hdisjoint) now
      simp only at h
      split at h
      · cases h
      · split at h
        · cases h
        · cases h
          exact ⟨hinv.wellFormed, hinv.positive, hinv.times, hinv.marks, hinv.received, rfl⟩

theorem step_tracked (inv : Tracked s) {e : Event} (hdom : InDomain e)
    (h : step config s e = .ok after) : Tracked after := by
  cases e with
  | header header =>
    simp only [step] at h
    split at h
    · cases h
    · rename_i heq
      cases h
      exact checkHeader_tracked inv hdom heq
  | control header control => exact controlReceived_tracked inv hdom h
  | tick expireAt sendAt =>
    simp only [step, expireNaks_eq] at h
    split at h
    · cases h
    · rename_i hexpire
      cases hdropping : expireDropping config s expireAt with
      | error fault => simp [hdropping, Except.map] at hexpire
      | ok result =>
        have hmid : Tracked result.2 := expireDropping_tracked inv hdropping
        rw [hdropping] at hexpire
        cases hexpire
        split at h
        · cases h
        · rename_i hsend
          cases h
          exact sendNaks_tracked hmid hsend

end

theorem Reached.tracked {config : Config} {s : Session} (h : Reached InDomain config s) : Tracked s := by
  obtain ⟨remotePeer, acked, events, run⟩ := h
  refine run.invariant (fun x => ∀ s, x = .ok s → Tracked s) ?_ ?_ s rfl
  · rintro s heq
    cases heq
    exact started_tracked remotePeer acked
  · rintro x e y hinv ⟨s, rfl, hdom, rfl⟩ after heq
    exact step_tracked (hinv s rfl) hdom heq

section

variable {seqs gaps : List Range} {last : Int}

theorem reported_fromLow (wf : WellFormed seqs) (hpos : ∀ n, Covers seqs n → 1 ≤ n) (hne : seqs ≠ [])
    (hasc : low seqs ≤ last) (hmax : last ≤ maxValue) (hclash : ¬ Clash seqs (low seqs, last))
    (hgaps : gapsOf seqs (low seqs, last) = .ok gaps) :
    (∀ n, low seqs ≤ n → n ≤ last → ¬ Covers seqs n → Covers gaps n) ∧
      ∀ n, Covers gaps n → ∃ m, n ≤ m ∧ low seqs ≤ m ∧ m ≤ last ∧ ¬ Covers seqs m := by
  have hlow := hpos _ (covers_low wf.canonical hne)
  have hrange : (low seqs, last).1 ≤ (low seqs, last).2 := hasc
  cases hnew : startsBy (reaching last seqs) (low seqs) with
  | true =>
    have hall := (startsBy_iff wf hrange).mp hnew
    have hnone : gaps = [] := by
      unfold gapsOf at hgaps
      rw [if_neg (by simp only; omega)] at hgaps
      simp only [hnew, if_true] at hgaps
      cases hgaps
      rfl
    subst hnone
    exact ⟨fun n hlo hhi hn => absurd (hall n hlo hhi) hn, fun n hn => absurd hn (covers_nil n)⟩
  | false =>
    obtain ⟨replaced, hbelow, hstart, hclear⟩ :=
      replaced_split wf (by simp only; omega) hrange hmax hnew hclash
    have hkey := previousKey_eq (show 0 ≤ low seqs by omega)
    -- The search from `low()` finds the whole set.
    have hwhole : reaching (previousKey (low seqs)) seqs = seqs := by
      cases seqs with
      | nil => rfl
      | cons x rest =>
        have hx := wf.canonical.nonempty x (by simp)
        refine reaching_cons_of_ge ?_
        rw [low_cons] at hkey hlow ⊢
        omega
    have hsplit := hbelow
    rw [hwhole] at hsplit
    cases replaced with
    | nil =>
      rw [List.nil_append] at hsplit
      obtain ⟨r, hr, hlo, -⟩ := covers_low wf.canonical hne
      have := hclear r (hsplit ▸ hr)
      omega
    | cons b ms =>
      have hlowb : low seqs = b.1 := by
        rw [hsplit]
        rfl
      have hc := wf.canonical
      rw [hsplit] at hc
      obtain ⟨hcreplaced, -, hacross⟩ := canonical_append.mp hc
      obtain ⟨hbne, hlt, hcm⟩ := canonical_cons.mp hcreplaced
      have hstored : ∀ n, Covers seqs n → n ≤ last → (b.1 ≤ n ∧ n ≤ b.2) ∨ Covers ms n := by
        intro n hn hle
        rw [hsplit, covers_append, covers_cons] at hn
        rcases hn with hn | ⟨r, hr, hlo, -⟩
        · exact hn
        · have := hclear r hr
          omega
      have hbehind : ∀ n, Covers ms n → b.2 + 1 < n := by
        rintro n ⟨m, hm, hlo, -⟩
        have := hlt m hm
        omega
      have hbmem : ∀ n, b.1 ≤ n → n ≤ b.2 → Covers seqs n := fun n hlo hhi =>
        ⟨b, by rw [hsplit]; simp, hlo, hhi⟩
      have hend : b.2 < last := by
        by_contra hle
        have hall : startsBy (reaching last seqs) (low seqs) = true :=
          (startsBy_iff wf hrange).mpr fun n hlo hhi => by
            exact hbmem n (by omega) (by omega)
        rw [hnew] at hall
        cases hall
      have hmissing : ¬ Covers seqs (b.2 + 1) := by
        intro hn
        rcases hstored _ hn (by omega) with hin | hin
        · omega
        · have := hbehind _ hin
          omega
      rw [gapsOf_replaced hasc hnew rfl hbelow, Except.ok.injEq] at hgaps
      obtain ⟨-, -, hcov⟩ := gapLoop_spec (show (low seqs, last).2 ≤ maxValue from hmax) b.2 (by omega) hcm
        (fun m hm => hlt m hm) (fun m hm => hstart m (by simp [hm]))
      subst hgaps
      constructor
      · intro n hlo hhi hn
        refine (covers_append _ _ _).mpr (.inr ((hcov n).mpr ⟨⟨?_, hhi⟩, fun hin => hn ?_⟩))
        · by_contra hle
          exact hn (hbmem n (by omega) (by omega))
        · rw [hsplit, covers_append, covers_cons]
          exact .inl (.inr hin)
      · intro n hn
        rcases (covers_append _ _ _).mp hn with hfirst | hrest
        · refine ⟨b.2 + 1, ?_, by omega, by omega, hmissing⟩
          split at hfirst
          · obtain ⟨r, hr, -, hhi⟩ := hfirst
            cases List.mem_singleton.mp hr
            rw [previous_of_ne (by omega)] at hhi
            omega
          · exact absurd hfirst (covers_nil n)
        · obtain ⟨⟨hlo, hhi⟩, hnot⟩ := (hcov n).mp hrest
          refine ⟨n, le_rfl, by omega, hhi, fun hin => ?_⟩
          rcases hstored n hin hhi with ⟨-, hle⟩ | hms
          · omega
          · exact hnot hms

theorem reported_le (wf : WellFormed seqs) {first : Int} (hgaps : gapsOf seqs (first, maxValue) = .ok gaps)
    {n : Int} (hn : Covers gaps n) : n ≤ maxValue := by
  have hof : ∀ value, value ≤ maxValue → ofValue value ≤ maxValue := by
    intro value hvalue
    unfold ofValue
    split
    · decide
    · exact hvalue
  have hloop : ∀ (ms : List Range) (lastGap : Int),
      ∀ r ∈ gapLoop (first, maxValue) lastGap ms, r.2 ≤ maxValue := by
    intro ms
    induction ms with
    | nil =>
      intro lastGap r hr
      unfold gapLoop at hr
      split at hr
      · cases List.mem_singleton.mp hr
        exact le_rfl
      · cases hr
    | cons m rest ih =>
      intro lastGap r hr
      rcases List.mem_cons.mp hr with rfl | hr
      · exact hof _ (min_le_right _ _)
      · exact ih _ r hr
  have hends : ∀ r ∈ gaps, r.2 ≤ maxValue := by
    unfold gapsOf at hgaps
    split at hgaps
    · cases hgaps
    · split at hgaps
      · cases hgaps
        simp
      · simp only at hgaps
        split at hgaps
        · cases hgaps
          simp
        · rename_i b rest hreach
          split at hgaps
          · cases hgaps
          · cases hgaps
            intro r hr
            rcases List.mem_append.mp hr with hr | hr
            · split at hr
              · cases List.mem_singleton.mp hr
                have hb := (wf.within b (List.dropWhile_subset _
                  (show b ∈ reaching (previousKey first) seqs by rw [hreach]; simp))).2
                simp only [previous]
                split <;> omega
              · cases hr
            · exact hloop _ _ r hr
  obtain ⟨r, hr, -, hhi⟩ := hn
  exact hhi.trans (hends r hr)

end

section

variable {config : Config} {s : Session}

/-- Giving up everything to `last` touches no number of an upper set, exactly if none of them is
missing up to `last` and the largest value is not reported along with them. -/
theorem dropUpTo_spares_iff (inv : Tracked s) (hne : s.nakSequence ≠ []) {last : Int}
    (hmax : last ≤ maxValue) {Beyond : Int → Prop} (hup : ∀ n m, n ≤ m → Beyond n → Beyond m) :
    (∀ dropped after, dropUpTo s last = .ok (dropped, after) → ∀ n, Beyond n →
        (Covers after.nakSequence n → Covers s.nakSequence n) ∧ ¬ Covers dropped n) ↔
      (∀ n, low s.nakSequence ≤ n → n ≤ last → Beyond n → Covers s.nakSequence n) ∧
        ¬ (Clash s.nakSequence (low s.nakSequence, last) ∧ Beyond maxValue) := by
  have hlow := low_pos inv hne
  by_cases hasc : low s.nakSequence ≤ last
  · obtain ⟨dropped, hgaps⟩ := gapsOf_fromLow inv.wellFormed hne hasc
    obtain ⟨grew, seqs, hinsert, -, -, -, hcov⟩ := insertI_weak (low s.nakSequence, last)
      inv.wellFormed (by simp only; omega) hasc hmax
    have heq : dropUpTo s last = .ok (dropped, { s with nakSequence := seqs }) := by
      have hempty : empty s.nakSequence = false := by simpa [empty] using hne
      simp [dropUpTo, hempty, insertGaps, hgaps, hinsert]
    by_cases hclash : Clash s.nakSequence (low s.nakSequence, last)
    · have hlast : last = maxValue := hclash.1
      obtain ⟨hreported, -⟩ := clash_reported inv.wellFormed (by simp only; omega) hasc hclash hgaps
      subst hlast
      constructor
      · intro hspares
        have hnot : ¬ Beyond maxValue := fun hb => (hspares _ _ heq maxValue hb).2 hreported
        exact ⟨fun n _ hle hb => absurd (hup n maxValue hle hb) hnot, fun h => hnot h.2⟩
      · rintro ⟨hstored, hnot⟩ dropped' after hdrop n hb
        rw [heq] at hdrop
        cases hdrop
        refine ⟨fun hn => ?_, fun hn => ?_⟩
        · rcases hcov n hn with hold | ⟨hlo, hhi⟩
          · exact hold
          · exact hstored n hlo hhi hb
        · exact hnot ⟨hclash, hup n _ (reported_le inv.wellFormed hgaps hn) hb⟩
    · obtain ⟨hmissing, hreported⟩ :=
        reported_fromLow inv.wellFormed inv.positive hne hasc hmax hclash hgaps
      constructor
      · intro hspares
        refine ⟨fun n hlo hhi hb => ?_, fun h => hclash h.1⟩
        by_contra hn
        exact (hspares _ _ heq n hb).2 (hmissing n hlo hhi hn)
      · rintro ⟨hstored, -⟩ dropped' after hdrop n hb
        rw [heq] at hdrop
        cases hdrop
        refine ⟨fun hn => ?_, fun hn => ?_⟩
        · rcases hcov n hn with hold | ⟨hlo, hhi⟩
          · exact hold
          · exact hstored n hlo hhi hb
        · obtain ⟨m, hle, hlo, hhi, hm⟩ := hreported n hn
          exact hm (hstored m hlo hhi (hup n m hle hb))
  · -- The descending range raises, and nothing is marked.
    constructor
    · intro _
      refine ⟨fun n hlo hhi _ => absurd (hlo.trans hhi) hasc, ?_⟩
      rintro ⟨⟨hlast, -⟩, -⟩
      have := high_le inv.wellFormed hne
      have := le_high inv.wellFormed.canonical (covers_low inv.wellFormed.canonical hne)
      omega
    · intro _ dropped after hdrop
      exact absurd (dropUpTo_ok hdrop).2.1 hasc

/-- The requests older than the expiry time all have a mark below `n`. -/
def Beyond (config : Config) (s : Session) (now n : Int) : Prop :=
  ∀ r ∈ s.nakRequests, r.1 ≤ now - config.nakTimeout → r.2 < n

/-- `expire_naks` neither inserts nor reports a number beyond the expired marks. -/
def GivesUpOnlyExpired (config : Config) (s : Session) (now : Int) : Prop :=
  ∀ dropped after, expireDropping config s now = .ok (dropped, after) → ∀ n, Beyond config s now n →
    (Covers after.nakSequence n → Covers s.nakSequence n) ∧ ¬ Covers dropped n

structure NextRequest (config : Config) (s : Session) (now : Int) (r : Int × Int) : Prop where
  recorded : r ∈ s.nakRequests
  waiting : now - config.nakTimeout < r.1
  earliest : ∀ other ∈ s.nakRequests, now - config.nakTimeout < other.1 → r.1 ≤ other.1

theorem mem_expired (h : requests.Pairwise fun a b => a.1 < b.1) {deadline : Int} {r : Int × Int} :
    (r ∈ requests.takeWhile (fun r => r.1 ≤ deadline) ↔ r ∈ requests ∧ r.1 ≤ deadline) ∧
      (r ∈ requests.dropWhile (fun r => r.1 ≤ deadline) ↔ r ∈ requests ∧ deadline < r.1) := by
  induction requests with
  | nil => simp
  | cons x rest ih =>
    obtain ⟨hx, hrest⟩ := List.pairwise_cons.mp h
    by_cases hle : x.1 ≤ deadline
    · rw [List.takeWhile_cons_of_pos (by simpa using hle), List.dropWhile_cons_of_pos (by simpa using hle),
        List.mem_cons, List.mem_cons, (ih hrest).1, (ih hrest).2]
      constructor
      · constructor
        · rintro (rfl | ⟨hr, hr'⟩)
          · exact ⟨.inl rfl, hle⟩
          · exact ⟨.inr hr, hr'⟩
        · rintro ⟨rfl | hr, hr'⟩
          · exact .inl rfl
          · exact .inr ⟨hr, hr'⟩
      · constructor
        · rintro ⟨hr, hr'⟩
          exact ⟨.inr hr, hr'⟩
        · rintro ⟨rfl | hr, hr'⟩
          · omega
          · exact ⟨hr, hr'⟩
    · rw [List.takeWhile_cons_of_neg (by simpa using hle), List.dropWhile_cons_of_neg (by simpa using hle)]
      have hall : ∀ r ∈ x :: rest, deadline < r.1 := by
        intro r hr
        rcases List.mem_cons.mp hr with rfl | hr
        · omega
        · have := hx r hr
          omega
      refine ⟨⟨fun hr => absurd hr List.not_mem_nil, fun ⟨hr, hr'⟩ => ?_⟩,
        ⟨fun hr => ⟨hr, hall r hr⟩, fun hr => hr.1⟩⟩
      have := hall r hr
      omega

/-- The requests that have expired, as a list from the oldest on. -/
def expired (config : Config) (s : Session) (now : Int) : List (Int × Int) :=
  s.nakRequests.takeWhile fun r => r.1 ≤ now - config.nakTimeout

def kept (config : Config) (s : Session) (now : Int) : List (Int × Int) :=
  s.nakRequests.dropWhile fun r => r.1 ≤ now - config.nakTimeout

theorem givesUpOnlyExpired_iff {now : Int} (hexpired : expired config s now ≠ []) :
    GivesUpOnlyExpired config s now ↔ ∀ dropped after,
      dropUpTo s (lastExpired s.nakRequests (kept config s now)) = .ok (dropped, after) →
        ∀ n, Beyond config s now n →
          (Covers after.nakSequence n → Covers s.nakSequence n) ∧ ¬ Covers dropped n := by
  have heq : expireDropping config s now =
      (dropUpTo s (lastExpired s.nakRequests (kept config s now))).map fun result =>
        (result.1, { result.2 with nakRequests := kept config s now }) := by
    refine (if_neg hexpired).trans ?_
    rw [kept]
    cases dropUpTo s _ <;> rfl
  unfold GivesUpOnlyExpired
  rw [heq]
  cases dropUpTo s (lastExpired s.nakRequests (kept config s now)) with
  | error fault => simp [Except.map]
  | ok result =>
    constructor
    · intro h dropped after hdrop
      cases hdrop
      exact h dropped { after with nakRequests := kept config s now } rfl
    · intro h dropped after hdrop
      cases hdrop
      exact h result.1 result.2 rfl

end

/-- In every reachable session, at every time, `expire_naks` gives up only what has expired,
exactly if nothing has expired, or everything has, or nothing that is missing up to the mark of
the next request lies beyond the expired marks. -/
theorem expiry_marks_iff (config : Config) (s : Session) (hs : Reached InDomain config s) (now : Int) :
    GivesUpOnlyExpired config s now ↔
      ∀ r, NextRequest config s now r →
        (∃ other ∈ s.nakRequests, other.1 ≤ now - config.nakTimeout) →
        (∀ n, low s.nakSequence ≤ n → n ≤ r.2 → Beyond config s now n → Covers s.nakSequence n) ∧
          ¬ (Clash s.nakSequence (low s.nakSequence, r.2) ∧ Beyond config s now maxValue) := by
  have inv := hs.tracked
  have hup : ∀ n m, n ≤ m → Beyond config s now n → Beyond config s now m :=
    fun n m hle hb r hr hexpired => (hb r hr hexpired).trans_le hle
  by_cases hnone : expired config s now = []
  · -- No request has expired.
    refine iff_of_true ?_ ?_
    · intro dropped after heq n _
      have hidle : expireDropping config s now = .ok ([], s) := if_pos hnone
      rw [hidle] at heq
      cases heq
      exact ⟨id, covers_nil n⟩
    · rintro r - ⟨other, hother, hle⟩
      have hmem : other ∈ expired config s now := (mem_expired inv.times).1.mpr ⟨hother, hle⟩
      simp [hnone] at hmem
  · obtain ⟨first, hfirst⟩ := List.exists_mem_of_ne_nil _ hnone
    have hfirst' := (mem_expired inv.times).1.mp hfirst
    have hne := (inv.received (List.ne_nil_of_mem hfirst'.1)).1
    obtain ⟨recorded, hrecorded, hlast⟩ := lastExpired_mem hnone
    rw [givesUpOnlyExpired_iff hnone, kept, hlast,
      dropUpTo_spares_iff inv hne (inv.marks recorded hrecorded).2 hup]
    cases hkept : kept config s now with
    | nil =>
      -- All requests have expired, and the mark is one of theirs.
      have hall : ∀ r ∈ s.nakRequests, r.1 ≤ now - config.nakTimeout := by
        intro r hr
        by_contra hlt
        have hmem : r ∈ kept config s now := (mem_expired inv.times).2.mpr ⟨hr, not_le.mp hlt⟩
        simp [hkept] at hmem
      have hmark : ∀ n, Beyond config s now n → recorded.2 < n := fun n hb =>
        hb recorded hrecorded (hall recorded hrecorded)
      refine iff_of_true ⟨fun n _ hle hb => ?_, fun ⟨hclash, hb⟩ => ?_⟩ ?_
      · have := hmark n hb
        omega
      · have h₁ := hmark _ hb
        have h₂ : recorded.2 = maxValue := hclash.1
        omega
      · rintro r ⟨hr, hwaiting, -⟩
        have := hall r hr
        omega
    | cons r rest =>
      have hnext : NextRequest config s now r := by
        have hmem : ∀ x, x ∈ r :: rest ↔ x ∈ s.nakRequests ∧ now - config.nakTimeout < x.1 := by
          intro x
          rw [← hkept]
          exact (mem_expired inv.times).2
        have htimes : (r :: rest).Pairwise fun a b => a.1 < b.1 := by
          rw [← hkept]
          exact inv.times.sublist (List.dropWhile_sublist _)
        obtain ⟨hr, hwaiting⟩ := (hmem r).mp (by simp)
        refine ⟨hr, hwaiting, fun other hother hlt => ?_⟩
        rcases List.mem_cons.mp ((hmem other).mpr ⟨hother, hlt⟩) with rfl | hrest
        · exact le_rfl
        · exact ((List.pairwise_cons.mp htimes).1 other hrest).le
      have hsame : recorded.2 = r.2 := by
        have hhead : lastExpired s.nakRequests (kept config s now) = r.2 := by
          rw [hkept]
          rfl
        exact hlast.symm.trans hhead
      rw [hsame]
      constructor
      · rintro hspares r' hnext' -
        -- The times tell the requests apart.
        have hequal : r' = r := by
          have h₁ := hnext.earliest r' hnext'.recorded hnext'.waiting
          have h₂ := hnext'.earliest r hnext.recorded hnext.waiting
          have hnodup : (s.nakRequests.map Prod.fst).Nodup :=
            List.pairwise_map.mpr (inv.times.imp ne_of_lt)
          exact List.inj_on_of_nodup_map hnodup hnext'.recorded hnext.recorded (le_antisymm h₂ h₁)
        rw [hequal]
        exact hspares
      · exact fun h => h r hnext ⟨first, hfirst'⟩

def expiryConfig : Config :=
  { localPeer := 1, nakTimeout := 30, nakDelayIntervals := 4, nakMax := 3 }

/-- Numbers 2 and 4 are missing; the request for 2 was recorded at time 100. -/
def waiting : Session := ⟨7, true, [(1, 1), (3, 3), (5, 5)], [(100, 3), (120, 5)], []⟩

/-- Events that go through one after another. -/
theorem run_events {domain : Event → Prop} {config : Config} {start : Except Fault Session}
    {done events : List Event} {s after : Session}
    (run : Run start (Outcomes domain config) done (.ok s)) (hdom : ∀ e ∈ events, domain e)
    (h : events.foldlM (step config) s = .ok after) :
    Run start (Outcomes domain config) (done ++ events) (.ok after) := by
  induction events generalizing s done with
  | nil =>
    cases h
    rwa [List.append_nil]
  | cons e events ih =>
    rw [List.foldlM_cons] at h
    cases hstep : step config s e with
    | error fault =>
      rw [hstep] at h
      cases h
    | ok s₁ =>
      rw [hstep] at h
      have h₁ := run.next ⟨s, rfl, hdom e List.mem_cons_self, hstep.symm⟩
      have hrest := ih h₁ (fun e he => hdom e (List.mem_cons_of_mem _ he)) h
      rwa [List.append_assoc] at hrest

theorem waiting_reached : Reached InDomain expiryConfig waiting :=
  ⟨7, true, [] ++ [.header ⟨7, 1⟩, .header ⟨7, 3⟩, .tick 100 100, .header ⟨7, 5⟩, .tick 120 120],
    run_events .start (by simp [InDomain, Positive, maxValue]) rfl⟩

/-- At time 200 both requests have expired. -/
theorem expiry_marks_all_expired : GivesUpOnlyExpired expiryConfig waiting 200 := by
  refine (expiry_marks_iff expiryConfig waiting waiting_reached 200).mpr ?_
  rintro r ⟨hr, hwaiting, -⟩
  have hold : ∀ r ∈ waiting.nakRequests, ¬ (200 - expiryConfig.nakTimeout < r.1) := by decide
  exact absurd hwaiting (hold r hr)

/-- At time 140 only the request up to 3 has expired, and 4 is given up as well. -/
theorem expiry_gives_up_waiting :
    ¬ ∀ (config : Config) (s : Session) (_ : Reached InDomain config s) (now : Int),
      GivesUpOnlyExpired config s now := by
  intro claim
  have hspares := claim expiryConfig waiting waiting_reached 140
  have heq : expireDropping expiryConfig waiting 140 =
      .ok ([(2, 2), (4, 4)], ⟨7, true, [(1, 5)], [(120, 5)], []⟩) := rfl
  have hbeyond : Beyond expiryConfig waiting 140 4 := by
    unfold Beyond
    decide
  exact (hspares _ _ heq 4 hbeyond).2 ⟨(4, 4), by decide, by decide, by decide⟩

end OpenDDS.Guarantees.RequestExpiry
