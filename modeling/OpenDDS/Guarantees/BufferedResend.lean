import OpenDDS.Source.TransportSendBuffer

/-!
What a `SingleSendBuffer` sends again. `resend_i` covers a range of sequence numbers, and its
result compares the range with the lowest and the highest number buffered: it is right when the
buffer is not empty and has no hole in a range that lies between the two.
`resend_fragments_i` covers a set of fragment numbers, and searches for the last number of each
requested range: it leaves the map when a range goes on behind the last fragment.
-/
namespace OpenDDS.Guarantees.BufferedResend
open Library Library.RangeList Source Source.SingleSendBuffer
open Source.SequenceNumber (maxValue next)
open Source.DisjointSequence (WellFormed insert_spec)

variable {PDU : Type}

/-- What a range of sequence numbers asks for: all PDUs of its numbers in ascending order, the
numbers that are not buffered as gaps, and whether there is none of them. -/
structure Truthful (b : SingleSendBuffer PDU) (range : Range) (gaps : Option (List Range))
    (resent : Resent PDU) : Prop where
  sent : resent.pdus =
    (b.buffers_.entries.filter fun entry => range.1 ≤ entry.1 ∧ entry.1 ≤ range.2).flatMap b.pdus
  unasked : gaps = none → resent.gaps = none
  scored : ∀ seqs, gaps = some seqs → ∃ after, resent.gaps = some after ∧ WellFormed after ∧
    ∀ n, Covers after n ↔ Covers seqs n ∨ (range.1 ≤ n ∧ n ≤ range.2 ∧ n ∉ b.buffers_.keys)
  complete : resent.result = true ↔ ∀ n, range.1 ≤ n → n ≤ range.2 → n ∈ b.buffers_.keys

section

variable {b : SingleSendBuffer PDU}

theorem flatMap_from {first last : Int} (hle : first ≤ last) :
    (b.buffers_.entries.filter fun entry => first ≤ entry.1 ∧ entry.1 ≤ last).flatMap b.pdus =
      ((b.buffers_.find first).map fun buffer => b.pdus (first, buffer)).getD [] ++
        (b.buffers_.entries.filter fun entry =>
          first + 1 ≤ entry.1 ∧ entry.1 ≤ last).flatMap b.pdus := by
  have hsplit := b.buffers_.filter_from first (fun k => k ≤ last)
  have hfrom : (b.buffers_.entries.filter fun entry => first ≤ entry.1 ∧ entry.1 ≤ last) =
      b.buffers_.entries.filter fun entry =>
        entry.1 = first ∨ (first < entry.1 ∧ decide (entry.1 ≤ last) = true) := by
    refine List.filter_congr fun entry _ => ?_
    rw [decide_eq_decide, decide_eq_true_eq]
    omega
  have habove : (b.buffers_.entries.filter fun entry => first + 1 ≤ entry.1 ∧ entry.1 ≤ last) =
      b.buffers_.entries.filter fun entry =>
        first < entry.1 ∧ decide (entry.1 ≤ last) = true := by
    refine List.filter_congr fun entry _ => ?_
    rw [decide_eq_decide, decide_eq_true_eq]
    omega
  rw [hfrom, habove, hsplit, List.flatMap_append]
  cases b.buffers_.find first <;> simp

theorem resendLoop_spec {last : Int} (hlast : last < maxValue) (fuel : Nat) (sequence : Int)
    (gaps : Option (List Range)) (hpos : 0 ≤ sequence)
    (hwf : ∀ seqs, gaps = some seqs → WellFormed seqs) (hfuel : (last - sequence + 1).toNat < fuel) :
    ∃ after, b.resendLoop last fuel sequence gaps = .ok (after,
        (b.buffers_.entries.filter fun entry =>
          sequence ≤ entry.1 ∧ entry.1 ≤ last).flatMap b.pdus) ∧
      (gaps = none → after = none) ∧
      ∀ seqs, gaps = some seqs → ∃ seqs', after = some seqs' ∧ WellFormed seqs' ∧
        ∀ n, Covers seqs' n ↔ Covers seqs n ∨ (sequence ≤ n ∧ n ≤ last ∧ n ∉ b.buffers_.keys) := by
  induction fuel generalizing sequence gaps with
  | zero => omega
  | succ fuel ih =>
    unfold resendLoop
    split
    case isTrue hle =>
      have hnext : next sequence = sequence + 1 := SequenceNumber.next_of_lt (by omega)
      rw [flatMap_from hle, hnext]
      cases hfind : b.buffers_.find sequence with
      | some buffer =>
        -- The number is buffered, and scored against nothing.
        have hkey : sequence ∈ b.buffers_.keys := SortedMap.mem_keys.mpr ⟨buffer, hfind⟩
        obtain ⟨after, hloop, hnone, hsome⟩ :=
          ih (sequence + 1) gaps (by omega) hwf (by omega)
        refine ⟨after, by simp [hloop, Except.map], hnone, fun seqs hseqs => ?_⟩
        obtain ⟨seqs', hafter, hwf', hcovers⟩ := hsome seqs hseqs
        refine ⟨seqs', hafter, hwf', fun n => (hcovers n).trans (or_congr_right ?_)⟩
        refine ⟨fun ⟨hlo, hrest⟩ => ⟨by omega, hrest⟩, fun ⟨hlo, hhi, hmem⟩ => ⟨?_, hhi, hmem⟩⟩
        have hne : n ≠ sequence := fun heq => hmem (heq ▸ hkey)
        omega
      | none =>
        have hkey : sequence ∉ b.buffers_.keys := SortedMap.find_eq_none.mp hfind
        cases gaps with
        | none =>
          obtain ⟨after, hloop, hnone, -⟩ := ih (sequence + 1) none (by omega) hwf (by omega)
          exact ⟨after, by simpa using hloop, hnone, fun seqs hseqs => by cases hseqs⟩
        | some seqs =>
          obtain ⟨grew, inserted, hinsert, hwf', hcovers⟩ :=
            insert_spec (hwf seqs rfl) hpos (by omega)
          obtain ⟨after, hloop, -, hsome⟩ := ih (sequence + 1) (some inserted) (by omega)
            (fun _ heq => by cases heq; exact hwf') (by omega)
          obtain ⟨seqs', hafter, hwf'', hcovers'⟩ := hsome inserted rfl
          refine ⟨after, by simpa [hinsert] using hloop, fun h => (by cases h), fun _ heq => ?_⟩
          cases heq
          refine ⟨seqs', hafter, hwf'', fun n => ?_⟩
          rw [hcovers', hcovers, or_assoc]
          refine or_congr_right ?_
          constructor
          · rintro (rfl | ⟨hlo, hhi, hmem⟩)
            · exact ⟨le_rfl, hle, hkey⟩
            · exact ⟨by omega, hhi, hmem⟩
          · rintro ⟨hlo, hhi, hmem⟩
            by_cases heq : n = sequence
            · exact .inl heq
            · exact .inr ⟨by omega, hhi, hmem⟩
    case isFalse hgt =>
      have hnone : (b.buffers_.entries.filter fun entry =>
          sequence ≤ entry.1 ∧ entry.1 ≤ last) = [] := by
        refine List.filter_eq_nil_iff.mpr fun entry _ => ?_
        rw [decide_eq_true_eq]
        omega
      rw [hnone]
      refine ⟨gaps, rfl, id, fun seqs hseqs => ⟨seqs, hseqs, hwf seqs hseqs, fun n => ?_⟩⟩
      exact (or_iff_left fun h => hgt (h.1.trans h.2.1)).symm

theorem low_eq (b : SingleSendBuffer PDU) :
    (b.buffers_.entries = [] ∧ b.low = .error .emptyBuffer) ∨
      ∃ low, b.low = .ok low ∧ low ∈ b.buffers_.keys ∧ ∀ k ∈ b.buffers_.keys, low ≤ k := by
  have hsorted := b.buffers_.keys_sorted
  unfold SingleSendBuffer.low
  cases hentries : b.buffers_.entries with
  | nil => exact .inl ⟨rfl, rfl⟩
  | cons entry rest =>
    refine .inr ⟨entry.1, rfl, by simp [SortedMap.keys, hentries], ?_⟩
    simp only [SortedMap.keys, hentries, List.map_cons, List.pairwise_cons] at hsorted ⊢
    intro k hk
    rcases List.mem_cons.mp hk with rfl | hrest
    · exact le_rfl
    · exact (hsorted.1 k hrest).le

theorem high_eq (b : SingleSendBuffer PDU) (hne : b.buffers_.entries ≠ []) :
    ∃ high, b.high = .ok high ∧ high ∈ b.buffers_.keys ∧ ∀ k ∈ b.buffers_.keys, k ≤ high := by
  obtain ⟨front, entry, hentries, hlast⟩ := b.buffers_.exists_last hne
  exact ⟨entry.1, by simp [SingleSendBuffer.high, hentries], by simp [SortedMap.keys, hentries],
    hlast⟩

theorem resend_i_eq {fuel : Nat} {range : Range} {gaps after : Option (List Range)}
    {pdus : List PDU} {low high : Int} (hloop : b.resendLoop range.2 fuel range.1 gaps = .ok (after, pdus))
    (hlow : b.low = .ok low) (hhigh : b.high = .ok high) :
    resend_i fuel b range gaps = .ok ⟨after, pdus, range.1 ≥ low ∧ range.2 ≤ high⟩ := by
  unfold resend_i
  rw [hloop, hlow, hhigh]
  by_cases hge : range.1 ≥ low
  · simp [bind, Except.bind, pure, Except.pure, hge]
  · simp [bind, Except.bind, pure, Except.pure, hge]

end

/-- `resend_i` reports truthfully exactly if something is buffered, and all of the range is
buffered when the range lies between the lowest and the highest number that is. -/
theorem resend_truthful (b : SingleSendBuffer PDU) (range : Range) (gaps : Option (List Range))
    (fuel : Nat) (hpos : 0 ≤ range.1) (hasc : range.1 ≤ range.2) (hmax : range.2 < maxValue)
    (hwf : ∀ seqs, gaps = some seqs → WellFormed seqs)
    (hfuel : (range.2 - range.1 + 1).toNat < fuel) :
    (∃ resent, resend_i fuel b range gaps = .ok resent ∧ Truthful b range gaps resent) ↔
      b.buffers_.entries ≠ [] ∧
        ((∃ k ∈ b.buffers_.keys, k ≤ range.1) → (∃ k ∈ b.buffers_.keys, range.2 ≤ k) →
          ∀ n, range.1 ≤ n → n ≤ range.2 → n ∈ b.buffers_.keys) := by
  obtain ⟨after, hloop, hnone, hsome⟩ :=
    resendLoop_spec (b := b) hmax fuel range.1 gaps hpos hwf hfuel
  rcases low_eq b with ⟨hempty, hlow⟩ | ⟨low, hlow, hmemlow, hlowest⟩
  · -- `low()` throws.
    have herror : resend_i fuel b range gaps = .error .emptyBuffer := by
      unfold resend_i
      rw [hloop, hlow]
      rfl
    simp [herror, hempty]
  have hne : b.buffers_.entries ≠ [] := by
    intro hnil
    simp [SortedMap.keys, hnil] at hmemlow
  obtain ⟨high, hhigh, hmemhigh, hhighest⟩ := high_eq b hne
  have heq := resend_i_eq hloop hlow hhigh
  have hbetween : (range.1 ≥ low ∧ range.2 ≤ high) ↔
      (∃ k ∈ b.buffers_.keys, k ≤ range.1) ∧ ∃ k ∈ b.buffers_.keys, range.2 ≤ k :=
    ⟨fun h => ⟨⟨low, hmemlow, h.1⟩, ⟨high, hmemhigh, h.2⟩⟩, by
      rintro ⟨⟨k, hk, hle⟩, m, hm, hle'⟩
      exact ⟨(hlowest k hk).trans hle, hle'.trans (hhighest m hm)⟩⟩
  constructor
  · rintro ⟨resent, hresent, htruthful⟩
    rw [heq] at hresent
    cases hresent
    refine ⟨hne, fun hbelow habove => htruthful.complete.mp ?_⟩
    exact decide_eq_true (hbetween.mpr ⟨hbelow, habove⟩)
  · rintro ⟨-, hfull⟩
    refine ⟨_, heq, rfl, hnone, hsome, ?_⟩
    rw [decide_eq_true_eq, hbetween]
    constructor
    · exact fun h => hfull h.1 h.2
    · exact fun hall => ⟨⟨range.1, hall _ le_rfl hasc, le_rfl⟩, ⟨range.2, hall _ hasc le_rfl, le_rfl⟩⟩

def holed : SingleSendBuffer Nat := ((construct 4).insert 1 10).insert 3 30

theorem resend_truthful_beyond :
    ∃ resent, resend_i 4 holed (3, 4) (some []) = .ok resent ∧
      Truthful holed (3, 4) (some []) resent := by
  refine (resend_truthful holed (3, 4) (some []) 4 (by decide) (by decide) (by decide) ?_
    (by decide)).mpr ⟨by decide, ?_⟩
  · intro seqs hseqs
    cases hseqs
    exact DisjointSequence.wellFormed_nil
  · rintro - ⟨k, hk, hle⟩
    have hall : ∀ k ∈ holed.buffers_.keys, k ≤ 3 := by decide
    exact absurd (hle.trans (hall k hk)) (by decide)

/-- The hole is reported as a gap, and the result says that all was sent again. -/
theorem resend_hole_unreported :
    ¬ ∀ (b : SingleSendBuffer Nat) (range : Range) (gaps : Option (List Range)) (fuel : Nat)
      (_ : 0 ≤ range.1) (_ : range.1 ≤ range.2) (_ : range.2 < maxValue)
      (_ : ∀ seqs, gaps = some seqs → WellFormed seqs)
      (_ : (range.2 - range.1 + 1).toNat < fuel),
      ∃ resent, resend_i fuel b range gaps = .ok resent ∧ Truthful b range gaps resent := by
  intro hall
  obtain ⟨resent, hresent, htruthful⟩ := hall holed (1, 3) none 4 (by decide) (by decide)
    (by decide) (fun seqs hseqs => by cases hseqs) (by decide)
  cases hresent
  exact absurd (htruthful.complete.mp rfl 2 (by decide) (by decide)) (by decide)

variable {entry : Int × PDU} {front rest : List (Int × PDU)}

section

variable {m : SortedMap Int PDU} {requested : List Range}

/-- The PDU with this last number carries fragment `n`: `n` comes after the last number of every
earlier PDU. Fragments are numbered from one. -/
def Carries (m : SortedMap Int PDU) (last n : Int) : Prop :=
  1 ≤ n ∧ n ≤ last ∧ ∀ k ∈ m.keys, k < last → k < n

/-- The PDUs of the requested fragments, each once and in ascending order. -/
def Selects (m : SortedMap Int PDU) (requested : List Range) (resent : List PDU) : Prop :=
  ∃ chosen : List (Int × PDU), chosen.Sublist m.entries ∧ resent = chosen.map Prod.snd ∧
    ∀ entry ∈ m.entries, entry ∈ chosen ↔ ∃ n, Covers requested n ∧ Carries m entry.1 n

theorem fragmentLoop_spec {sent : Int}
    (hsorted : (front ++ entry :: rest).Pairwise fun a b => a.1 < b.1) :
    fragmentLoop (entry :: rest) (front ++ entry :: rest) sent =
      .ok (max sent entry.1,
        ((front ++ [entry]).filter fun entry => sent < entry.1).map Prod.snd) := by
  induction front generalizing sent with
  | nil =>
    rw [List.nil_append, fragmentLoop, if_pos rfl]
    by_cases hsent : sent < entry.1
    · simp [hsent, hsent.le]
    · simp [hsent, not_lt.mp hsent]
  | cons first front ih =>
    obtain ⟨hlater, hrest⟩ := List.pairwise_cons.mp hsorted
    have hlt : first.1 < entry.1 := hlater entry (by simp)
    have hlength : (first :: (front ++ entry :: rest)).length ≠ (entry :: rest).length := by
      simp only [List.length_cons, List.length_append]
      omega
    rw [List.cons_append, fragmentLoop, if_neg hlength, ih hrest]
    by_cases hsent : sent < first.1
    · -- Nothing behind the first PDU was sent before.
      have hsame : ((front ++ [entry]).filter fun entry => first.1 < entry.1) =
          (front ++ [entry]).filter fun entry => sent < entry.1 := by
        refine List.filter_congr fun other hother => ?_
        have hgt : first.1 < other.1 := by
          refine hlater other ?_
          rcases List.mem_append.mp hother with hfront | hlast
          · exact List.mem_append_left _ hfront
          · exact List.mem_append_right _ (by simp [List.mem_singleton.mp hlast])
        simp [hgt, hsent.trans hgt]
      rw [if_pos hsent, if_pos hsent, hsame, List.cons_append, List.filter_cons_of_pos (by simp [hsent]),
        max_eq_right hlt.le, max_eq_right (hsent.trans hlt).le]
      rfl
    · rw [if_neg hsent, if_neg hsent, List.cons_append, List.filter_cons_of_neg (by simp [hsent])]
      rfl

theorem fragmentLoop_end (it : List (Int × PDU)) (sent : Int) :
    fragmentLoop [] it sent = .error .endIterator := by
  induction it generalizing sent with
  | nil => rfl
  | cons first rest ih =>
    rw [fragmentLoop, if_neg (by simp), ih]
    rfl

/-- No requested range goes on behind the last fragment and starts before it. -/
def EndsWithin (m : SortedMap Int PDU) (psr : List Range) : Prop :=
  ∀ range ∈ psr, ∀ k ∈ m.keys, range.1 ≤ k → ∃ k' ∈ m.keys, range.2 ≤ k'

theorem lowerBound_eq_nil {k : Int} : m.lowerBound k = [] ↔ ∀ k' ∈ m.keys, k' < k := by
  constructor
  · intro hnil k' hk'
    obtain ⟨entry, hentry, rfl⟩ := List.mem_map.mp hk'
    by_contra hle
    have hmem := SortedMap.mem_lowerBound.mpr ⟨hentry, not_lt.mp hle⟩
    simp [hnil] at hmem
  · intro hall
    refine List.eq_nil_iff_forall_not_mem.mpr fun entry hentry => ?_
    obtain ⟨hmem, hle⟩ := SortedMap.mem_lowerBound.mp hentry
    exact absurd (hall _ (List.mem_map_of_mem hmem)) (not_lt.mpr hle)

theorem mem_keys_of_entry (h : entry ∈ m.entries) : entry.1 ∈ m.keys :=
  List.mem_map_of_mem h

/-- The PDUs of one range are `front` and `entry`. -/
structure Reaches (m : SortedMap Int PDU) (range : Range) (front : List (Int × PDU))
    (entry : Int × PDU) (rest : List (Int × PDU)) : Prop where
  parted : ∃ before, m.entries = before ++ ((front ++ [entry]) ++ rest)
  mem_iff : ∀ e ∈ m.entries, e ∈ front ++ [entry] ↔ range.1 ≤ e.1 ∧ e.1 ≤ entry.1
  behind : m.entries.filter (fun e => entry.1 < e.1) = rest
  first : range.2 ≤ entry.1 ∧ ∀ k ∈ m.keys, k < entry.1 → k < range.2

theorem reaches {range : Range} (hasc : range.1 ≤ range.2)
    (hfront : m.lowerBound range.1 = front ++ m.lowerBound range.2)
    (hlast : m.lowerBound range.2 = entry :: rest) : Reaches m range front entry rest := by
  obtain ⟨before, hparted, hbefore, hfrom⟩ := m.lowerBound_split range.1
  rw [hfront, hlast] at hparted hfrom
  have hsorted := m.sorted
  rw [hparted] at hsorted
  obtain ⟨-, hsorted', hacross⟩ := List.pairwise_append.mp hsorted
  obtain ⟨-, hsorted'', hacross'⟩ := List.pairwise_append.mp hsorted'
  have hlater := (List.pairwise_cons.mp hsorted'').1
  have hreach := SortedMap.mem_lowerBound.mp (hlast ▸ List.mem_cons_self : entry ∈ m.lowerBound range.2)
  refine ⟨⟨before, by rw [hparted]; simp⟩, fun e he => ?_, ?_, hreach.2, fun k hk hlt => ?_⟩
  · rw [hparted] at he
    constructor
    · intro hin
      rcases List.mem_append.mp hin with hin | hin
      · exact ⟨hfrom e (List.mem_append_left _ hin), (hacross' e hin entry (by simp)).le⟩
      · rw [List.mem_singleton.mp hin]
        exact ⟨hasc.trans hreach.2, le_rfl⟩
    · rintro ⟨hlo, hhi⟩
      rcases List.mem_append.mp he with hin | hin
      · exact absurd (hbefore e hin) (not_lt.mpr hlo)
      · rcases List.mem_append.mp hin with hin | hin
        · exact List.mem_append_left _ hin
        · rcases List.mem_cons.mp hin with rfl | hin
          · exact List.mem_append_right _ (by simp)
          · exact absurd (hlater e hin) (not_lt.mpr hhi)
  · rw [hparted, List.filter_append, List.filter_append, List.filter_cons_of_neg (by simp),
      List.filter_eq_nil_iff.mpr fun e he => ?_, List.filter_eq_nil_iff.mpr fun e he => ?_,
      List.filter_eq_self.mpr fun e he => by simpa using hlater e he, List.nil_append,
      List.nil_append]
    · simpa using (hacross' e he entry (by simp)).le
    · simpa using (hacross e he entry (by simp)).le
  · by_contra hge
    obtain ⟨e, he, rfl⟩ := List.mem_map.mp hk
    have hmem := SortedMap.mem_lowerBound.mpr ⟨he, not_lt.mp hge⟩
    rw [hlast] at hmem
    rcases List.mem_cons.mp hmem with rfl | hin
    · exact lt_irrefl _ hlt
    · exact lt_asymm hlt (hlater e hin)

theorem requestedLoop_spec {psr : List Range} (hc : Canonical psr)
    (hpos : ∀ n, Covers psr n → 1 ≤ n) (hend : EndsWithin m psr) (sent : Int) :
    ∃ chosen : List (Int × PDU), requestedLoop m psr sent = .ok (chosen.map Prod.snd) ∧
      chosen.Sublist m.entries ∧
      ∀ entry ∈ m.entries, entry ∈ chosen ↔
        sent < entry.1 ∧ ∃ n, Covers psr n ∧ Carries m entry.1 n := by
  induction psr generalizing sent with
  | nil => exact ⟨[], rfl, List.nil_sublist _, fun entry _ => by simp⟩
  | cons range psr ih =>
    have hnonempty := hc.nonempty range (by simp)
    have hcrest : Canonical psr := (canonical_cons.mp hc).2.2
    rw [requestedLoop]
    split
    case h_1 hnil =>
      -- Everything that is still requested lies behind the last fragment.
      refine ⟨[], rfl, List.nil_sublist _, fun entry hentry => ?_⟩
      have hlt := lowerBound_eq_nil.mp hnil entry.1 (mem_keys_of_entry hentry)
      simp only [List.not_mem_nil, false_iff]
      rintro ⟨-, n, hn, -, hle, -⟩
      have := hc.head_le hn
      omega
    case h_2 hne =>
      obtain ⟨first, hfirst⟩ := List.exists_mem_of_ne_nil _ hne
      obtain ⟨hfirstmem, hfirstle⟩ := SortedMap.mem_lowerBound.mp hfirst
      obtain ⟨k', hk', hle'⟩ :=
        hend range (by simp) first.1 (mem_keys_of_entry hfirstmem) hfirstle
      obtain ⟨front, hfront⟩ := m.lowerBound_append hnonempty
      cases hlast : m.lowerBound range.2 with
      | nil => exact absurd (lowerBound_eq_nil.mp hlast k' hk') (not_lt.mpr hle')
      | cons entry rest =>
        have hr := reaches hnonempty hfront hlast
        rw [hlast] at hfront
        have hsorted : (front ++ entry :: rest).Pairwise fun a b => a.1 < b.1 :=
          hfront ▸ m.sorted.sublist (List.dropWhile_sublist _)
        obtain ⟨later, hloop, hsub, hlater⟩ :=
          ih hcrest (fun n hn => hpos n ((covers_cons _ _ _).mpr (.inr hn)))
            (fun r hr => hend r (List.mem_cons_of_mem _ hr)) (max sent entry.1)
        rw [hfront, fragmentLoop_spec hsorted]
        refine ⟨((front ++ [entry]).filter fun e => sent < e.1) ++ later, ?_, ?_, ?_⟩
        · simp only [hloop, Except.map, List.map_append]
        · have hbehind : later.Sublist rest := by
            have hall : (later.filter fun e => entry.1 < e.1) = later := by
              refine List.filter_eq_self.mpr fun e he => ?_
              have hgt := ((hlater e (hsub.subset he)).mp he).1
              simpa using (le_max_right sent entry.1).trans_lt hgt
            rw [← hall, ← hr.behind]
            exact hsub.filter _
          obtain ⟨before, hparted⟩ := hr.parted
          rw [hparted]
          exact (List.filter_sublist.append hbehind).trans (List.sublist_append_right _ _)
        · intro e he
          rw [List.mem_append, List.mem_filter, hlater e he, hr.mem_iff e he, decide_eq_true_eq,
            max_lt_iff]
          constructor
          · rintro (⟨⟨hlo, hhi⟩, hsent⟩ | ⟨⟨hsent, hgt⟩, n, hn, hcarries⟩)
            · -- The last number of the range that the PDU can carry.
              have hcovers : Covers (range :: psr) (min e.1 range.2) :=
                (covers_cons _ _ _).mpr (.inl ⟨le_min hlo hnonempty, min_le_right _ _⟩)
              refine ⟨hsent, min e.1 range.2, hcovers, hpos _ hcovers, min_le_left _ _,
                fun k hk hlt => ?_⟩
              exact lt_min hlt (hr.first.2 k hk (hlt.trans_le hhi))
            · exact ⟨hsent, n, (covers_cons _ _ _).mpr (.inr hn), hcarries⟩
          · rintro ⟨hsent, n, hn, hone, hle, hpast⟩
            by_cases hhi : e.1 ≤ entry.1
            · exact .inl ⟨⟨(hc.head_le hn).trans hle, hhi⟩, hsent⟩
            · refine .inr ⟨⟨hsent, not_le.mp hhi⟩, n, ?_, hone, hle, hpast⟩
              rcases (covers_cons _ _ _).mp hn with ⟨-, hn'⟩ | hn'
              · have hbelow := hpast entry.1 (mem_keys_of_entry ?_) (not_le.mp hhi)
                · exact absurd (hbelow.trans_le (hn'.trans hr.first.1)) (lt_irrefl _)
                · obtain ⟨before, hparted⟩ := hr.parted
                  rw [hparted]
                  simp
              · exact hn'

theorem requestedLoop_end {psr : List Range} (hc : Canonical psr) (hend : ¬ EndsWithin m psr)
    (sent : Int) : requestedLoop m psr sent = .error .endIterator := by
  induction psr generalizing sent with
  | nil => exact absurd (fun range hrange => by cases hrange) hend
  | cons range psr ih =>
    have hnonempty := hc.nonempty range (by simp)
    have hcrest : Canonical psr := (canonical_cons.mp hc).2.2
    rw [requestedLoop]
    split
    case h_1 hnil =>
      refine absurd (fun r hr k hk hle => ?_) hend
      have hlt := lowerBound_eq_nil.mp hnil k hk
      rcases List.mem_cons.mp hr with rfl | hr
      · omega
      · have := hc.head_lt hr
        omega
    case h_2 hne =>
      obtain ⟨front, hfront⟩ := m.lowerBound_append hnonempty
      cases hlast : m.lowerBound range.2 with
      | nil => rw [fragmentLoop_end]
      | cons entry rest =>
        have hr := reaches hnonempty hfront hlast
        rw [hlast] at hfront
        have hsorted : (front ++ entry :: rest).Pairwise fun a b => a.1 < b.1 :=
          hfront ▸ m.sorted.sublist (List.dropWhile_sublist _)
        have hrest : ¬ EndsWithin m psr := by
          intro hrest
          refine hend fun r hr' k hk hle => ?_
          rcases List.mem_cons.mp hr' with rfl | hr'
          · refine ⟨entry.1, mem_keys_of_entry ?_, hr.first.1⟩
            obtain ⟨before, hparted⟩ := hr.parted
            rw [hparted]
            simp
          · exact hrest r hr' k hk hle
        rw [hfront, fragmentLoop_spec hsorted]
        simp only [ih hcrest hrest]
        rfl

theorem endsWithin_iff (hc : Canonical requested) : EndsWithin m requested ↔
    ∀ last ∈ m.keys, (∀ k ∈ m.keys, k ≤ last) →
      ¬ (Covers requested last ∧ Covers requested (last + 1)) := by
  constructor
  · rintro hend last hlast hmax ⟨⟨r, hr, hlo, hhi⟩, ⟨r', hr', hlo', hhi'⟩⟩
    obtain ⟨k, hk, hle⟩ := hend r hr last hlast hlo
    have hkmax := hmax k hk
    rcases hc.clear hr hr' with rfl | hclear | hclear
    · omega
    · omega
    · omega
  · intro hlast range hrange k hk hle
    have hne : m.entries ≠ [] := by
      intro hnil
      simp [SortedMap.keys, hnil] at hk
    obtain ⟨front, entry, hentries, hmax⟩ := m.exists_last hne
    have hkey : entry.1 ∈ m.keys := by simp [SortedMap.keys, hentries]
    refine ⟨entry.1, hkey, ?_⟩
    by_contra hlt
    have hkmax := hmax k hk
    refine hlast entry.1 hkey hmax ⟨⟨range, hrange, ?_, ?_⟩, ⟨range, hrange, ?_, ?_⟩⟩
    all_goals omega

theorem requestedLoop_empty (psr : List Range) (sent : Int) :
    requestedLoop (.empty : SortedMap Int PDU) psr sent = .ok [] := by
  cases psr with
  | nil => rfl
  | cons range psr => rfl

theorem resend_fragments_i_eq (b : SingleSendBuffer PDU) (seq : Int) (hne : requested ≠ []) :
    ∃ after, b.resend_fragments_i seq requested =
      (requestedLoop ((b.fragmentsOf seq).getD .empty) requested SequenceNumber.zero).map
        fun resent => (after, resent) := by
  have hask : DisjointSequence.empty requested = false := by
    simpa [DisjointSequence.empty] using hne
  unfold resend_fragments_i fragmentsOf
  cases hfragments : b.fragments_ with
  | none =>
    rw [Option.bind_none, Option.getD_none, requestedLoop_empty]
    exact ⟨b, rfl⟩
  | some fragments =>
    by_cases hsize : fragments.size = 0
    · have hfind : fragments.find seq = none := by
        rw [SortedMap.find, List.length_eq_zero_iff.mp hsize]
        rfl
      rw [Option.bind_some, hfind, Option.getD_none, requestedLoop_empty]
      exact ⟨b, if_pos (.inl hsize)⟩
    · refine ⟨{ b with fragments_ := some (fragments.put seq ((fragments.find seq).getD .empty)) }, ?_⟩
      simp only [hsize, hask, false_or, if_false, Option.bind_some, Bool.false_eq_true]

end

/-- `resend_fragments_i` sends exactly the PDUs of the requested fragments, unless the last
fragment and the number after it are both requested. -/
theorem resend_fragments_selects (b : SingleSendBuffer PDU) (seq : Int) (requested : List Range)
    (hwf : WellFormed requested) (hne : requested ≠ []) (hpos : ∀ n, Covers requested n → 1 ≤ n)
    (hkeys : ∀ k ∈ ((b.fragmentsOf seq).getD .empty).keys, 1 ≤ k) :
    (∃ after resent, b.resend_fragments_i seq requested = .ok (after, resent) ∧
        Selects ((b.fragmentsOf seq).getD .empty) requested resent) ↔
      ∀ last ∈ ((b.fragmentsOf seq).getD .empty).keys,
        (∀ k ∈ ((b.fragmentsOf seq).getD .empty).keys, k ≤ last) →
        ¬ (Covers requested last ∧ Covers requested (last + 1)) := by
  rw [← endsWithin_iff hwf.canonical]
  obtain ⟨after, heq⟩ := resend_fragments_i_eq b seq hne
  rw [heq]
  by_cases hend : EndsWithin ((b.fragmentsOf seq).getD .empty) requested
  · obtain ⟨chosen, hloop, hsub, hmem⟩ :=
      requestedLoop_spec hwf.canonical hpos hend SequenceNumber.zero
    refine iff_of_true ⟨after, chosen.map Prod.snd, by rw [hloop]; rfl, chosen, hsub, rfl,
      fun entry hentry => ?_⟩ hend
    -- Nothing was sent before the first range.
    have hsent : SequenceNumber.zero < entry.1 := hkeys _ (mem_keys_of_entry hentry)
    rw [hmem entry hentry, and_iff_right hsent]
  · have hloop := requestedLoop_end hwf.canonical hend SequenceNumber.zero
    refine iff_of_false ?_ hend
    rintro ⟨after', resent, hresent, -⟩
    rw [hloop] at hresent
    cases hresent

def inTwo : SingleSendBuffer Nat := ((construct 4).insert_fragment 1 2 10).insert_fragment 1 3 20

theorem requested_singleton {first last : Int} (hpos : 1 ≤ first) (hasc : first ≤ last)
    (hmax : last ≤ maxValue) :
    WellFormed [(first, last)] ∧ ∀ n, Covers [(first, last)] n → 1 ≤ n := by
  refine ⟨⟨canonical_cons.mpr ⟨hasc, by simp, canonical_nil⟩, by simp [Within]; omega⟩,
    fun n hn => ?_⟩
  obtain ⟨r, hr, hlo, -⟩ := hn
  cases List.mem_singleton.mp hr
  omega

theorem resend_fragments_selects_first : ∃ after resent,
    inTwo.resend_fragments_i 1 [(1, 2)] = .ok (after, resent) ∧
      Selects ((inTwo.fragmentsOf 1).getD .empty) [(1, 2)] resent := by
  obtain ⟨hwf, hpos⟩ := requested_singleton (by decide : (1 : Int) ≤ 1) (by decide : (1 : Int) ≤ 2)
    (by decide)
  refine (resend_fragments_selects inTwo 1 [(1, 2)] hwf (by decide) hpos (by decide)).mpr ?_
  intro last hlast hmax hboth
  have hge := hmax 3 (by decide)
  obtain ⟨r, hr, -, hhi⟩ := hboth.1
  cases List.mem_singleton.mp hr
  omega

/-- Fragments 3 and 4 of a sample of three. -/
theorem resend_fragments_beyond :
    ¬ ∀ (b : SingleSendBuffer Nat) (seq : Int) (requested : List Range) (_ : WellFormed requested)
      (_ : requested ≠ []) (_ : ∀ n, Covers requested n → 1 ≤ n)
      (_ : ∀ k ∈ ((b.fragmentsOf seq).getD .empty).keys, 1 ≤ k),
      ∃ after resent, b.resend_fragments_i seq requested = .ok (after, resent) ∧
        Selects ((b.fragmentsOf seq).getD .empty) requested resent := by
  intro hall
  obtain ⟨hwf, hpos⟩ := requested_singleton (by decide : (1 : Int) ≤ 3) (by decide : (3 : Int) ≤ 4)
    (by decide)
  obtain ⟨after, resent, hresent, -⟩ := hall inTwo 1 [(3, 4)] hwf (by decide) hpos (by decide)
  cases hresent

end OpenDDS.Guarantees.BufferedResend
