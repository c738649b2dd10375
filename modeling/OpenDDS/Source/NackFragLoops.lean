import Mathlib.Data.List.ModifyLast
import OpenDDS.Source.NackFrags

/-!
What the loops of `generate_nack_frags` collect. `has_fragments` steps through the numbers of a
range and ends unless the range reaches the largest number; step 2 goes through the entries of
`frags_` in front of `low` and behind `high`, and does not end if `high` lies in front of `low`.
-/
namespace OpenDDS.Source.NackFrags
open Library.RangeList SequenceNumber DisjointSequence DataSampleHeader TransportReassembly RtpsReader

section

def numbers (first last : Int) : List Int :=
  (List.range (last + 1 - first).toNat).map fun i : Nat => first + (i : Int)

@[simp] theorem mem_numbers {first last n : Int} : n ∈ numbers first last ↔ first ≤ n ∧ n ≤ last := by
  unfold numbers
  rw [List.mem_map]
  constructor
  · rintro ⟨i, hi, rfl⟩
    have := List.mem_range.mp hi
    omega
  · rintro ⟨hlo, hhi⟩
    exact ⟨(n - first).toNat, List.mem_range.mpr (by omega), by omega⟩

theorem numbers_sorted (first last : Int) : (numbers first last).Pairwise (· < ·) := by
  unfold numbers
  rw [List.pairwise_map]
  exact List.pairwise_lt_range.imp fun h => by omega

theorem numbers_nil {first last : Int} (h : last < first) : numbers first last = [] := by
  unfold numbers
  rw [Int.toNat_eq_zero.mpr (by omega)]
  rfl

theorem numbers_cons {first last : Int} (h : first ≤ last) :
    numbers first last = first :: numbers (first + 1) last := by
  unfold numbers
  rw [show (last + 1 - first).toNat = (last + 1 - (first + 1)).toNat + 1 by omega,
    List.range_succ_eq_map, List.map_cons, List.map_map]
  refine congrArg₂ List.cons (by simp) (List.map_congr_left fun i _ => ?_)
  simp only [Function.comp_apply, Nat.cast_succ]
  omega

end

section

variable {r : Reassembly} {pubId : GUID} {memory : Int → Bitmap} {fuel : Nat} {fragInfo : FragmentInfo}
  {sn last : Int}

def Held (r : Reassembly) (pubId : GUID) (sn : Int) : Prop := hasFrags r (fragKey pubId sn) = true

instance (sn : Int) : Decidable (Held r pubId sn) := inferInstanceAs (Decidable (_ = _))

def heldEntry (r : Reassembly) (pubId : GUID) (memory : Int → Bitmap) (sn : Int) :
    Int × FragmentNumberSet := (sn, missingFrags r (fragKey pubId sn) (memory sn))

/-- The entries for the numbers of which something is held. -/
def heldEntries (r : Reassembly) (pubId : GUID) (memory : Int → Bitmap) (ns : List Int) : FragmentInfo :=
  (ns.filter fun sn => Held r pubId sn).map (heldEntry r pubId memory)

theorem heldEntries_append (ms ns : List Int) :
    heldEntries r pubId memory (ms ++ ns) =
      heldEntries r pubId memory ms ++ heldEntries r pubId memory ns := by
  simp [heldEntries]

theorem heldEntries_numbers (h : sn ≤ last) :
    heldEntries r pubId memory (numbers sn last) =
      heldEntries r pubId memory [sn] ++ heldEntries r pubId memory (numbers (sn + 1) last) := by
  rw [numbers_cons h, ← heldEntries_append, List.singleton_append]

theorem hasFragments_step (h : sn ≤ last) :
    hasFragments r pubId memory (fuel + 1) sn last fragInfo =
      hasFragments r pubId memory fuel (next sn) last (fragInfo ++ heldEntries r pubId memory [sn]) := by
  rw [hasFragments, if_pos h]
  by_cases hheld : hasFrags r (fragKey pubId sn) = true
  · simp [heldEntries, Held, heldEntry, hheld]
  · simp [heldEntries, Held, hheld]

theorem hasFragments_eq (hlast : last < maxValue) (hfuel : (last + 1 - sn).toNat < fuel) :
    hasFragments r pubId memory fuel sn last fragInfo =
      some (fragInfo ++ heldEntries r pubId memory (numbers sn last)) := by
  induction fuel generalizing sn fragInfo with
  | zero => omega
  | succ fuel ih =>
    by_cases hle : sn ≤ last
    · rw [hasFragments_step hle, next_of_lt (by omega), ih (by omega), heldEntries_numbers hle,
        List.append_assoc]
    · rw [hasFragments, if_neg hle, numbers_nil (by omega)]
      simp [heldEntries]

theorem hasFragments_endless (hsn : sn ≤ maxValue) :
    hasFragments r pubId memory fuel sn maxValue fragInfo = none := by
  induction fuel generalizing sn fragInfo with
  | zero => rfl
  | succ fuel ih =>
    rw [hasFragments_step hsn]
    refine ih ?_
    unfold next
    split_ifs
    · decide
    · omega

theorem hasFragments_some {result : FragmentInfo} (hlast : last ≤ maxValue) (hsn : sn ≤ maxValue)
    (h : hasFragments r pubId memory fuel sn last fragInfo = some result) :
    last < maxValue ∧ result = fragInfo ++ heldEntries r pubId memory (numbers sn last) := by
  have hlt : last < maxValue := by
    by_contra hge
    obtain rfl : last = maxValue := by omega
    rw [hasFragments_endless hsn] at h
    cases h
  refine ⟨hlt, ?_⟩
  induction fuel generalizing sn fragInfo with
  | zero => cases h
  | succ fuel ih =>
    by_cases hle : sn ≤ last
    · rw [hasFragments_step hle, next_of_lt (by omega)] at h
      rw [ih (by omega) h, heldEntries_numbers hle, List.append_assoc]
    · rw [hasFragments, if_neg hle] at h
      rw [numbers_nil (by omega), ← Option.some.inj h]
      simp [heldEntries]

theorem foldlM_hasFragments_some {rs : List Range} {result : FragmentInfo}
    (hrs : ∀ range ∈ rs, range.1 ≤ maxValue ∧ range.2 ≤ maxValue)
    (h : rs.foldlM (fun fragInfo range => hasFragments r pubId memory fuel range.1 range.2 fragInfo)
      fragInfo = some result) :
    result = fragInfo ++ heldEntries r pubId memory (rs.flatMap fun range => numbers range.1 range.2) := by
  induction rs generalizing fragInfo with
  | nil =>
    cases h
    simp [heldEntries]
  | cons range rest ih =>
    obtain ⟨hfirst, hsecond⟩ := hrs range (by simp)
    obtain ⟨middle, hmiddle, hrest⟩ := Option.bind_eq_some_iff.mp h
    rw [ih (fun q hq => hrs q (by simp [hq])) hrest, (hasFragments_some hsecond hfirst hmiddle).2,
      List.flatMap_cons, heldEntries_append, List.append_assoc]

theorem foldlM_hasFragments_eq {rs : List Range} (hrs : ∀ range ∈ rs, range.2 < maxValue)
    (hfuel : ∀ range ∈ rs, (range.2 + 1 - range.1).toNat < fuel) :
    rs.foldlM (fun fragInfo range => hasFragments r pubId memory fuel range.1 range.2 fragInfo) fragInfo =
      some (fragInfo ++
        heldEntries r pubId memory (rs.flatMap fun range => numbers range.1 range.2)) := by
  induction rs generalizing fragInfo with
  | nil => simp [heldEntries]
  | cons range rest ih =>
    rw [List.foldlM_cons, hasFragments_eq (hrs range (by simp)) (hfuel range (by simp)),
      List.flatMap_cons, heldEntries_append, ← List.append_assoc]
    exact ih (fun q hq => hrs q (by simp [hq])) fun q hq => hfuel q (by simp [hq])

end

section

variable {α : Type} {r : Reassembly} {pubId : GUID} {memory : Int → Bitmap} {fuel : Nat}
  {wi : WriterInfo α}

/-- The numbers that step 1 asks the receive strategy for. -/
def searched (wi : WriterInfo α) : List Int :=
  ((missingSequenceRanges wi.recvd).flatMap fun range => numbers range.1 range.2) ++
    if empty wi.recvd then [] else numbers (high wi.recvd) wi.hbRange.2

/-- The loop above the highest number received comes to an end. -/
def Bounded (wi : WriterInfo α) : Prop := empty wi.recvd = false → wi.hbRange.2 < maxValue

theorem partiallyReceived_some {fragInfo : FragmentInfo}
    (hgaps : ∀ range ∈ missingSequenceRanges wi.recvd, range.1 ≤ maxValue ∧ range.2 < maxValue)
    (hhigh : high wi.recvd ≤ maxValue) (hlast : wi.hbRange.2 ≤ maxValue)
    (h : partiallyReceived r pubId memory fuel wi = some fragInfo) :
    Bounded wi ∧ fragInfo = heldEntries r pubId memory (searched wi) := by
  unfold partiallyReceived at h
  split at h
  · cases h
  rename_i gaps hfold
  have hgaps' := foldlM_hasFragments_some (fun range hr => ⟨(hgaps range hr).1, (hgaps range hr).2.le⟩) hfold
  rw [List.nil_append] at hgaps'
  unfold Bounded searched
  split_ifs at h with hempty
  · refine ⟨fun hne => absurd (hne.symm.trans hempty) (by decide), ?_⟩
    rw [if_pos hempty, List.append_nil, ← hgaps']
    exact (Option.some.inj h).symm
  · obtain ⟨hlt, heq⟩ := hasFragments_some hlast hhigh h
    refine ⟨fun _ => hlt, ?_⟩
    rw [if_neg hempty, heldEntries_append, ← hgaps', heq]

theorem partiallyReceived_eq (hgaps : ∀ range ∈ missingSequenceRanges wi.recvd, range.2 < maxValue)
    (hbounded : Bounded wi) : ∃ enough, ∀ fuel, enough ≤ fuel →
      partiallyReceived r pubId memory fuel wi = some (heldEntries r pubId memory (searched wi)) := by
  have hmax : ∀ rs : List Range, ∃ enough : Nat, ∀ range ∈ rs, (range.2 + 1 - range.1).toNat < enough := by
    intro rs
    induction rs with
    | nil => exact ⟨0, by simp⟩
    | cons range rest ih =>
      obtain ⟨enough, henough⟩ := ih
      refine ⟨max enough ((range.2 + 1 - range.1).toNat + 1), fun q hq => ?_⟩
      rcases List.mem_cons.mp hq with rfl | hq
      · omega
      · have := henough q hq
        omega
  obtain ⟨enough, henough⟩ := hmax ((high wi.recvd, wi.hbRange.2) :: missingSequenceRanges wi.recvd)
  refine ⟨enough, fun fuel hfuel => ?_⟩
  have hgapsFuel : ∀ q ∈ missingSequenceRanges wi.recvd, (q.2 + 1 - q.1).toNat < fuel := fun q hq => by
    have := henough q (by simp [hq])
    omega
  unfold partiallyReceived searched
  rw [foldlM_hasFragments_eq hgaps hgapsFuel]
  simp only [List.nil_append]
  split_ifs with hempty
  · rw [List.append_nil]
  · have := henough (high wi.recvd, wi.hbRange.2) (by simp)
    rw [hasFragments_eq (hbounded (by simpa using hempty)) (by simp only at this; omega), heldEntries_append]

end

section

variable {α : Type} {r : Reassembly} {pubId : GUID} {memory : Int → Bitmap}

theorem keys_heldEntries (ns : List Int) :
    (heldEntries r pubId memory ns).map Prod.fst = ns.filter fun sn => Held r pubId sn := by
  unfold heldEntries
  rw [List.map_map]
  exact List.map_id _

theorem keys_extended (wi : WriterInfo α) (fragInfo : FragmentInfo) :
    (extended wi fragInfo).map Prod.fst = fragInfo.map Prod.fst := by
  unfold extended
  rw [List.map_map]
  refine List.map_congr_left fun entry _ => ?_
  simp only [Function.comp_apply]
  split <;> rfl

theorem keys_extendBack (fragInfo : FragmentInfo) (extent : Nat) :
    (extendBack fragInfo extent).map Prod.fst = fragInfo.map Prod.fst := by
  rcases List.eq_nil_or_concat' fragInfo with rfl | ⟨front, entry, rfl⟩
  · rfl
  · rw [extendBack, List.modifyLast_concat]
    simp

end

section

variable {r : Reassembly} {pubId : GUID} {memory : Int → Bitmap} {fuel steps : Nat}
  {fragInfo result : FragmentInfo} {entry : Int × Nat} {low high it : List (Int × Nat)}

/-- The entry that step 2 is to add for a heartbeat of fragments. -/
def ownEntry (r : Reassembly) (pubId : GUID) (memory : Int → Bitmap) (entry : Int × Nat) :
    Int × FragmentNumberSet :=
  if Held r pubId entry.1 then
    (entry.1, extendBitmapRange (missingFrags r (fragKey pubId entry.1) (memory entry.1)) entry.2)
  else (entry.1, entireRange entry.2 (memory entry.1))

def request (r : Reassembly) (pubId : GUID) (memory : Int → Bitmap) (fragInfo : FragmentInfo)
    (entry : Int × Nat) : FragmentInfo :=
  if Held r pubId entry.1 ∨ fragInfo = [] then fragInfo ++ [ownEntry r pubId memory entry]
  else extendBack fragInfo entry.2

theorem requestFrags_search (h : hasFragments r pubId memory fuel entry.1 entry.1 fragInfo =
      some (fragInfo ++ heldEntries r pubId memory (numbers entry.1 entry.1))) :
    requestFrags r pubId memory fuel fragInfo entry = some (request r pubId memory fragInfo entry) := by
  have hnumbers : numbers entry.1 entry.1 = [entry.1] := by
    rw [numbers_cons le_rfl, numbers_nil (by omega)]
  unfold requestFrags request
  rw [h, hnumbers]
  by_cases hheld : Held r pubId entry.1
  · simp only [heldEntries, ownEntry, hheld, decide_true, List.filter_cons_of_pos, List.filter_nil,
      List.map_cons, List.map_nil, heldEntry, true_or, if_true]
    rw [if_pos (by simp), extendBack, List.modifyLast_concat]
  · by_cases hnil : fragInfo = []
    · subst hnil
      simp [heldEntries, ownEntry, hheld]
    · simp [heldEntries, hheld, hnil]

theorem requestFrags_eq (hkey : entry.1 < maxValue) (hfuel : 2 ≤ fuel) :
    requestFrags r pubId memory fuel fragInfo entry = some (request r pubId memory fragInfo entry) :=
  requestFrags_search (hasFragments_eq hkey (by omega))

theorem requestFrags_some (hkey : entry.1 ≤ maxValue)
    (h : requestFrags r pubId memory fuel fragInfo entry = some result) :
    entry.1 < maxValue ∧ result = request r pubId memory fragInfo entry := by
  cases hsearch : hasFragments r pubId memory fuel entry.1 entry.1 fragInfo with
  | none =>
    rw [requestFrags, hsearch] at h
    cases h
  | some found =>
    obtain ⟨hlt, rfl⟩ := hasFragments_some hkey hkey hsearch
    rw [requestFrags_search hsearch] at h
    exact ⟨hlt, (Option.some.inj h).symm⟩

theorem requestOutside_cons (rest : List (Int × Nat)) :
    requestOutside r pubId memory fuel low high (steps + 1) (entry :: rest) fragInfo =
      if (entry :: rest).length = low.length then
        match high with
        | [] => some fragInfo
        | first :: later =>
          match requestFrags r pubId memory fuel fragInfo first with
          | none => none
          | some fragInfo => requestOutside r pubId memory fuel low high steps later fragInfo
      else
        match requestFrags r pubId memory fuel fragInfo entry with
        | none => none
        | some fragInfo => requestOutside r pubId memory fuel low high steps rest fragInfo := by
  cases high <;> rfl

theorem requestOutside_rest (hlow : low = [] ∨ it.length < low.length) (hsteps : it.length < steps) :
    requestOutside r pubId memory fuel low high steps it fragInfo =
      it.foldlM (requestFrags r pubId memory fuel) fragInfo := by
  induction it generalizing steps fragInfo with
  | nil =>
    cases steps with
    | zero => simp at hsteps
    | succ steps => rfl
  | cons entry rest ih =>
    cases steps with
    | zero => simp at hsteps
    | succ steps =>
      have hne : (entry :: rest).length ≠ low.length := by
        rcases hlow with rfl | hlow
        · simp
        · omega
      rw [requestOutside_cons, if_neg hne, List.foldlM_cons]
      cases hbody : requestFrags r pubId memory fuel fragInfo entry with
      | none => rfl
      | some fragInfo =>
        exact ih (hlow.imp_right fun h => by simp at h; omega) (by simp at hsteps; omega)

theorem requestOutside_skip {front : List (Int × Nat)} (hlow : low ≠ []) (hhigh : high.length ≤ low.length)
    (hsteps : front.length + high.length < steps) :
    requestOutside r pubId memory fuel low high steps (front ++ low) fragInfo =
      (front ++ high).foldlM (requestFrags r pubId memory fuel) fragInfo := by
  induction front generalizing steps fragInfo with
  | nil =>
    obtain ⟨first, rest, rfl⟩ := List.exists_cons_of_ne_nil hlow
    cases steps with
    | zero => omega
    | succ steps =>
      rw [List.nil_append, List.nil_append, requestOutside_cons, if_pos rfl]
      cases high with
      | nil => rfl
      | cons entry later =>
        rw [List.foldlM_cons]
        simp only [List.length_cons, List.length_nil] at hhigh hsteps ⊢
        cases hbody : requestFrags r pubId memory fuel fragInfo entry with
        | none => rfl
        | some fragInfo =>
          exact requestOutside_rest (.inr (by rw [List.length_cons]; omega)) (by omega)
  | cons entry rest ih =>
    cases steps with
    | zero => omega
    | succ steps =>
      rw [List.cons_append, requestOutside_cons, if_neg (by simp; omega), List.cons_append, List.foldlM_cons]
      cases hbody : requestFrags r pubId memory fuel fragInfo entry with
      | none => rfl
      | some fragInfo => exact ih (by simp at hsteps; omega)

theorem requestOutside_more
    (h : requestOutside r pubId memory fuel low high steps it fragInfo = some result) (more : Nat) :
    requestOutside r pubId memory fuel low high (steps + more) it fragInfo = some result := by
  induction steps generalizing it fragInfo with
  | zero => cases h
  | succ steps ih =>
    rw [Nat.succ_add]
    cases it with
    | nil => exact h
    | cons entry rest =>
      rw [requestOutside_cons] at h ⊢
      split_ifs at h ⊢
      · cases high with
        | nil => exact h
        | cons first later =>
          simp only at h ⊢
          cases hbody : requestFrags r pubId memory fuel fragInfo first with
          | none =>
            rw [hbody] at h
            cases h
          | some fragInfo =>
            rw [hbody] at h
            exact ih h
      · cases hbody : requestFrags r pubId memory fuel fragInfo entry with
        | none =>
          rw [hbody] at h
          cases h
        | some fragInfo =>
          rw [hbody] at h
          exact ih h

theorem requestOutside_endless (hlow : low ≠ []) (hhigh : low.length < high.length)
    (hit : low.length ≤ it.length) :
    requestOutside r pubId memory fuel low high steps it fragInfo = none := by
  have hpos := List.length_pos_iff.mpr hlow
  induction steps generalizing it fragInfo with
  | zero => rfl
  | succ steps ih =>
    cases it with
    | nil =>
      rw [List.length_nil] at hit
      omega
    | cons entry rest =>
      rw [requestOutside_cons]
      split_ifs with hat
      · cases high with
        | nil => simp at hhigh
        | cons first later =>
          simp only
          cases requestFrags r pubId memory fuel fragInfo first with
          | none => rfl
          | some fragInfo => exact ih (by simp at hhigh; omega)
      · cases requestFrags r pubId memory fuel fragInfo entry with
        | none => rfl
        | some fragInfo => exact ih (by simp at hat hit; omega)

theorem foldlM_requestFrags_eq (hkeys : ∀ entry ∈ it, entry.1 < maxValue) (hfuel : 2 ≤ fuel) :
    it.foldlM (requestFrags r pubId memory fuel) fragInfo =
      some (it.foldl (request r pubId memory) fragInfo) := by
  induction it generalizing fragInfo with
  | nil => rfl
  | cons entry rest ih =>
    rw [List.foldlM_cons, requestFrags_eq (hkeys entry (by simp)) hfuel]
    exact ih fun e he => hkeys e (by simp [he])

theorem foldlM_requestFrags_some (hkeys : ∀ entry ∈ it, entry.1 ≤ maxValue)
    (h : it.foldlM (requestFrags r pubId memory fuel) fragInfo = some result) :
    (∀ entry ∈ it, entry.1 < maxValue) ∧ result = it.foldl (request r pubId memory) fragInfo := by
  induction it generalizing fragInfo with
  | nil => exact ⟨by simp, (Option.some.inj h).symm⟩
  | cons entry rest ih =>
    obtain ⟨middle, hmiddle, hrest⟩ := Option.bind_eq_some_iff.mp h
    obtain ⟨hkey, rfl⟩ := requestFrags_some (hkeys entry (by simp)) hmiddle
    obtain ⟨hkeys', hresult⟩ := ih (fun e he => hkeys e (by simp [he])) hrest
    exact ⟨List.forall_mem_cons.mpr ⟨hkey, hkeys'⟩, hresult⟩

theorem keys_sublist : (fragInfo.map Prod.fst ++
      (it.filter fun entry => Held r pubId entry.1).map Prod.fst).Sublist
    ((it.foldl (request r pubId memory) fragInfo).map Prod.fst) := by
  induction it generalizing fragInfo with
  | nil => simp
  | cons entry rest ih =>
    refine List.Sublist.trans ?_ ih
    unfold request
    by_cases hheld : Held r pubId entry.1
    · have hkey : (ownEntry r pubId memory entry).1 = entry.1 := by
        unfold ownEntry
        rw [if_pos hheld]
      rw [List.filter_cons_of_pos (by simpa using hheld), if_pos (.inl hheld)]
      simp [hkey]
    · rw [List.filter_cons_of_neg (by simpa using hheld)]
      refine List.Sublist.append_right ?_ _
      split_ifs with hnil
      · simp
      · rw [keys_extendBack]

theorem mem_keys_foldl {sn : Int} (h : sn ∈ (it.foldl (request r pubId memory) fragInfo).map Prod.fst) :
    sn ∈ fragInfo.map Prod.fst ∨ Held r pubId sn ∨
      (fragInfo = [] ∧ ∃ entry rest, it = entry :: rest ∧ sn = entry.1) := by
  induction it generalizing fragInfo with
  | nil => exact .inl h
  | cons entry rest ih =>
    have hkey : (ownEntry r pubId memory entry).1 = entry.1 := by
      unfold ownEntry
      split_ifs <;> rfl
    rcases ih h with hin | hheld | ⟨hnil, -⟩
    · unfold request at hin
      split_ifs at hin with hcase
      · rw [List.map_append, List.mem_append, List.map_singleton, List.mem_singleton, hkey] at hin
        rcases hin with hin | rfl
        · exact .inl hin
        · rcases hcase with hheld | hnil
          · exact .inr (.inl hheld)
          · exact .inr (.inr ⟨hnil, entry, rest, rfl, rfl⟩)
      · rw [keys_extendBack] at hin
        exact .inl hin
    · exact .inr (.inl hheld)
    · -- After an entry there is always something.
      unfold request at hnil
      split_ifs at hnil with hcase
      · simp at hnil
      · have hkeys := keys_extendBack fragInfo entry.2
        rw [hnil] at hkeys
        exact absurd (.inr (List.map_eq_nil_iff.mp hkeys.symm)) hcase

theorem foldl_request_held (hheld : ∀ entry ∈ it, Held r pubId entry.1) :
    it.foldl (request r pubId memory) fragInfo = fragInfo ++ it.map (ownEntry r pubId memory) := by
  induction it generalizing fragInfo with
  | nil => simp
  | cons entry rest ih =>
    rw [List.foldl_cons, request, if_pos (.inl (hheld entry (by simp))),
      ih fun e he => hheld e (by simp [he])]
    simp

end

section

variable {entries : List (Int × Nat)} {a b : Int}

theorem split_sorted (hs : entries.Pairwise fun e f => e.1 < f.1) (below : Int × Nat → Bool)
    (hbelow : ∀ e f, e.1 < f.1 → below f = true → below e = true) :
    entries.takeWhile below = entries.filter below ∧
      entries.dropWhile below = entries.filter fun e => !below e := by
  induction entries with
  | nil => exact ⟨rfl, rfl⟩
  | cons e rest ih =>
    obtain ⟨hlater, hrest⟩ := List.pairwise_cons.mp hs
    by_cases he : below e = true
    · obtain ⟨htake, hdrop⟩ := ih hrest
      rw [List.takeWhile_cons_of_pos he, List.dropWhile_cons_of_pos he, List.filter_cons_of_pos he,
        List.filter_cons_of_neg (by simp [he]), htake, hdrop]
      exact ⟨rfl, rfl⟩
    · have hnone : ∀ f ∈ rest, ¬ below f = true := fun f hf hbf => he (hbelow _ _ (hlater f hf) hbf)
      rw [List.takeWhile_cons_of_neg he, List.dropWhile_cons_of_neg he, List.filter_cons_of_neg he,
        List.filter_cons_of_pos (by simp [he]), List.filter_eq_nil_iff.mpr hnone,
        List.filter_eq_self.mpr fun f hf => by simp [hnone f hf]]
      exact ⟨rfl, rfl⟩

theorem filter_outside (hs : entries.Pairwise fun e f => e.1 < f.1)
    (hbetween : ∀ e ∈ entries, ¬ (b < e.1 ∧ e.1 < a)) :
    entries.filter (fun e => e.1 < a) ++ entries.filter (fun e => b < e.1) =
      entries.filter fun e => e.1 < a ∨ b < e.1 := by
  induction entries with
  | nil => rfl
  | cons e rest ih =>
    obtain ⟨hlater, hrest⟩ := List.pairwise_cons.mp hs
    have hrest' := ih hrest fun f hf => hbetween f (by simp [hf])
    have he := hbetween e (by simp)
    by_cases hlow : e.1 < a
    · have hnot : ¬ b < e.1 := fun h => he ⟨h, hlow⟩
      rw [List.filter_cons_of_pos (by simpa using hlow), List.filter_cons_of_neg (by simpa using hnot),
        List.filter_cons_of_pos (by simp [hlow]), List.cons_append, hrest']
    · have hnone : (rest.filter fun f => f.1 < a) = [] := List.filter_eq_nil_iff.mpr fun f hf => by
        have := hlater f hf
        simp
        omega
      rw [hnone, List.nil_append] at hrest'
      rw [List.filter_cons_of_neg (by simpa using hlow), hnone, List.nil_append]
      by_cases hhigh : b < e.1
      · rw [List.filter_cons_of_pos (by simpa using hhigh), List.filter_cons_of_pos (by simp [hhigh]), hrest']
      · rw [List.filter_cons_of_neg (by simpa using hhigh), List.filter_cons_of_neg (by simp [hlow, hhigh]), hrest']

end

section

variable {α : Type} {r : Reassembly} {pubId : GUID} {memory : Int → Bitmap} {fuel : Nat}
  {wi : WriterInfo α} {result : FragmentInfo}

/-- The entries of `frags_` that step 2 goes through. -/
def outside (wi : WriterInfo α) : List (Int × Nat) :=
  wi.frags.filter fun entry => entry.1 < cumulativeAck wi.recvd ∨ lastAck wi.recvd < entry.1

/-- `high` does not lie in front of `low`. -/
def Passable (wi : WriterInfo α) : Prop :=
  ∀ entry ∈ wi.frags, lastAck wi.recvd < entry.1 → entry.1 < cumulativeAck wi.recvd →
    ∀ entry' ∈ wi.frags, entry'.1 < cumulativeAck wi.recvd

/-- What a writer's state has to satisfy for the numbers in it to be sequence numbers. -/
structure Numbered (wi : WriterInfo α) : Prop where
  recvd : WellFormed wi.recvd
  frags : wi.frags.Pairwise fun e f => e.1 < f.1
  keys : ∀ entry ∈ wi.frags, entry.1 ≤ maxValue
  last : wi.hbRange.2 ≤ maxValue

theorem loop_outside (hw : Numbered wi) (r : Reassembly) (pubId : GUID) (memory : Int → Bitmap)
    (fragInfo : FragmentInfo) :
    (Passable wi ∧ ∃ enough, ∀ fuel steps, enough ≤ steps →
      requestOutside r pubId memory fuel (wi.frags.dropWhile fun entry => entry.1 < cumulativeAck wi.recvd)
        (wi.frags.dropWhile fun entry => entry.1 ≤ lastAck wi.recvd) steps wi.frags fragInfo =
          (outside wi).foldlM (requestFrags r pubId memory fuel) fragInfo) ∨
    (¬ Passable wi ∧ ∀ fuel steps,
      requestOutside r pubId memory fuel (wi.frags.dropWhile fun entry => entry.1 < cumulativeAck wi.recvd)
        (wi.frags.dropWhile fun entry => entry.1 ≤ lastAck wi.recvd) steps wi.frags fragInfo = none) := by
  obtain ⟨htake, hdrop⟩ := split_sorted hw.frags (fun e => e.1 < cumulativeAck wi.recvd)
    fun e f hlt h => by simp at h ⊢; omega
  obtain ⟨-, hdrop'⟩ := split_sorted hw.frags (fun e => e.1 ≤ lastAck wi.recvd)
    fun e f hlt h => by simp at h ⊢; omega
  have hsplit : (wi.frags.takeWhile fun e => e.1 < cumulativeAck wi.recvd) ++
    (wi.frags.dropWhile fun e => e.1 < cumulativeAck wi.recvd) = wi.frags := List.takeWhile_append_dropWhile
  have hlength := congrArg List.length hsplit
  rw [List.length_append] at hlength
  generalize (wi.frags.takeWhile fun e => e.1 < cumulativeAck wi.recvd) = front at *
  generalize (wi.frags.dropWhile fun e => e.1 < cumulativeAck wi.recvd) = low at *
  generalize (wi.frags.dropWhile fun e => e.1 ≤ lastAck wi.recvd) = high at *
  by_cases hlow : low = []
  · -- Every entry lies below `cumulative_ack()`.
    have hall : ∀ e ∈ wi.frags, e.1 < cumulativeAck wi.recvd := by
      intro e he
      rw [hdrop, List.filter_eq_nil_iff] at hlow
      simpa using hlow e he
    refine .inl ⟨fun _ _ _ _ => hall, wi.frags.length + 1, fun fuel steps hsteps => ?_⟩
    rw [requestOutside_rest (.inl hlow) (by omega), outside,
      List.filter_eq_self.mpr fun e he => by simp [hall e he]]
  by_cases hpass : Passable wi
  · have hbetween : ∀ e ∈ wi.frags, ¬ (lastAck wi.recvd < e.1 ∧ e.1 < cumulativeAck wi.recvd) := by
      rintro e he ⟨hb, ha⟩
      refine hlow ?_
      rw [hdrop, List.filter_eq_nil_iff]
      intro f hf
      simpa using hpass e he hb ha f hf
    have hhigh : high.length ≤ low.length := by
      have hfilter : high = low.filter fun e => !decide (e.1 ≤ lastAck wi.recvd) := by
        rw [hdrop', hdrop, List.filter_filter]
        refine List.filter_congr fun e he => ?_
        have := hbetween e he
        simp
        omega
      rw [hfilter]
      exact List.length_filter_le _ _
    have houtside : front ++ high = outside wi := by
      rw [htake, hdrop', outside, ← filter_outside hw.frags hbetween]
      simp only [not_le, ← decide_not]
    refine .inl ⟨hpass, 2 * wi.frags.length + 1, fun fuel steps hsteps => ?_⟩
    have hsteps' : front.length + high.length < steps := by omega
    rw [← houtside, ← requestOutside_skip hlow hhigh hsteps', hsplit]
  · have hbetween := hpass
    unfold Passable at hbetween
    push Not at hbetween
    obtain ⟨e, he, hb, ha, f, hf, hfa⟩ := hbetween
    refine .inr ⟨hpass, fun fuel steps => requestOutside_endless hlow ?_ (by omega)⟩
    have hfilter : low = high.filter fun e => !decide (e.1 < cumulativeAck wi.recvd) := by
      rw [hdrop', hdrop, List.filter_filter]
      refine List.filter_congr fun e he => ?_
      simp
      omega
    rw [hfilter, List.length_filter_lt_length_iff_exists]
    refine ⟨e, ?_, by simp [ha]⟩
    rw [hdrop', List.mem_filter]
    exact ⟨he, by simpa using hb⟩

def NackFragSubmessage.entry (nackFrag : NackFragSubmessage) : Int × FragmentNumberSet :=
  (nackFrag.writerSN, nackFrag.fragmentNumberState)

theorem generateNackFrags_eq (wi : WriterInfo α) (nackfragCount : Int) :
    (generateNackFrags r pubId memory fuel wi nackfragCount).map (List.map NackFragSubmessage.entry) =
      fragInfoOf r pubId memory fuel wi := by
  unfold generateNackFrags
  rw [Option.map_map]
  have hentries : (List.map NackFragSubmessage.entry ∘ fun fragInfo : FragmentInfo =>
      fragInfo.mapIdx fun i entry => ⟨entry.1, entry.2, nackfragCount + i + 1⟩) = id := by
    funext fragInfo
    refine List.ext_getElem (by simp) fun i h₁ h₂ => ?_
    simp [NackFragSubmessage.entry]
  rw [hentries, Option.map_id_fun, id]

/-- When `generate_nack_frags` comes to an end. -/
structure Ends (wi : WriterInfo α) : Prop where
  bounded : Bounded wi
  passable : Passable wi
  keys : ∀ entry ∈ outside wi, entry.1 < maxValue

/-- The entries of step 1, and those of step 2 behind them. -/
def collected (r : Reassembly) (pubId : GUID) (memory : Int → Bitmap) (wi : WriterInfo α) : FragmentInfo :=
  (outside wi).foldl (request r pubId memory) (extended wi (heldEntries r pubId memory (searched wi)))

theorem fragInfoOf_some (hw : Numbered wi)
    (hgaps : ∀ range ∈ missingSequenceRanges wi.recvd, range.1 ≤ maxValue ∧ range.2 < maxValue)
    (hhigh : high wi.recvd ≤ maxValue) (h : fragInfoOf r pubId memory fuel wi = some result) :
    Ends wi ∧ result = collected r pubId memory wi := by
  unfold fragInfoOf at h
  cases hstep : partiallyReceived r pubId memory fuel wi with
  | none =>
    rw [hstep] at h
    cases h
  | some fragInfo =>
    obtain ⟨hbounded, rfl⟩ := partiallyReceived_some hgaps hhigh hw.last hstep
    rw [hstep] at h
    simp only at h
    obtain ⟨hpass, enough, hloop⟩ | ⟨-, hloop⟩ := loop_outside hw r pubId memory
      (extended wi (heldEntries r pubId memory (searched wi)))
    · have hmore := requestOutside_more h enough
      rw [hloop fuel (fuel + enough) (by omega)] at hmore
      obtain ⟨hkeys, hresult⟩ := foldlM_requestFrags_some
        (fun entry hentry => hw.keys entry (List.mem_of_mem_filter hentry)) hmore
      exact ⟨⟨hbounded, hpass, hkeys⟩, hresult⟩
    · rw [hloop fuel fuel] at h
      cases h

theorem fragInfoOf_eq (hw : Numbered wi)
    (hgaps : ∀ range ∈ missingSequenceRanges wi.recvd, range.2 < maxValue) (hends : Ends wi) :
    ∃ fuel, fragInfoOf r pubId memory fuel wi = some (collected r pubId memory wi) := by
  obtain ⟨enough, hstep⟩ := partiallyReceived_eq (r := r) hgaps hends.bounded
  obtain ⟨-, enough', hloop⟩ | ⟨hpass, -⟩ := loop_outside hw r pubId memory
    (extended wi (heldEntries r pubId memory (searched wi)))
  · refine ⟨enough + enough' + 2, ?_⟩
    unfold fragInfoOf
    rw [hstep _ (by omega)]
    simp only
    rw [hloop _ _ (by omega)]
    exact foldlM_requestFrags_eq hends.keys (by omega)
  · exact absurd hends.passable hpass

end

end OpenDDS.Source.NackFrags
