import OpenDDS.Source.BitmapRuns

/-!
# What a bitmap insertion adds and reads

`insert(value, num_bits, bits)` is to add the numbers of the set bits and to read the words
of the bitmap only. The first fails where a run of ones is followed by words of zeros that
the scan takes for part of the run; the second where a run ends in front of stored numbers
that reach behind the last word, since the scan loads the word it jumps to before it tests
the loop condition.
-/
namespace OpenDDS.Guarantees.BitmapInsertion
open Library.RangeList Source.SequenceNumber Source.DisjointSequence

variable {seqs : List Range} {value : Int} {numBits : Nat} {bits : Nat → BitVec 32}

/-- The set grows by the numbers of the set bits, and the result says whether it grew. -/
def AddsSetBits (seqs : List Range) (value : Int) (numBits : Nat) (bits : Nat → BitVec 32) : Prop :=
  ∃ fuel grew after, insertBits fuel seqs value numBits bits = .ok (grew, after) ∧
    (∀ n, Covers after n ↔
      Covers seqs n ∨ ∃ k : Nat, k < numBits ∧ n = value + k ∧ bitSet bits k = true) ∧
    (grew = true ↔ ∃ n, Covers after n ∧ ¬ Covers seqs n)

/-- The loop ends and reads only words of the bitmap. -/
def StaysInside (seqs : List Range) (value : Int) (numBits : Nat) (bits : Nat → BitVec 32) : Prop :=
  ∃ fuel done, scanLoop value numBits bits fuel (scanStart seqs) = .ok done ∧
    ∀ k ∈ scanReads value numBits bits fuel (scanStart seqs), k < (numBits + 31) / 32

/-- The operands stay clear of the largest value and of the width of the counters. -/
structure Operands (value : Int) (numBits : Nat) : Prop where
  base : 1 ≤ value
  last : value + numBits ≤ maxValue
  words : numBits + 32 ≤ 2 ^ 32

/-- Wherever a run ends, a number is missing before the end of the last word is reached. -/
def MissingInside (seqs : List Range) (value : Int) (numBits : Nat) (bits : Nat → BitVec 32) :
    Prop :=
  ∀ p c, RunEnds bits p c → c < numBits → ¬ Skipped seqs value bits p →
    ∃ q, c ≤ q ∧ q ≤ 32 * ((numBits + 31) / 32) ∧ ¬ Covers seqs (value + q)

variable {fuel fuel' : Nat}

section

theorem scanLoop_unique {s done done' : BitmapScan}
    (h : scanLoop value numBits bits fuel s = .ok done)
    (h' : scanLoop value numBits bits fuel' s = .ok done') : done = done' := by
  induction fuel generalizing fuel' s with
  | zero => cases h
  | succ fuel ih =>
    cases fuel' with
    | zero => cases h'
    | succ fuel' =>
      unfold scanLoop at h h'
      split at h
      · rename_i hi
        rw [if_pos hi] at h'
        exact ih h h'
      · rename_i hi
        rw [if_neg hi] at h'
        cases h
        cases h'
        rfl

theorem scanReads_unique {s done done' : BitmapScan}
    (h : scanLoop value numBits bits fuel s = .ok done)
    (h' : scanLoop value numBits bits fuel' s = .ok done') :
    scanReads value numBits bits fuel s = scanReads value numBits bits fuel' s := by
  induction fuel generalizing fuel' s with
  | zero => cases h
  | succ fuel ih =>
    cases fuel' with
    | zero => cases h'
    | succ fuel' =>
      unfold scanLoop at h h'
      unfold scanReads
      split at h
      · rename_i hi
        rw [if_pos hi] at h'
        rw [if_pos hi, if_pos hi, ih h h']
      · rename_i hi
        rw [if_neg hi, if_neg hi]

theorem insertBits_unique {result result' : Bool × List Range}
    (h : insertBits fuel seqs value numBits bits = .ok result)
    (h' : insertBits fuel' seqs value numBits bits = .ok result') : result = result' := by
  unfold insertBits at h h'
  cases hloop : scanLoop value numBits bits fuel (scanStart seqs) with
  | error fault => simp [hloop] at h
  | ok done =>
    cases hloop' : scanLoop value numBits bits fuel' (scanStart seqs) with
    | error fault => simp [hloop'] at h'
    | ok done' =>
      obtain rfl := scanLoop_unique hloop hloop'
      simp only [hloop] at h
      simp only [hloop'] at h'
      rw [h] at h'
      exact Except.ok.inj h'

end

section

variable {s : BitmapScan} {words : Nat}

theorem stepReads_eq (inv : ScanInv seqs value numBits bits s) :
    stepReads value bits s = (if s.i % 32 = 0 then [s.i / 32] else []) ++
      (if s.i % 32 = 0 ∧ bits (s.i / 32) = 0 then []
      else if bitSet bits s.i = true then []
      else if s.rangeStart ≠ 0 then
        closeReads value { s with bit := s.i % 32, x := bits (s.i / 32) }
      else []) := by
  obtain ⟨hbit, hx⟩ := inv.toDecoding.current
  unfold stepReads
  simp only [hx]
  rw [hbit]
  rfl

theorem closeReads_inside (inv : ScanInv seqs value numBits bits s)
    (hb : ScanBounds seqs value numBits) (hi : s.i < numBits) (hrun : s.rangeStart ≠ 0)
    (hx : s.x = bits (s.i / 32)) (hbit : s.bit = s.i % 32)
    (hahead : ∃ n, value + s.i ≤ n ∧ n < value + 2 ^ 32 ∧ ¬ Covers s.iter.seqs n)
    (hwords : numBits ≤ 32 * words) :
    (∀ k ∈ closeReads value s, k < words) ↔ (closeRun value bits s).advance.i ≤ 32 * words := by
  have hbase := hb.base
  obtain ⟨result, start, i, bit, word, x, heq, hresult, hstart, hlt, -, -, -, -,
    ⟨hrest, -, -, hxhigh, hxreach⟩, hi', -, -⟩ := inv.closing hb hi hrun hx hbit hahead
  obtain ⟨rest, hrest⟩ : ∃ rest, result.2.rest = x :: rest := by
    cases hcase : result.2.rest with
    | nil => simp [hcase] at hrest
    | cons y rest =>
      rw [hcase, List.head?_cons, Option.some.injEq] at hrest
      exact ⟨rest, by rw [hrest]⟩
  obtain ⟨next, hnext⟩ := Int.eq_ofNat_of_zero_le (show 0 ≤ x.2 + 1 - value by omega)
  have hreads : closeReads value s =
      if x.2 ≠ value + s.i - 1 then if (next - 1) / 32 ≠ s.i / 32 then [(next - 1) / 32] else []
      else [] := by
    have hargs : insertBitmapRange s.iter (ofValue s.rangeStart, ofValue (value + s.i - 1)) =
        result := by
      rw [hstart, ofValue_of_pos (by omega), ofValue_of_pos (by omega), hresult]
    unfold closeReads
    simp only [hargs, hrest]
    by_cases hskip : x.2 ≠ value + s.i - 1
    · have hjump : toULong (x.2 - value) = next - 1 := by
        unfold toULong
        omega
      simp only [if_pos hskip, hjump]
    · simp only [if_neg hskip]
  rw [heq, hreads]
  by_cases hskip : x.2 ≠ value + s.i - 1
  · rw [if_pos hskip]
    by_cases hword : (next - 1) / 32 ≠ s.i / 32
    · rw [if_pos hword]
      simp only [List.mem_singleton, forall_eq]
      omega
    · rw [if_neg hword]
      simp only [List.not_mem_nil, false_implies, implies_true, true_iff]
      omega
  · rw [if_neg hskip]
    simp only [List.not_mem_nil, false_implies, implies_true, true_iff]
    omega

theorem stepReads_inside (inv : ScanInv seqs value numBits bits s)
    (runs : Runs seqs value numBits bits s) (hb : ScanBounds seqs value numBits)
    (hbound : Bounded seqs value numBits bits) (hi : s.i < numBits)
    (hwords : numBits ≤ 32 * words) :
    (∀ k ∈ stepReads value bits s, k < words) ↔ (scanStep value bits s).i ≤ 32 * words := by
  have hfirst : ∀ k ∈ (if s.i % 32 = 0 then [s.i / 32] else []), k < words := by
    intro k hk
    split at hk
    · obtain rfl := List.mem_singleton.mp hk
      omega
    · cases hk
  have hsplit : ∀ more : List Nat,
      (∀ k ∈ (if s.i % 32 = 0 then [s.i / 32] else []) ++ more, k < words) ↔
        ∀ k ∈ more, k < words := by
    intro more
    constructor
    · exact fun h k hk => h k (List.mem_append_right _ hk)
    · intro h k hk
      exact (List.mem_append.mp hk).elim (hfirst k) (h k)
  rw [stepReads_eq inv, hsplit]
  obtain ⟨h0, hz, heq⟩ | ⟨hset, heq⟩ | ⟨hclear, hrun, heq⟩ | ⟨hclear, hz, hrun, heq⟩ :=
    scanStep_cases inv.toDecoding hb.words hi
  · rw [heq, if_pos ⟨h0, hz⟩]
    simp only [List.not_mem_nil, false_implies, implies_true, true_iff]
    omega
  · have hword := word_ne_zero_of_bitSet hset
    rw [heq, if_neg fun h => hword h.2, if_pos hset]
    simp only [List.not_mem_nil, false_implies, implies_true, true_iff]
    omega
  · rw [heq, hclear, hrun]
    simp only [Bool.false_eq_true, if_false, ne_eq, not_true_eq_false, ite_self, List.not_mem_nil,
      false_implies, implies_true, true_iff]
    omega
  · rw [heq, if_neg hz, hclear, if_neg (by simp), if_pos hrun]
    exact closeReads_inside inv.resetBit hb hi hrun rfl rfl
      (runs.ahead hbound hi hclear hz hrun) hwords

theorem le_scanLoop (hb : ScanBounds seqs value numBits)
    (hbound : Bounded seqs value numBits bits) (fuel : Nat) (s done : BitmapScan)
    (inv : ScanInv seqs value numBits bits s) (runs : Runs seqs value numBits bits s)
    (hloop : scanLoop value numBits bits fuel s = .ok done) : s.i ≤ done.i := by
  induction fuel generalizing s with
  | zero => cases hloop
  | succ fuel ih =>
    unfold scanLoop at hloop
    split at hloop
    · rename_i hi
      obtain ⟨inv', runs', hlt⟩ := scanStep_runs inv runs hb hbound hi
      exact hlt.le.trans (ih _ inv' runs' hloop)
    · cases hloop
      exact le_rfl

theorem scanReads_inside (hb : ScanBounds seqs value numBits)
    (hbound : Bounded seqs value numBits bits) (hwords : numBits ≤ 32 * words) (fuel : Nat)
    (s done : BitmapScan) (inv : ScanInv seqs value numBits bits s)
    (runs : Runs seqs value numBits bits s)
    (hloop : scanLoop value numBits bits fuel s = .ok done) (hs : s.i ≤ 32 * words) :
    (∀ k ∈ scanReads value numBits bits fuel s, k < words) ↔ done.i ≤ 32 * words := by
  induction fuel generalizing s with
  | zero => cases hloop
  | succ fuel ih =>
    unfold scanLoop at hloop
    unfold scanReads
    split at hloop
    · rename_i hi
      obtain ⟨inv', runs', hlt⟩ := scanStep_runs inv runs hb hbound hi
      have hstep := stepReads_inside inv runs hb hbound hi hwords
      rw [if_pos hi]
      constructor
      · intro h
        have hnext := hstep.mp fun k hk => h k (List.mem_append_left _ hk)
        exact (ih _ inv' runs' hloop hnext).mp fun k hk => h k (List.mem_append_right _ hk)
      · intro hdone
        have hmono := le_scanLoop hb hbound fuel _ done inv' runs' hloop
        intro k hk
        rcases List.mem_append.mp hk with hk | hk
        · exact hstep.mpr (hmono.trans hdone) k hk
        · exact (ih _ inv' runs' hloop (hmono.trans hdone)).mpr hdone k hk
    · rename_i hi
      cases hloop
      rw [if_neg hi]
      simp [hs]

end

variable {old old' : List Range}

section

theorem lone_zero (wf : WellFormed seqs) :
    (Covers seqs 0 → Covers seqs 1) ∨
      ∃ rest, seqs = (0, 0) :: rest ∧ WellFormed rest ∧ ¬ Covers rest 0 ∧
        ∀ n, 1 ≤ n → (Covers seqs n ↔ Covers rest n) := by
  by_cases hone : Covers seqs 0 → Covers seqs 1
  · exact .inl hone
  · right
    obtain ⟨hzero, hone⟩ := Classical.not_imp.mp hone
    obtain ⟨r, hr, hlo, hhi⟩ := hzero
    have hnonneg := (wf.within r hr).1
    cases seqs with
    | nil => cases hr
    | cons a rest =>
      have ha : a = r := by
        rcases List.mem_cons.mp hr with h | h
        · exact h.symm
        · have h₁ := wf.canonical.head_lt h
          have h₂ := (wf.within a (by simp)).1
          have h₃ := wf.canonical.nonempty a (by simp)
          omega
      subst ha
      have hend : a.2 = 0 := by
        by_contra hne
        exact hone ⟨a, by simp, by omega, by omega⟩
      have hpair : a = (0, 0) := Prod.ext (by simp only; omega) hend
      refine ⟨rest, by rw [hpair], ⟨(canonical_cons.mp wf.canonical).2.2,
        (within_cons.mp wf.within).2⟩, ?_, ?_⟩
      · rintro ⟨x, hx, h₁, h₂⟩
        have := wf.canonical.head_lt hx
        omega
      · intro n hn
        rw [covers_cons]
        constructor
        · rintro (h | h)
          · omega
          · exact h
        · exact .inr

section

variable (h : ∀ n, value ≤ n → (Covers old n ↔ Covers old' n))
include h

theorem skipped_congr (p : Nat) : Skipped old value bits p ↔ Skipped old' value bits p := by
  induction p using Nat.strong_induction_on with
  | _ p ih =>
    rw [Skipped, Skipped]
    refine exists_congr fun p' => exists_congr fun c => exists_congr fun hlt => ?_
    rw [ih p' hlt]
    refine and_congr_right fun _ => and_congr_right fun _ => and_congr_left fun _ => ?_
    refine forall_congr' fun q => forall_congr' fun _ => forall_congr' fun _ => ?_
    exact h _ (by omega)

theorem carried_congr (k : Nat) : Carried old value bits k ↔ Carried old' value bits k := by
  unfold Carried
  simp only [skipped_congr h]

theorem bounded_congr : Bounded old value numBits bits → Bounded old' value numBits bits := by
  intro hbound p c hends hc hskip
  obtain ⟨n, h₁, h₂, hout⟩ := hbound p c hends hc fun hs => hskip ((skipped_congr h p).mp hs)
  exact ⟨n, h₁, h₂, fun hn => hout ((h n (by omega)).mpr hn)⟩

end

end

theorem Operands.bounds (hops : Operands value numBits) (hzero : Covers seqs 0 → Covers seqs 1) :
    ScanBounds seqs value numBits :=
  ⟨hops.base, fun _ => hzero, hops.last, hops.words⟩

theorem insertBits_adds (wf : WellFormed seqs) (hops : Operands value numBits)
    (hbound : Bounded seqs value numBits bits) (hn : numBits < 2 ^ 31) :
    ∃ grew after, insertBits (numBits + 1) seqs value numBits bits = .ok (grew, after) ∧
      (∀ n, Covers after n ↔ Covers seqs n ∨ Adds seqs value numBits bits n) ∧
      (grew = true ↔ ∃ n, Covers after n ∧ ¬ Covers seqs n) := by
  have hbase := hops.base
  rcases lone_zero wf with hzero | ⟨rest, rfl, hwf, hout, hsame⟩
  · exact insertBits_exact wf (hops.bounds hzero) hbound hn
  · have hsame' : ∀ n, value ≤ n → (Covers ((0, 0) :: rest) n ↔ Covers rest n) :=
      fun n h => hsame n (by omega)
    obtain ⟨grew, after, heq, hcov, hgrew⟩ := insertBits_exact hwf
      (hops.bounds fun h => absurd h hout) (bounded_congr hsame' hbound) hn
    have hadds : ∀ n, Adds rest value numBits bits n ↔ Adds ((0, 0) :: rest) value numBits bits n := by
      intro n
      unfold Adds
      simp only [carried_congr hsame']
    refine ⟨grew, (0, 0) :: after, by rw [insertBits_behindZero, heq]; rfl, fun n => ?_, ?_⟩
    · simp only [covers_cons, hcov, hadds, or_assoc]
    · rw [hgrew]
      refine exists_congr fun n => ?_
      by_cases hn : n = 0
      · subst hn
        have hnone : ¬ Covers after 0 := by
          rw [hcov]
          rintro (h | ⟨k, -, h, -⟩)
          · exact hout h
          · omega
        simp [hnone]
      · have hn' : ¬ (0 ≤ n ∧ n ≤ 0) := by omega
        simp only [covers_cons, hn', false_or]

/-- The insertion adds exactly the set bits, if and only if every number that is carried
over from a run into words of zeros behind it is in the set already. -/
theorem set_bits_added_iff (wf : WellFormed seqs) (hops : Operands value numBits)
    (hn : numBits < 2 ^ 31) (hbound : Bounded seqs value numBits bits) :
    AddsSetBits seqs value numBits bits ↔
      ∀ k : Nat, k < numBits → Carried seqs value bits k → Covers seqs (value + k) := by
  obtain ⟨grew, after, heq, hcov, hgrew⟩ := insertBits_adds wf hops hbound hn
  constructor
  · rintro ⟨fuel, grew', after', heq', hcov', -⟩ k hk hcar
    have hres := insertBits_unique heq heq'
    obtain ⟨-, rfl⟩ := Prod.mk.inj hres
    have hin := (hcov _).mpr (.inr ⟨k, hk, rfl, .inr hcar⟩)
    rcases (hcov' _).mp hin with h | ⟨k', -, hk', hbit⟩
    · exact h
    · obtain rfl : k = k' := by omega
      exact absurd hcar.zero (word_ne_zero_of_bitSet hbit)
  · intro hharmless
    refine ⟨numBits + 1, grew, after, heq, fun n => ?_, hgrew⟩
    rw [hcov]
    constructor
    · rintro (h | ⟨k, hk, rfl, hbit | hcar⟩)
      · exact .inl h
      · exact .inr ⟨k, hk, rfl, hbit⟩
      · exact .inl (hharmless k hk hcar)
    · rintro (h | ⟨k, hk, rfl, hbit⟩)
      · exact .inl h
      · exact .inr ⟨k, hk, rfl, .inl hbit⟩

/-- The first and the third of four bits above 1. -/
theorem set_bits_added_iff_alternating : AddsSetBits [(1, 1)] 2 4 (fun _ => 0xA0000000) := by
  have wf : WellFormed [(1, 1)] := ⟨⟨by decide, by decide⟩, by unfold Within; decide⟩
  have hops : Operands 2 4 := ⟨by decide, by decide, by decide⟩
  refine (set_bits_added_iff wf hops (by decide) ?_).mpr ?_
  · intro p c _ _ _
    refine ⟨2 + c, le_rfl, by omega, ?_⟩
    simp only [covers_cons, covers_nil, or_false]
    omega
  · intro k _ hcar
    exact absurd hcar.zero (by decide)

/-- A run that ends with the first word goes on over the zeros of the second. -/
theorem zero_word_inserted :
    ¬ ∀ (seqs : List Range) (value : Int) (numBits : Nat) (bits : Nat → BitVec 32),
      WellFormed seqs → 1 ≤ value → AddsSetBits seqs value numBits bits := by
  intro h
  obtain ⟨fuel, grew, after, heq, hcov, -⟩ :=
    h [] 1 64 (fun k => if k = 0 then 1 else 0) wellFormed_nil (by decide)
  have hrun : insertBits 65 [] 1 64 (fun k => if k = 0 then 1 else 0) = .ok (true, [(32, 64)]) := by
    decide +kernel
  have hres := insertBits_unique heq hrun
  obtain ⟨-, rfl⟩ := Prod.mk.inj hres
  have hin : Covers [(32, 64)] 33 := ⟨(32, 64), by decide, by decide, by decide⟩
  rcases (hcov 33).mp hin with h | ⟨k, hk, hval, hbit⟩
  · exact covers_nil _ h
  · obtain rfl : k = 32 := by omega
    exact absurd hbit (by decide)

theorem MissingInside.bounded (hops : Operands value numBits)
    (h : MissingInside seqs value numBits bits) : Bounded seqs value numBits bits := by
  have hwords := hops.words
  intro p c hends hc hskip
  obtain ⟨q, h₁, h₂, hout⟩ := h p c hends hc hskip
  exact ⟨value + q, by omega, by omega, hout⟩

theorem missingInside_congr (h : ∀ n, value ≤ n → (Covers old n ↔ Covers old' n)) :
    MissingInside old value numBits bits ↔ MissingInside old' value numBits bits := by
  refine forall_congr' fun p => forall_congr' fun c => forall_congr' fun _ => forall_congr' fun _ => ?_
  rw [skipped_congr h]
  refine forall_congr' fun _ => exists_congr fun q => and_congr_right fun _ => ?_
  rw [h _ (by omega)]

theorem MissingInside.scanStep_le {s : BitmapScan} (h : MissingInside seqs value numBits bits)
    (inv : ScanInv seqs value numBits bits s) (runs : Runs seqs value numBits bits s)
    (hb : ScanBounds seqs value numBits) (hbound : Bounded seqs value numBits bits)
    (hi : s.i < numBits) : (scanStep value bits s).i ≤ 32 * ((numBits + 31) / 32) := by
  obtain ⟨h0, hz, heq⟩ | ⟨hset, heq⟩ | ⟨hclear, hrun, heq⟩ | ⟨hclear, hz, hrun, heq⟩ :=
    scanStep_cases inv.toDecoding hb.words hi
  · rw [heq]
    simp only
    omega
  · rw [heq]
    simp only
    omega
  · rw [heq]
    simp only
    omega
  · obtain ⟨p, hends, hskip⟩ := runs.runEnds hclear hz hrun
    obtain ⟨q, h₁, h₂, hout⟩ := h p s.i hends hi hskip
    obtain ⟨result, start, i, bit, word, x, hclose, -, -, hlt, -, hcov, -, -,
      ⟨-, hxmem, hxlow, -, -⟩, hi', -, -⟩ := inv.resetBit.closing hb hi hrun rfl rfl
        (runs.ahead hbound hi hclear hz hrun)
    have hend : x.2 < value + q := by
      by_contra hge
      simp only at hxlow hlt
      rcases (hcov (value + q)).mp ⟨x, hxmem, by omega, by omega⟩ with hin | hin
      · rcases runs.behind _ hin with hold | hlow
        · exact hout hold
        · omega
      · simp only at hin
        omega
    rw [heq, hclose]
    simp only at hi' ⊢
    omega

theorem MissingInside.scanLoop_le (h : MissingInside seqs value numBits bits)
    (hb : ScanBounds seqs value numBits) (hbound : Bounded seqs value numBits bits) (fuel : Nat)
    (s done : BitmapScan) (inv : ScanInv seqs value numBits bits s)
    (runs : Runs seqs value numBits bits s) (hs : s.i ≤ 32 * ((numBits + 31) / 32))
    (hloop : scanLoop value numBits bits fuel s = .ok done) :
    done.i ≤ 32 * ((numBits + 31) / 32) := by
  induction fuel generalizing s with
  | zero => cases hloop
  | succ fuel ih =>
    unfold scanLoop at hloop
    split at hloop
    · rename_i hi
      obtain ⟨inv', runs', -⟩ := scanStep_runs inv runs hb hbound hi
      exact ih _ inv' runs' (h.scanStep_le inv runs hb hbound hi) hloop
    · cases hloop
      exact hs

theorem staysInside_iff (wf : WellFormed seqs) (hb : ScanBounds seqs value numBits)
    (hbound : Bounded seqs value numBits bits) :
    StaysInside seqs value numBits bits ↔ MissingInside seqs value numBits bits := by
  obtain ⟨done, hloop, inv, runs, hdone⟩ := scanLoop_runs hb hbound (numBits + 1) (scanStart seqs)
    (scanStart_inv wf) scanStart_runs (by omega) (by omega)
  have hreads := scanReads_inside hb hbound (show numBits ≤ 32 * ((numBits + 31) / 32) by omega)
    (numBits + 1) (scanStart seqs) done (scanStart_inv wf) scanStart_runs hloop (Nat.zero_le _)
  constructor
  · rintro ⟨fuel, done', hloop', hin⟩ p c hends hc hskip
    rw [scanReads_unique hloop' hloop, hreads] at hin
    obtain ⟨q, h₁, h₂, hout⟩ := runs.ended p c hends hskip (by omega)
    exact ⟨q, h₁, by omega, hout⟩
  · intro hmiss
    exact ⟨numBits + 1, done, hloop, hreads.mpr (hmiss.scanLoop_le hb hbound (numBits + 1) _ done
      (scanStart_inv wf) scanStart_runs (Nat.zero_le _) hloop)⟩

theorem staysInside_behindZero {rest : List Range} :
    StaysInside ((0, 0) :: rest) value numBits bits ↔ StaysInside rest value numBits bits := by
  have hstart : scanStart ((0, 0) :: rest) = (scanStart rest).behindZero := rfl
  unfold StaysInside
  simp only [hstart, scanReads_behindZero, scanLoop_behindZero]
  refine exists_congr fun fuel => ?_
  cases scanLoop value numBits bits fuel (scanStart rest) with
  | error fault => simp [Except.map]
  | ok done => simp [Except.map]

/-- The insertion ends without reading behind its bitmap, if behind every run that the scan
looks at a number is missing before the end of the last word; and only then, unless a stored
range is so long that the jump over it is cut off. -/
theorem bitmap_stays_inside (wf : WellFormed seqs) (hops : Operands value numBits) :
    (MissingInside seqs value numBits bits → StaysInside seqs value numBits bits) ∧
      (Bounded seqs value numBits bits → StaysInside seqs value numBits bits →
        MissingInside seqs value numBits bits) := by
  have hbase := hops.base
  have hiff : Bounded seqs value numBits bits →
      (StaysInside seqs value numBits bits ↔ MissingInside seqs value numBits bits) := by
    intro hbound
    rcases lone_zero wf with hzero | ⟨rest, rfl, hwf, hout, hsame⟩
    · exact staysInside_iff wf (hops.bounds hzero) hbound
    · have hsame' : ∀ n, value ≤ n → (Covers ((0, 0) :: rest) n ↔ Covers rest n) :=
        fun n h => hsame n (by omega)
      rw [staysInside_behindZero, missingInside_congr hsame']
      exact staysInside_iff hwf (hops.bounds fun h => absurd h hout) (bounded_congr hsame' hbound)
  exact ⟨fun h => (hiff (h.bounded hops)).mpr h, fun hbound h => (hiff hbound).mp h⟩

/-- Two runs in a bitmap of one word, with nothing stored behind it. -/
theorem bitmap_stays_inside_alternating : StaysInside [(1, 1)] 2 4 (fun _ => 0xA0000000) := by
  have wf : WellFormed [(1, 1)] := ⟨⟨by decide, by decide⟩, by unfold Within; decide⟩
  have hops : Operands 2 4 := ⟨by decide, by decide, by decide⟩
  refine (bitmap_stays_inside wf hops).1 ?_
  intro p c _ hc _
  refine ⟨c, le_rfl, by omega, ?_⟩
  simp only [covers_cons, covers_nil, or_false]
  omega

/-- With 5 to 100 stored, inserting the first four of eight bits above 1 reads the fourth
word of a bitmap that has one. -/
theorem read_behind_bitmap :
    ¬ ∀ (seqs : List Range) (value : Int) (numBits : Nat) (bits : Nat → BitVec 32),
      WellFormed seqs → 1 ≤ value → StaysInside seqs value numBits bits := by
  intro h
  have wf : WellFormed [(5, 100)] := ⟨⟨by decide, by decide⟩, by unfold Within; decide⟩
  obtain ⟨fuel, done, hloop, hin⟩ := h [(5, 100)] 1 8 (fun _ => 0xF0000000) wf (by decide)
  have hend : ∃ done, scanLoop 1 8 (fun _ => 0xF0000000) 9 (scanStart [(5, 100)]) = .ok done :=
    ⟨_, rfl⟩
  obtain ⟨done', hloop'⟩ := hend
  rw [scanReads_unique hloop hloop'] at hin
  have hread : 3 ∈ scanReads 1 8 (fun _ => 0xF0000000) 9 (scanStart [(5, 100)]) := by decide +kernel
  exact absurd (hin 3 hread) (by decide)

end OpenDDS.Guarantees.BitmapInsertion
