import Mathlib.Algebra.Group.Int.Defs
import Mathlib.Data.List.Induction
import OpenDDS.Source.DataCollector

/-!
What a `DataCollector` retains and prints. It retains what its policy says, but where it has wrapped
to the start, or has nothing yet, it prints its whole buffer behind that; and a write index from
2^31 on is negative as an `int`.
-/
namespace OpenDDS.Guarantees.CollectedData
open Source Source.DataCollector

variable {α : Type}

def retained (bound : Nat) (onFull : OnFull) (data : List α) : List α :=
  match onFull with
  | .unbounded => data
  | .keepOldest => data.take bound
  | .keepNewest => data.drop (data.length - bound)

def contents (c : Collector α) : List α :=
  if c.onFull = .unbounded then c.buffer
  else (if c.full then c.buffer.drop c.writeAt else []) ++ c.buffer.take c.writeAt

structure Prints (bound : Nat) (onFull : OnFull) (data : List α) (c : Collector α) : Prop where
  contents : contents c = retained bound onFull data
  size : size c = (retained bound onFull data).length
  insert : insert c = retained bound onFull data

/-- The write index is a positive `int`, or the buffer has no `int` as its length either. -/
def Exact (bound writeAt : Nat) : Prop :=
  if writeAt = 0 then bound = 0 ∨ 2 ^ 31 ≤ bound else writeAt < 2 ^ 31

instance (bound writeAt : Nat) : Decidable (Exact bound writeAt) :=
  inferInstanceAs (Decidable (ite _ _ _))

/-- Where a bounded collector writes next after `n` data. -/
def writeIndex (bound : Nat) (onFull : OnFull) (n : Nat) : Nat :=
  if onFull = .keepOldest then min n bound else if bound = 0 then 0 else n % bound

theorem writeIndex_le (bound : Nat) (onFull : OnFull) (n : Nat) : writeIndex bound onFull n ≤ bound := by
  unfold writeIndex
  have := fun hpos => Nat.mod_lt n (y := bound) hpos
  split_ifs <;> omega

/-- The condition on the bound, the policy and the number of data. -/
def Printable (bound : Nat) (onFull : OnFull) (n : Nat) : Prop :=
  if onFull = .unbounded then n < 2 ^ 31 else Exact bound (writeIndex bound onFull n)

instance (bound : Nat) (onFull : OnFull) (n : Nat) : Decidable (Printable bound onFull n) :=
  inferInstanceAs (Decidable (ite _ _ _))

structure Unbounded (data : List α) (c : Collector α) : Prop where
  policy : c.onFull = .unbounded
  buffer : c.buffer = data
  index : c.writeAt = 0
  empty : c.full = false

structure Bounded (bound : Nat) (onFull : OnFull) (data : List α) (c : Collector α) : Prop where
  policy : c.onFull = onFull
  capacity : c.bound = bound
  length : c.buffer.length = bound
  held : contents c = retained bound onFull data
  full : c.full = true ↔ 0 < bound ∧ bound ≤ data.length
  index : c.writeAt = writeIndex bound onFull data.length

section

variable {bound : Nat} {onFull : OnFull} {data : List α} {c : Collector α} {datum : α}

theorem Unbounded.collect (h : Unbounded data c) : Unbounded (data ++ [datum]) (collect c datum) := by
  rw [DataCollector.collect, if_pos h.policy]
  exact ⟨h.policy, by rw [h.buffer], h.index, h.empty⟩

variable (datum) in
theorem contents_collect (hbounded : c.onFull ≠ .unbounded) (hlength : c.buffer.length = c.bound)
    (hroom : c.writeAt < c.bound) :
    contents (collect c datum) = (contents c).drop (if c.full then 1 else 0) ++ [datum] := by
  obtain ⟨buffer, writeAt, bound, full, onFull⟩ := c
  simp only at hbounded hlength hroom
  obtain ⟨front, oldest, back, rfl, rfl⟩ :
      ∃ front oldest back, buffer = front ++ oldest :: back ∧ writeAt = front.length :=
    ⟨buffer.take writeAt, buffer[writeAt], buffer.drop (writeAt + 1), by simp, by simp; omega⟩
  rw [List.length_append, List.length_cons] at hlength
  rw [collect, if_neg hbounded, if_pos (show front.length ≠ bound by omega)]
  simp only [List.set_append_right _ _ (Nat.le_refl _), Nat.sub_self, List.set_cons_zero]
  split
  case isTrue hfilled =>
    obtain rfl : back = [] := List.length_eq_zero_iff.mp (by omega)
    subst hfilled
    cases onFull <;> cases full <;> simp [contents, List.take_append, List.drop_append, List.take_of_length_le] at *
  case isFalse =>
    cases full <;> simp [contents, hbounded, List.take_append, List.drop_append, List.take_of_length_le]

variable (datum) in
theorem retained_append (hbounded : onFull ≠ .unbounded)
    (hroom : writeIndex bound onFull data.length < bound) :
    retained bound onFull (data ++ [datum]) =
      (retained bound onFull data).drop (if bound ≤ data.length then 1 else 0) ++ [datum] := by
  cases onFull with
  | unbounded => exact absurd rfl hbounded
  | keepOldest =>
    have hshort : data.length < bound := by
      rw [writeIndex, if_pos rfl] at hroom
      omega
    have hnext : data.length + 1 ≤ bound := hshort
    simp [retained, List.take_of_length_le, Nat.le_of_lt hshort, Nat.not_le_of_lt hshort, hnext]
  | keepNewest =>
    have hshift : data.length + 1 - bound =
        data.length - bound + if bound ≤ data.length then 1 else 0 := by
      split <;> omega
    have hle : data.length + 1 - bound ≤ data.length := by omega
    simp only [retained, List.length_append, List.length_singleton]
    rw [List.drop_append_of_le_length hle, hshift, List.drop_drop]

theorem writeIndex_succ (bound : Nat) (onFull : OnFull) (n : Nat) : writeIndex bound onFull (n + 1) =
    if writeIndex bound onFull n = bound then bound
    else if writeIndex bound onFull n + 1 = bound then if onFull = .keepOldest then bound else 0
    else writeIndex bound onFull n + 1 := by
  unfold writeIndex
  by_cases hzero : bound = 0
  · simp [hzero]
  · have hlt := Nat.mod_lt n (Nat.pos_of_ne_zero hzero)
    have hmod : (n + 1) % bound = if n % bound + 1 = bound then 0 else n % bound + 1 := by
      have hsum : n + 1 = n % bound + 1 + bound * (n / bound) := by
        have := Nat.mod_add_div n bound
        omega
      rw [hsum, Nat.add_mul_mod_self_left]
      split
      case isTrue hend => rw [hend, Nat.mod_self]
      case isFalse hend => exact Nat.mod_eq_of_lt (by omega)
    rw [hmod]
    split_ifs <;> omega

theorem writeIndex_of_lt {n : Nat} (h : n < bound) : writeIndex bound onFull n = n := by
  unfold writeIndex
  rw [Nat.mod_eq_of_lt h]
  split_ifs <;> omega

variable (datum) in
theorem retained_stopped (hstop : writeIndex bound onFull data.length = bound)
    (hbounded : onFull ≠ .unbounded) :
    bound ≤ data.length ∧ retained bound onFull (data ++ [datum]) = retained bound onFull data := by
  have hle : bound ≤ data.length := by
    by_contra hlt
    rw [writeIndex_of_lt (by omega)] at hstop
    omega
  refine ⟨hle, ?_⟩
  cases onFull with
  | unbounded => exact absurd rfl hbounded
  | keepOldest => exact List.take_append_of_le_length hle
  | keepNewest =>
    have hzero : bound = 0 := by
      by_contra hpos
      have := Nat.mod_lt data.length (Nat.pos_of_ne_zero hpos)
      simp [writeIndex, hpos] at hstop
      omega
    simp [retained, hzero]

theorem Bounded.collect (hbounded : onFull ≠ .unbounded) (h : Bounded bound onFull data c) :
    Bounded bound onFull (data ++ [datum]) (collect c datum) := by
  obtain ⟨rfl, rfl, hlength, hheld, hfull, hindex⟩ := h
  have hnext := writeIndex_succ c.bound c.onFull data.length
  rw [← hindex] at hnext
  by_cases hstop : c.writeAt = c.bound
  · obtain ⟨hle, hsame⟩ := retained_stopped datum (hindex ▸ hstop) hbounded
    rw [DataCollector.collect, if_neg hbounded, if_neg (not_not.mpr hstop)]
    refine ⟨rfl, rfl, hlength, hheld.trans hsame.symm, ?_, ?_⟩
    · rw [hfull, List.length_append]
      omega
    · rw [List.length_append, List.length_singleton, hnext, if_pos hstop, hstop]
  · have hroom : c.writeAt < c.bound := by
      have := writeIndex_le c.bound c.onFull data.length
      omega
    have hadded := retained_append datum hbounded (hindex ▸ hroom)
    have hstep := contents_collect datum hbounded hlength hroom
    have hpos : 0 < c.bound := by omega
    have hdrop : (if c.full then 1 else 0) = if c.bound ≤ data.length then 1 else 0 := by
      simp only [hfull, hpos, true_and]
    rw [hheld, hdrop, ← hadded] at hstep
    rw [if_neg hstop] at hnext
    rw [DataCollector.collect, if_neg hbounded, if_pos hstop] at hstep ⊢
    split at hstep
    case isTrue hfilled =>
      rw [if_pos hfilled] at hnext
      rw [if_pos hfilled]
      have hle : c.bound ≤ data.length + 1 := by
        by_contra hlt
        rw [writeIndex_of_lt (by omega)] at hindex
        omega
      refine ⟨rfl, rfl, by simp [hlength], hstep, by simp [hpos, hle], ?_⟩
      rw [List.length_append, List.length_singleton, hnext]
      cases hpolicy : c.onFull <;> simp_all
    case isFalse hmore =>
      rw [if_neg hmore] at hnext
      rw [if_neg hmore]
      refine ⟨rfl, rfl, by simp [hlength], hstep, ?_, ?_⟩
      · rw [hfull, List.length_append, List.length_singleton]
        refine and_congr_right fun _ => ⟨fun h => by omega, fun h => ?_⟩
        by_contra hlt
        rw [writeIndex_of_lt (by omega)] at hindex
        omega
      · rw [List.length_append, List.length_singleton, hnext]

end

section

variable {bound : Nat} {onFull : OnFull}

theorem unbounded_run (blank : α) (bound : Nat) (data : List α) :
    Unbounded data (data.foldl collect (create blank bound .unbounded)) := by
  induction data using List.reverseRecOn with
  | nil => exact ⟨rfl, rfl, rfl, rfl⟩
  | append_singleton data datum ih =>
    rw [List.foldl_append]
    exact ih.collect

theorem bounded_run (blank : α) (bound : Nat) (hbounded : onFull ≠ .unbounded) (data : List α) :
    Bounded bound onFull data (data.foldl collect (create blank bound onFull)) := by
  induction data using List.reverseRecOn with
  | nil =>
    refine ⟨rfl, rfl, by simp [create, hbounded], ?_, by simp [create]; omega, ?_⟩
    · cases onFull <;> simp [contents, create, retained] at *
    · unfold writeIndex
      split_ifs <;> simp [create]
  | append_singleton data datum ih =>
    rw [List.foldl_append]
    exact ih.collect hbounded

theorem toInt_eq {n : Nat} (h : n < 2 ^ 32) :
    toInt n = if n < 2 ^ 31 then (n : Int) else n - 2 ^ 32 := by
  rw [toInt, BitVec.toInt_eq_toNat_cond, BitVec.toNat_ofNat, Nat.mod_eq_of_lt h]
  split_ifs <;> omega

theorem toInt_lt (n : Nat) : toInt n < 2 ^ 31 := by
  have := BitVec.toInt_lt (x := BitVec.ofNat 32 n)
  simpa [toInt] using this

variable {data : List α} {c : Collector α}

theorem size_eq (hbounded : onFull ≠ .unbounded) (h : Bounded bound onFull data c) :
    size c = (retained bound onFull data).length := by
  obtain ⟨rfl, rfl, -, -, hfull, hindex⟩ := h
  have hlength : (retained c.bound c.onFull data).length = min data.length c.bound := by
    cases hpolicy : c.onFull with
    | unbounded => exact absurd hpolicy hbounded
    | keepOldest => rw [retained, List.length_take, Nat.min_comm]
    | keepNewest =>
      rw [retained, List.length_drop]
      omega
  rw [size, if_neg hbounded, hlength]
  split
  case isTrue h => exact (Nat.min_eq_right (hfull.mp h).2).symm
  case isFalse h =>
    have hle := writeIndex_le c.bound c.onFull data.length
    rw [hfull] at h
    by_cases hlt : data.length < c.bound
    · rw [hindex, writeIndex_of_lt hlt]
      omega
    · omega

theorem insert_iff (hbound : bound < 2 ^ 32) (hbounded : onFull ≠ .unbounded)
    (h : Bounded bound onFull data c) :
    insert c = retained bound onFull data ↔ Exact bound (writeIndex bound onFull data.length) := by
  have hle := writeIndex_le bound onFull data.length
  obtain ⟨rfl, rfl, hlength, hheld, -, hindex⟩ := h
  have hall : c.buffer.take c.bound = c.buffer := List.take_of_length_le (by omega)
  rw [← hheld, ← hindex]
  rw [← hindex] at hle
  simp only [DataCollector.insert, contents, if_neg hbounded, hall]
  rw [List.append_cancel_left_eq, List.take_eq_take_iff, hlength, Nat.min_eq_left hle,
    toInt_eq (by omega), toInt_eq hbound]
  unfold Exact
  split_ifs <;> omega

/-- A collector prints what it retains exactly under the condition. -/
theorem collector_prints_iff (blank : α) (bound : Nat) (onFull : OnFull) (data : List α)
    (hbound : bound < 2 ^ 32) :
    Prints bound onFull data (data.foldl collect (create blank bound onFull)) ↔
      Printable bound onFull data.length := by
  by_cases hbounded : onFull = .unbounded
  · subst hbounded
    obtain ⟨hpolicy, hbuffer, hindex, hempty⟩ := unbounded_run blank bound data
    have hinsert : insert (data.foldl collect (create blank bound .unbounded)) =
        data.take (toInt data.length).toNat := by
      simp [DataCollector.insert, hbuffer, hindex, hempty, toInt]
    have hcontents : contents (data.foldl collect (create blank bound .unbounded)) = data := by
      rw [contents, if_pos hpolicy, hbuffer]
    have hsize : size (data.foldl collect (create blank bound .unbounded)) = data.length % 2 ^ 32 := by
      rw [size, if_pos hpolicy, hbuffer]
    rw [Printable, if_pos rfl]
    constructor
    · intro h
      have hlength := congrArg List.length (hinsert.symm.trans h.insert)
      have := toInt_lt data.length
      rw [List.length_take, retained] at hlength
      omega
    · intro hlt
      refine ⟨hcontents, hsize.trans (Nat.mod_eq_of_lt (by omega)), hinsert.trans ?_⟩
      rw [toInt_eq (by omega), if_pos hlt]
      exact List.take_of_length_le (by omega)
  · have h := bounded_run blank bound hbounded data
    rw [Printable, if_neg hbounded, ← insert_iff hbound hbounded h]
    exact ⟨fun hprints => hprints.insert, fun hinsert => ⟨h.held, size_eq hbounded h, hinsert⟩⟩

end

/-- Four data in a ring of three. -/
theorem ring_of_three_prints :
    Prints 3 .keepNewest [1, 2, 3, 4] ([1, 2, 3, 4].foldl collect (create 0 3 .keepNewest)) :=
  (collector_prints_iff 0 3 .keepNewest [1, 2, 3, 4] (by decide)).mpr (by decide)

/-- Three data in the same ring are printed twice. -/
theorem full_ring_prints_twice :
    ¬ Prints 3 .keepNewest [1, 2, 3] ([1, 2, 3].foldl collect (create 0 3 .keepNewest)) := by
  intro h
  exact absurd h.insert (by decide)

end OpenDDS.Guarantees.CollectedData
