import Mathlib.Tactic.SplitIfs
import OpenDDS.Source.FileSystemStorage

/-!
The file names of the storage. Encoding is undone by decoding, and uses no character that a name
must not have. Decoding a name goes through it in steps of eight characters, so that it has to be
made of groups of eight, and looks for padding behind a group that has none.
-/
namespace OpenDDS.Guarantees.FileNames
open Source.FileSystemStorage

section

variable {i p t : Nat}

theorem getLsbD_placed (c : Character) (hi : i ≤ 4) (hp : p ≤ 4) (ht : t < 8) :
    (c.setWidth 64 <<< ((4 - i) * 8)).getLsbD ((4 - p) * 8 + t) = (decide (p = i) && c.getLsbD t) := by
  rw [BitVec.getLsbD_shiftLeft, BitVec.getLsbD_setWidth]
  by_cases hplace : p = i
  · subst hplace
    have hlt : (4 - p) * 8 + t < 64 := by omega
    simp [hlt, show t < 64 by omega]
  · by_cases hlt : (4 - p) * 8 + t < (4 - i) * 8
    · simp [hlt, hplace]
    · rw [BitVec.getLsbD_of_ge c _ (by omega)]
      simp [hplace]

theorem getLsbD_packFrom (group : List Character) (hlen : i + group.length ≤ 5) (hp : p ≤ 4) (ht : t < 8) :
    (packFrom i group).getLsbD ((4 - p) * 8 + t) =
      (decide (i ≤ p) && (group.getD (p - i) 0).getLsbD t) := by
  induction group generalizing i with
  | nil => simp [packFrom]
  | cons c group ih =>
    rw [List.length_cons] at hlen
    rw [packFrom, BitVec.getLsbD_or, getLsbD_placed c (by omega) hp ht, ih (by omega)]
    rcases Nat.lt_trichotomy p i with hlt | rfl | hgt
    · simp [Nat.not_le_of_lt hlt, Nat.ne_of_lt hlt, Nat.not_le_of_lt (Nat.lt_succ_of_lt hlt)]
    · rw [decide_eq_false (show ¬ p + 1 ≤ p by omega)]
      simp
    · obtain ⟨k, rfl⟩ : ∃ k, p = i + 1 + k := ⟨p - (i + 1), by omega⟩
      simp [show i + 1 + k - i = k + 1 by omega, show i ≤ i + 1 + k by omega, show i + 1 + k ≠ i by omega]

theorem lookup_idx (n : Nat) (h : n < 32) :
    idx (lookup.getD n 0) = BitVec.ofNat 8 n ∧ lookup.getD n 0 ∈ lookup := by
  revert n
  decide

theorem lookup_plain : 0 ∉ lookup ∧ padding ∉ lookup ∧ 0x2f ∉ lookup := by
  decide

theorem getLsbD_mask (k : Nat) : (0x1f : Character).getLsbD k = decide (k < 5) := by
  rw [show (0x1f : Character) = BitVec.ofNat 8 (2 ^ 5 - 1) from rfl, BitVec.getLsbD_ofNat,
    Nat.testBit_two_pow_sub_one, ← Bool.decide_and, decide_eq_decide]
  omega

/-- The five bits that a symbol is made from. -/
def digit (chunk : BitVec 64) (i : Nat) : Character := (chunk >>> ((7 - i) * 5)).setWidth 8 &&& 0x1f

theorem digit_lt (chunk : BitVec 64) (i : Nat) : (digit chunk i).toNat < 32 := by
  rw [digit, BitVec.toNat_and]
  exact Nat.lt_of_le_of_lt Nat.and_le_right (by decide)

theorem symbol_mem (chunk : BitVec 64) (i : Nat) : symbol chunk i ∈ lookup :=
  (lookup_idx _ (digit_lt chunk i)).2

theorem idx_symbol (chunk : BitVec 64) (i : Nat) : idx (symbol chunk i) = digit chunk i := by
  rw [symbol, ← digit, (lookup_idx _ (digit_lt chunk i)).1, BitVec.ofNat_toNat, BitVec.setWidth_eq]

theorem getLsbD_digit (chunk : BitVec 64) (b : Nat) (hi : i ≤ 7) :
    ((digit chunk i).signExtend 64 <<< ((7 - i) * 5)).getLsbD b =
      (decide ((7 - i) * 5 ≤ b ∧ b < (7 - i) * 5 + 5) && chunk.getLsbD b) := by
  have hmsb := BitVec.msb_eq_false_iff_two_mul_lt.mpr
    (show 2 * (digit chunk i).toNat < 2 ^ 8 by have := digit_lt chunk i; omega)
  rw [BitVec.signExtend_eq_setWidth_of_msb_false hmsb, BitVec.getLsbD_shiftLeft,
    BitVec.getLsbD_setWidth, digit, BitVec.getLsbD_and, BitVec.getLsbD_setWidth,
    BitVec.getLsbD_ushiftRight, getLsbD_mask]
  by_cases hlo : (7 - i) * 5 ≤ b
  · obtain ⟨k, rfl⟩ := Nat.exists_eq_add_of_le hlo
    by_cases hk : k < 5
    · simp [show (7 - i) * 5 + k < 64 by omega, hk, show k < 64 by omega, show k < 8 by omega]
    · simp [hk]
  · simp [hlo, Nat.lt_of_not_le hlo]

theorem scan_symbols {memory : List Character} (chunk : BitVec 64) (n m : Nat) (acc : BitVec 64)
    (hi : i + n ≤ 8) (hsymbols : ∀ k, i ≤ k → k < i + n → memory[k]? = some (symbol chunk k)) :
    ∃ acc', scan memory (n + m) i acc = scan memory m (i + n) acc' ∧
      ∀ b, acc'.getLsbD b = (acc.getLsbD b ||
        (decide ((8 - (i + n)) * 5 ≤ b ∧ b < (8 - i) * 5) && chunk.getLsbD b)) := by
  induction n generalizing i acc with
  | zero =>
    refine ⟨acc, by rw [Nat.zero_add]; rfl, fun b => ?_⟩
    rw [decide_eq_false (by omega)]
    simp
  | succ n ih =>
    have hplain : symbol chunk i ≠ padding := fun h => lookup_plain.2.1 (h ▸ symbol_mem chunk i)
    obtain ⟨acc', hscan, hbits⟩ := ih (i := i + 1)
      (acc ||| (digit chunk i).signExtend 64 <<< ((7 - i) * 5)) (by omega)
      fun k hlo hhi => hsymbols k (by omega) (by omega)
    refine ⟨acc', ?_, fun b => ?_⟩
    · rw [Nat.add_right_comm, scan, hsymbols i (Nat.le_refl i) (by omega)]
      simp only [hplain, if_false, idx_symbol, hscan, show i + 1 + n = i + (n + 1) by omega]
    · rw [hbits, BitVec.getLsbD_or, getLsbD_digit chunk b (by omega), Bool.or_assoc,
        ← Bool.and_or_distrib_right, ← Bool.decide_or]
      congr 3
      rw [eq_iff_iff]
      omega

end

section

variable {group : List Character} {limit : Nat}

section

variable (hlen : group.length ≤ 5) (hlimit : limit ≤ 8) (hfit : group.length * 8 ≤ limit * 5)
include hlen hlimit hfit

theorem outputs_packFrom {acc : BitVec 64} (hbits : ∀ b, acc.getLsbD b =
      (decide ((8 - limit) * 5 ≤ b ∧ b < 40) && (packFrom 0 group).getLsbD b)) :
    outputs acc group.length = group := by
  refine List.ext_getElem (by simp [outputs]) fun j hj hj' => BitVec.eq_of_getLsbD_eq fun t ht => ?_
  simp only [outputs, List.getElem_map, List.getElem_range, BitVec.getLsbD_setWidth,
    BitVec.getLsbD_ushiftRight, ht, decide_true, Bool.true_and]
  rw [hbits, getLsbD_packFrom group (by omega) (by omega) ht, decide_eq_true (by omega)]
  simp [hj']

theorem decodeGroup_symbols {c : Character} (tail : List Character)
    (hend : limit < 8 ∧ c = padding ∧ dec[limit]? = some group.length ∨
      limit = 8 ∧ c ≠ padding ∧ group.length = 5) :
    decodeGroup (symbols (packFrom 0 group) limit ++ c :: tail) = some group := by
  have hcount : (symbols (packFrom 0 group) limit).length = limit := by simp [symbols]
  have hat : ∀ k, 0 ≤ k → k < 0 + limit →
      (symbols (packFrom 0 group) limit ++ c :: tail)[k]? = some (symbol (packFrom 0 group) k) := by
    intro k _ hk
    rw [List.getElem?_append_left (by omega)]
    simp [symbols, show k < limit by omega]
  have hstop : (symbols (packFrom 0 group) limit ++ c :: tail)[limit]? = some c := by
    rw [List.getElem?_append_right (by omega), hcount, Nat.sub_self]
    rfl
  obtain ⟨acc, hscan, hbits⟩ := scan_symbols (packFrom 0 group) limit (8 - limit) 0 (by omega) hat
  rw [Nat.add_sub_cancel' hlimit, Nat.zero_add] at hscan
  have hout := outputs_packFrom hlen hlimit hfit fun b => by simpa using hbits b
  obtain ⟨hlt, rfl, hdec⟩ | ⟨rfl, hne, hfive⟩ := hend
  · obtain ⟨n, hn⟩ : ∃ n, 8 - limit = n + 1 := ⟨7 - limit, by omega⟩
    have hlast : scan (symbols (packFrom 0 group) limit ++ padding :: tail) (n + 1) limit acc =
        some (limit, acc) := by
      rw [scan, hstop]
      rfl
    rw [hn, hlast] at hscan
    simp only [decodeGroup, hscan, hstop, if_true, hdec, Option.map_some, hout]
  · rw [Nat.sub_self, scan] at hscan
    simp only [decodeGroup, hscan, hstop, hne, if_false, Option.map_some, ← hfive, hout]

end

theorem decodeMemory_cons {c : Character} {rest : List Character} (h : c ≠ 0) :
    decodeMemory (c :: rest) =
      (decodeGroup (c :: rest)).bind fun bytes => (decodeMemory (rest.drop 7)).map (bytes ++ ·) := by
  rw [decodeMemory, if_neg h]
  cases decodeGroup (c :: rest) <;> rfl

theorem decodeMemory_symbols (group : List Character) {c : Character} {tail : List Character}
    (hpos : 0 < limit) (hlen : group.length ≤ 5) (hlimit : limit ≤ 8) (hfit : group.length * 8 ≤ limit * 5)
    (hend : limit < 8 ∧ c = padding ∧ dec[limit]? = some group.length ∨
      limit = 8 ∧ c ≠ padding ∧ group.length = 5) :
    decodeMemory (symbols (packFrom 0 group) limit ++ c :: tail) =
      (decodeMemory ((symbols (packFrom 0 group) limit ++ c :: tail).drop 8)).map (group ++ ·) := by
  have hgroup := decodeGroup_symbols hlen hlimit hfit tail hend
  obtain ⟨n, rfl⟩ : ∃ n, limit = n + 1 := ⟨limit - 1, by omega⟩
  have hfirst : symbol (packFrom 0 group) 0 ≠ 0 := fun h => lookup_plain.1 (h ▸ symbol_mem _ _)
  rw [symbols, List.range_succ_eq_map, List.map_cons, List.cons_append] at hgroup ⊢
  rw [decodeMemory_cons hfirst, hgroup, Option.bind_some, List.drop_succ_cons]

theorem enc_dec (n : Nat) (h : n < 5) (hpos : 0 < n) : 0 < enc.getD n 0 ∧ enc.getD n 0 < 8 ∧
    n * 8 ≤ enc.getD n 0 * 5 ∧ dec[enc.getD n 0]? = some n := by
  revert n
  decide

theorem encodeChars_part (hpos : 0 < group.length) (hlen : group.length < 5) :
    encodeChars group = symbols (packFrom 0 group) (enc.getD group.length 0) ++
      List.replicate (8 - enc.getD group.length 0) padding := by
  unfold encodeChars
  split
  · simp at hpos
  · simp only [List.length_cons] at hlen
    omega
  · rfl

theorem encodeChars_head (chars : List Character) :
    ∃ c tail, encodeChars chars ++ [0] = c :: tail ∧ c ≠ padding := by
  have hplain : ∀ chunk, symbol chunk 0 ≠ padding :=
    fun chunk h => lookup_plain.2.1 (h ▸ symbol_mem chunk 0)
  match chars with
  | [] => exact ⟨0, [], rfl, by decide⟩
  | a :: b :: c :: d :: e :: rest => exact ⟨_, _, rfl, hplain _⟩
  | [a] | [a, b] | [a, b, c] | [a, b, c, d] => exact ⟨_, _, rfl, hplain _⟩

theorem decodeMemory_encodeChars (chars : List Character) :
    decodeMemory (encodeChars chars ++ [0]) = some chars := by
  induction chars using encodeChars.induct with
  | case1 => rw [encodeChars, List.nil_append, decodeMemory, if_pos rfl]
  | case2 a b c d e rest ih =>
    obtain ⟨next, tail, hnext, hne⟩ := encodeChars_head rest
    rw [encodeChars, List.append_assoc, hnext, decodeMemory_symbols [a, b, c, d, e] (by decide)
      (Nat.le_refl 5) (Nat.le_refl 8) (Nat.le_refl 40) (.inr ⟨rfl, hne, rfl⟩), ← hnext,
      List.drop_left' (by simp [symbols]), ih]
    rfl
  | case3 group hne hwhole =>
    have hpos : 0 < group.length := List.length_pos_iff.mpr fun h => hne h
    have hlen : group.length < 5 := by
      rcases group with _ | ⟨a, _ | ⟨b, _ | ⟨c, _ | ⟨d, _ | ⟨e, rest⟩⟩⟩⟩⟩
      all_goals first | exact absurd rfl (hwhole a b c d e rest) | simp
    obtain ⟨hlimit, hlt, hfit, hdec⟩ := enc_dec group.length hlen hpos
    have hcount : (symbols (packFrom 0 group) (enc.getD group.length 0)).length =
        enc.getD group.length 0 := by rw [symbols, List.length_map, List.length_range]
    have hpad : List.replicate (8 - enc.getD group.length 0) padding ++ [0] =
        padding :: (List.replicate (7 - enc.getD group.length 0) padding ++ [0]) := by
      rw [show 8 - enc.getD group.length 0 = 7 - enc.getD group.length 0 + 1 by omega,
        List.replicate_succ, List.cons_append]
    rw [encodeChars_part hpos hlen, List.append_assoc, hpad, decodeMemory_symbols group hlimit
      (Nat.le_of_lt hlen) (Nat.le_of_lt hlt) hfit (.inl ⟨hlt, rfl, hdec⟩), ← hpad,
      ← List.append_assoc, List.drop_left' (by rw [List.length_append, hcount, List.length_replicate]; omega), decodeMemory, if_pos rfl]
    simp

end

section

/-- A name is made of groups of eight characters, and no group without padding stands in front of
padding. -/
def Grouped (name : List Character) : Prop :=
  8 ∣ name.length ∧
    ∀ k, name[8 * (k + 1)]? = some padding → ∃ i < 8, name[8 * k + i]? = some padding

theorem scan_some {memory : List Character} (n i : Nat) (chunk : BitVec 64)
    (h : i + n < memory.length) :
    ∃ j chunk', scan memory n i chunk = some (j, chunk') ∧ j ≤ i + n ∧
      (j < i + n ∧ i ≤ j ∧ memory[j]? = some padding ∨
        j = i + n ∧ ∀ k, i ≤ k → k < i + n → memory[k]? ≠ some padding) := by
  induction n generalizing i chunk with
  | zero => exact ⟨i, chunk, rfl, Nat.le_refl _, .inr ⟨rfl, fun k _ _ => by omega⟩⟩
  | succ n ih =>
    rw [scan, List.getElem?_eq_getElem (show i < memory.length by omega)]
    by_cases hpad : memory[i] = padding
    · refine ⟨i, chunk, if_pos hpad, by omega, .inl ⟨by omega, Nat.le_refl i, ?_⟩⟩
      rw [List.getElem?_eq_getElem (by omega), hpad]
    · obtain ⟨j, chunk', hscan, hle, hcases⟩ := ih (i + 1)
        (chunk ||| (idx memory[i]).signExtend 64 <<< ((7 - i) * 5)) (by omega)
      refine ⟨j, chunk', (if_neg hpad).trans hscan, by omega, ?_⟩
      obtain ⟨hlt, hge, hat⟩ | ⟨hend, hnone⟩ := hcases
      · exact .inl ⟨by omega, by omega, hat⟩
      · refine .inr ⟨by omega, fun k hlo hhi => ?_⟩
        by_cases hk : k = i
        · subst hk
          simpa [List.getElem?_eq_getElem (show k < memory.length by omega)] using hpad
        · exact hnone k (by omega) (by omega)

theorem dec_isSome (n : Nat) (h : n < 8) : dec[n]?.isSome := by
  revert n
  decide

theorem decodeGroup_isSome (memory : List Character) (h : 8 < memory.length) :
    (decodeGroup memory).isSome ↔
      (memory[8]? = some padding → ∃ i < 8, memory[i]? = some padding) := by
  obtain ⟨j, chunk, hscan, hle, ⟨hlt, -, hat⟩ | ⟨rfl, hnone⟩⟩ :=
    scan_some 8 0 0 (show 0 + 8 < memory.length from by omega)
  · have hdec := dec_isSome j (by omega)
    simp only [decodeGroup, hscan, hat, if_true, Option.isSome_map, hdec, true_iff]
    exact fun _ => ⟨j, by omega, hat⟩
  · obtain ⟨c, hc⟩ : ∃ c, memory[0 + 8]? = some c := ⟨_, List.getElem?_eq_getElem (by omega)⟩
    simp only [decodeGroup, hscan, hc, Option.isSome_map]
    by_cases hpad : c = padding
    · subst hpad
      have hnever : ¬ ∃ i < 8, memory[i]? = some padding :=
        fun ⟨i, hi, hat⟩ => hnone i (Nat.zero_le i) (by omega) hat
      simp [dec, hnever]
    · simp only [hpad, if_false, Option.isSome_some, true_iff]
      exact fun h => absurd (Option.some.inj h) hpad

theorem grouped_drop {name : List Character} (h : 8 ≤ name.length) :
    Grouped name ↔
      (name[8]? = some padding → ∃ i < 8, name[i]? = some padding) ∧ Grouped (name.drop 8) := by
  unfold Grouped
  simp only [List.length_drop, List.getElem?_drop]
  constructor
  · intro ⟨hdvd, hpad⟩
    refine ⟨by simpa using hpad 0, by omega, fun k hk => ?_⟩
    obtain ⟨i, hi, hat⟩ := hpad (k + 1) (by rw [← hk]; congr 1; omega)
    exact ⟨i, hi, by rw [← hat]; congr 1; omega⟩
  · intro ⟨hfirst, hdvd, hrest⟩
    refine ⟨by omega, fun k hk => ?_⟩
    cases k with
    | zero => simpa using hfirst (by simpa using hk)
    | succ k =>
      obtain ⟨i, hi, hat⟩ := hrest k (by rw [← hk]; congr 1; omega)
      exact ⟨i, hi, by rw [← hat]; congr 1; omega⟩

theorem decodeMemory_isSome (name : List Character) (h : 0 ∉ name) :
    (decodeMemory (name ++ [0])).isSome ↔ Grouped name := by
  induction hn : name.length using Nat.strong_induction_on generalizing name with
  | _ n ih =>
    have hpadding : ∀ k : Nat, (name ++ [0])[k]? = some padding ↔ name[k]? = some padding := by
      intro k
      rw [List.getElem?_append]
      split
      · rfl
      · rw [List.getElem?_eq_none (show name.length ≤ k by omega)]
        cases k - name.length <;> simp [padding]
    cases name with
    | nil =>
      rw [List.nil_append, decodeMemory, if_pos rfl]
      simp [Grouped]
    | cons c rest =>
      have hne : c ≠ 0 := fun heq => h (heq ▸ List.mem_cons_self)
      rw [List.cons_append, decodeMemory_cons hne, ← List.drop_succ_cons, ← List.cons_append]
      by_cases hlong : 8 ≤ (c :: rest).length
      · have hdrop : ((c :: rest) ++ [0]).drop 8 = (c :: rest).drop 8 ++ [0] :=
          List.drop_append_of_le_length hlong
        have hrest := ih _ (show ((c :: rest).drop 8).length < n by rw [List.length_drop]; omega)
          ((c :: rest).drop 8) (fun hmem => h (List.mem_of_mem_drop hmem)) rfl
        have hgroup := decodeGroup_isSome ((c :: rest) ++ [0])
          (by rw [List.length_append, List.length_singleton]; omega)
        simp only [hpadding] at hgroup
        rw [grouped_drop hlong, ← hgroup, ← hrest, hdrop]
        cases decodeGroup (c :: rest ++ [0]) <;> simp
      · have hend : ((c :: rest) ++ [0]).drop 8 = [] :=
          List.drop_eq_nil_of_le (by rw [List.length_append, List.length_singleton]; omega)
        have hnot : ¬ Grouped (c :: rest) := fun hgrouped => by
          have := hgrouped.1
          rw [List.length_cons] at this hlong
          omega
        rw [hend, decodeMemory]
        simp [hnot]

end

theorem encodeChars_mem (chars : List Character) :
    ∀ c ∈ encodeChars chars, c ∈ lookup ∨ c = padding := by
  have hsymbols : ∀ chunk limit c, c ∈ symbols chunk limit → c ∈ lookup := by
    intro chunk limit c hc
    obtain ⟨i, -, rfl⟩ := List.mem_map.mp hc
    exact symbol_mem chunk i
  fun_induction encodeChars chars with
  | case1 => simp
  | case2 a b c d e rest ih =>
    intro x hx
    rcases List.mem_append.mp hx with hx | hx
    · exact .inl (hsymbols _ _ x hx)
    · exact ih x hx
  | case3 =>
    intro x hx
    rcases List.mem_append.mp hx with hx | hx
    · exact .inl (hsymbols _ _ x hx)
    · exact .inr (List.eq_of_mem_replicate hx)

def b32hEncode (decoded : CString) : CString where
  chars := encodeChars decoded.chars
  terminated := fun hmem => by
    rcases encodeChars_mem decoded.chars 0 hmem with hlookup | hpad
    · exact lookup_plain.1 hlookup
    · cases hpad

/-- Names that were encoded are decoded to what they were made from, and exactly the names that are
grouped can be decoded at all. -/
theorem file_names_decoded (name : CString) :
    (∀ s, b32hDecode (b32hEncode s) = some s.chars) ∧ Function.Injective b32hEncode ∧
      (∀ s, ∀ c ∈ (b32hEncode s).chars, (c ∈ lookup ∨ c = padding) ∧ c ≠ 0 ∧ c ≠ 0x2f) ∧
      ((b32hDecode name).isSome ↔ Grouped name.chars) := by
  have hround : ∀ s, b32hDecode (b32hEncode s) = some s.chars :=
    fun s => decodeMemory_encodeChars s.chars
  refine ⟨hround, fun s s' heq => ?_, fun s c hc => ?_, ?_⟩
  · have hchars := (hround s).symm.trans ((congrArg b32hDecode heq).trans (hround s'))
    cases s
    cases s'
    cases Option.some.inj hchars
    rfl
  · have hmem := encodeChars_mem s.chars c hc
    refine ⟨hmem, fun heq => (b32hEncode s).terminated (heq ▸ hc), fun heq => ?_⟩
    subst heq
    rcases hmem with hlookup | hpad
    · exact lookup_plain.2.2 hlookup
    · cases hpad
  · exact decodeMemory_isSome name.chars name.terminated

/-- The name `A` is left behind its end. -/
theorem single_character_undecodable : b32hDecode ⟨[0x41], by decide⟩ = none := by
  rw [← Option.not_isSome_iff_eq_none, b32hDecode, decodeMemory_isSome [0x41] (by decide)]
  exact fun h => absurd h.1 (by decide)

end OpenDDS.Guarantees.FileNames
