import Mathlib.Data.List.Basic

/-!
# LIKE on filter values

`Value::like` (dds/DCPS/FilterEvaluator.cpp). The pattern is rewritten for `ACE::wild_match`, which
is a parameter (its flags are constant). Of the members of the union only the string is read.
`find_first_of` that finds nothing returns `npos`, here the length of the string; the loops compare
with the length only.
-/
namespace OpenDDS.Source.FilterValue

/-- `Value::Type`. -/
inductive Kind where
  | bool
  | int
  | uint
  | i64
  | ui64
  | float
  | lngdub
  | char
  | string
  deriving DecidableEq

structure Value where
  type : Kind
  s : List Char

def findFirstOf (pattern set : List Char) (pos : Nat) : Nat :=
  pos + (pattern.drop pos).findIdx (· ∈ set)

/-- The loop that puts a backslash before each `?` and `*`; it makes at most `fuel` rounds. -/
def escapeLoop : Nat → List Char → Nat → List Char
  | 0, pattern, _ => pattern
  | fuel + 1, pattern, i =>
    if i < pattern.length then
      let escaped := pattern.take i ++ '\\' :: pattern.drop i
      let i := i + 1
      escapeLoop fuel escaped (findFirstOf escaped ['?', '*'] (i + 1))
    else pattern

/-- The loop that puts `?` for each `_` and `*` for each `%`. -/
def translateLoop : Nat → List Char → Nat → List Char
  | 0, pattern, _ => pattern
  | fuel + 1, pattern, i =>
    if i < pattern.length then
      let translated := pattern.set i (if pattern[i]? = some '_' then '?' else '*')
      translateLoop fuel translated (findFirstOf translated ['_', '%'] (i + 1))
    else pattern

def escape (pattern : List Char) : List Char :=
  escapeLoop (pattern.length + 1) pattern (findFirstOf pattern ['?', '*'] 0)

def translate (pattern : List Char) : List Char :=
  translateLoop (pattern.length + 1) pattern (findFirstOf pattern ['_', '%'] 0)

def like (wildMatch : List Char → List Char → Bool) (text pattern : Value) : Except String Bool :=
  if text.type ≠ .string ∨ pattern.type ≠ .string then
    .error "'like' operator called on non-string arguments."
  else
    .ok (wildMatch text.s (translate (escape pattern.s)))

def escapeChar (c : Char) : List Char :=
  if c ∈ ['?', '*'] then ['\\', c] else [c]

def translateChar (c : Char) : Char :=
  if c = '_' then '?' else if c = '%' then '*' else c

theorem findFirstOf_append (done rest set : List Char) :
    findFirstOf (done ++ rest) set done.length = done.length + rest.findIdx (· ∈ set) := by
  rw [findFirstOf, List.drop_left]

theorem findFirstOf_skip {set : List Char} {c : Char} (done rest : List Char) (h : c ∉ set) :
    findFirstOf (done ++ c :: rest) set done.length =
      findFirstOf ((done ++ [c]) ++ rest) set (done ++ [c]).length := by
  rw [findFirstOf_append, findFirstOf_append, List.findIdx_cons, List.length_append]
  simp only [h, decide_false, cond_false, List.length_singleton]
  omega

theorem findFirstOf_hit {set : List Char} {c : Char} (done rest : List Char) (h : c ∈ set) :
    findFirstOf (done ++ c :: rest) set done.length = done.length := by
  rw [findFirstOf_append, List.findIdx_cons]
  simp only [h, decide_true, cond_true, Nat.add_zero]

theorem findFirstOf_end (done set : List Char) :
    findFirstOf done set done.length = done.length := by
  rw [findFirstOf, List.drop_length, List.findIdx_nil, Nat.add_zero]

theorem escapeLoop_spec (rest : List Char) :
    ∀ (done : List Char) (fuel : Nat), rest.length < fuel →
      escapeLoop fuel (done ++ rest) (findFirstOf (done ++ rest) ['?', '*'] done.length) =
        done ++ rest.flatMap escapeChar := by
  induction rest with
  | nil =>
    intro done fuel hfuel
    rw [List.append_nil, findFirstOf_end, List.flatMap_nil, List.append_nil]
    cases fuel with
    | zero => rfl
    | succ fuel => rw [escapeLoop, if_neg (Nat.lt_irrefl _)]
  | cons c rest ih =>
    intro done fuel hfuel
    rw [List.length_cons] at hfuel
    by_cases hc : c ∈ ['?', '*']
    · obtain ⟨fuel, rfl⟩ : ∃ k, fuel = k + 1 := ⟨fuel - 1, by omega⟩
      have hinsert : (done ++ c :: rest).take done.length ++ '\\' :: (done ++ c :: rest).drop done.length =
          (done ++ ['\\', c]) ++ rest := by
        simp
      have hlength : done.length + 1 + 1 = (done ++ ['\\', c]).length := by simp
      have hchar : escapeChar c = ['\\', c] := if_pos hc
      rw [findFirstOf_hit done rest hc, escapeLoop, if_pos (by simp)]
      simp only
      rw [hinsert, hlength, ih (done ++ ['\\', c]) fuel (by omega), List.flatMap_cons, hchar,
        List.append_assoc]
    · have hchar : escapeChar c = [c] := if_neg hc
      rw [findFirstOf_skip done rest hc, List.append_cons done c rest,
        ih (done ++ [c]) fuel (by omega), List.flatMap_cons, hchar, List.append_assoc]

theorem translateLoop_spec (rest : List Char) :
    ∀ (done : List Char) (fuel : Nat), rest.length < fuel →
      translateLoop fuel (done ++ rest) (findFirstOf (done ++ rest) ['_', '%'] done.length) =
        done ++ rest.map translateChar := by
  induction rest with
  | nil =>
    intro done fuel hfuel
    rw [List.append_nil, findFirstOf_end, List.map_nil, List.append_nil]
    cases fuel with
    | zero => rfl
    | succ fuel => rw [translateLoop, if_neg (Nat.lt_irrefl _)]
  | cons c rest ih =>
    intro done fuel hfuel
    rw [List.length_cons] at hfuel
    by_cases hc : c ∈ ['_', '%']
    · obtain ⟨fuel, rfl⟩ : ∃ k, fuel = k + 1 := ⟨fuel - 1, by omega⟩
      have hget : (done ++ c :: rest)[done.length]? = some c := by simp
      have hchar : (if some c = some '_' then '?' else '*') = translateChar c := by
        rcases List.mem_pair.mp hc with rfl | rfl <;> rfl
      have hset : (done ++ c :: rest).set done.length (translateChar c) =
          (done ++ [translateChar c]) ++ rest := by
        simp
      have hlength : done.length + 1 = (done ++ [translateChar c]).length := by simp
      rw [findFirstOf_hit done rest hc, translateLoop, if_pos (by simp)]
      rw [hget, hchar, hset, hlength, ih (done ++ [translateChar c]) fuel (by omega), List.map_cons,
        List.append_assoc]
      rfl
    · have hchar : translateChar c = c := by
        simp only [List.mem_cons, List.not_mem_nil, or_false, not_or] at hc
        rw [translateChar, if_neg hc.1, if_neg hc.2]
      rw [findFirstOf_skip done rest hc, List.append_cons done c rest,
        ih (done ++ [c]) fuel (by omega), List.map_cons, hchar, List.append_assoc]
      rfl

theorem escape_eq (pattern : List Char) : escape pattern = pattern.flatMap escapeChar :=
  escapeLoop_spec pattern [] (pattern.length + 1) (Nat.lt_succ_self _)

theorem translate_eq (pattern : List Char) : translate pattern = pattern.map translateChar :=
  translateLoop_spec pattern [] (pattern.length + 1) (Nat.lt_succ_self _)

end OpenDDS.Source.FilterValue
