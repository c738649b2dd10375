import Mathlib.Data.List.Basic

/-!
# Chains of buffers

A sequence of items stored in a chain of blocks, each with the address of its first
item. `consume` moves past a number of items the way a cursor does that leaves a block
as soon as its last item is used: it may stop in front of an empty block, and it ends
with nothing left when the last item of the last block is used. Splitting one sequence
into blocks differently changes neither the items passed nor those that remain.
-/
namespace OpenDDS.Library.Chain

structure Block (α : Type) where
  address : Nat
  items : List α

variable {α : Type}

/-- The block without its first `n` items. -/
def Block.drop (b : Block α) (n : Nat) : Block α := ⟨b.address + n, b.items.drop n⟩

/-- The items of a chain, in order. -/
def contents (chain : List (Block α)) : List α := chain.flatMap Block.items

def consume : Nat → List (Block α) → List (Block α)
  | _, [] => []
  | n, b :: rest =>
    if n = 0 then b :: rest
    else if n < b.items.length then b.drop n :: rest
    else consume (n - b.items.length) rest

attribute [grind =] consume

@[simp] theorem contents_nil : contents ([] : List (Block α)) = [] := rfl

@[simp] theorem contents_cons (b : Block α) (rest : List (Block α)) :
    contents (b :: rest) = b.items ++ contents rest := by simp [contents]

@[simp] theorem consume_nil (n : Nat) : consume n ([] : List (Block α)) = [] := rfl

@[simp] theorem consume_zero (chain : List (Block α)) : consume 0 chain = chain := by
  cases chain <;> simp [consume]

variable {n : Nat} {rest : List (Block α)}

theorem consume_of_lt {b : Block α} (hpos : 0 < n) (h : n < b.items.length) :
    consume n (b :: rest) = b.drop n :: rest := by
  simp [consume, h, Nat.pos_iff_ne_zero.mp hpos]

theorem consume_of_le {b : Block α} (hpos : 0 < n) (h : b.items.length ≤ n) :
    consume n (b :: rest) = consume (n - b.items.length) rest := by
  simp [consume, Nat.not_lt.mpr h, Nat.pos_iff_ne_zero.mp hpos]

@[simp] theorem contents_consume (n : Nat) (chain : List (Block α)) :
    contents (consume n chain) = (contents chain).drop n := by
  induction chain generalizing n with
  | nil => simp
  | cons b rest ih =>
    rcases Nat.eq_zero_or_pos n with rfl | hpos
    · simp
    · by_cases h : n < b.items.length
      · rw [consume_of_lt hpos h, contents_cons, contents_cons, Block.drop,
          List.drop_append_of_le_length (by omega)]
      · have hspent : b.items.drop n = [] := List.drop_eq_nil_of_le (by omega)
        rw [consume_of_le hpos (by omega), ih, contents_cons, List.drop_append, hspent,
          List.nil_append]

theorem consume_consume (n m : Nat) (chain : List (Block α)) :
    consume m (consume n chain) = consume (n + m) chain := by
  induction chain generalizing n with
  | nil => simp
  | cons b rest ih =>
    rcases Nat.eq_zero_or_pos n with rfl | hpos
    · simp
    · rcases Nat.eq_zero_or_pos m with rfl | hm
      · simp
      · by_cases h : n < b.items.length
        · rw [consume_of_lt hpos h]
          by_cases h' : n + m < b.items.length
          · have hdrop : m < (b.drop n).items.length := by simp [Block.drop]; omega
            rw [consume_of_lt hm hdrop, consume_of_lt (by omega) h']
            simp [Block.drop, Nat.add_assoc]
          · have hdrop : (b.drop n).items.length ≤ m := by simp [Block.drop]; omega
            rw [consume_of_le hm hdrop, consume_of_le (by omega) (by omega)]
            congr 1
            simp [Block.drop]
            omega
        · rw [consume_of_le hpos (by omega), ih, consume_of_le (by omega) (by omega)]
          congr 1
          omega

/-- No empty block stands at the end of the chain. -/
def Full (chain : List (Block α)) : Prop := ∀ b ∈ chain.getLast?, b.items ≠ []

variable {chain : List (Block α)}

/-- Nothing is left of a chain exactly when its last item is used and no empty block
follows it. -/
theorem consume_eq_nil_iff (h : n ≤ (contents chain).length) :
    consume n chain = [] ↔ n = (contents chain).length ∧ Full chain := by
  induction chain generalizing n with
  | nil => simpa [Full] using h
  | cons b rest ih =>
    simp only [contents_cons, List.length_append] at h ⊢
    have hfull : rest ≠ [] → (Full (b :: rest) ↔ Full rest) := by
      intro hne
      simp [Full, List.getLast?_cons_of_ne_nil hne]
    rcases Nat.eq_zero_or_pos n with rfl | hpos
    · simp only [consume_zero, reduceCtorEq, false_iff, not_and]
      intro hzero hf
      rcases rest.eq_nil_or_concat with rfl | ⟨front, last, rfl⟩
      · exact hf b (by simp) (List.length_eq_zero_iff.mp (by omega))
      · apply hf last (by simp [List.getLast?_cons])
        simp [contents] at hzero
        exact List.length_eq_zero_iff.mp (by omega)
    · by_cases hlt : n < b.items.length
      · simp only [consume_of_lt hpos hlt, reduceCtorEq, false_iff, not_and]
        omega
      · rw [consume_of_le hpos (by omega), ih (by omega)]
        rcases eq_or_ne rest [] with rfl | hne
        · have hb : b.items ≠ [] := by
            intro hnil
            simp [hnil] at h
            omega
          simp [Full, hb]
          omega
        · rw [hfull hne]
          constructor
          · rintro ⟨h₁, h₂⟩
            exact ⟨by omega, h₂⟩
          · rintro ⟨h₁, h₂⟩
            exact ⟨by omega, h₂⟩

theorem consume_of_length_lt (h : (contents chain).length < n) : consume n chain = [] := by
  induction chain generalizing n with
  | nil => simp
  | cons b rest ih =>
    simp only [contents_cons, List.length_append] at h
    rw [consume_of_le (by omega) (by omega)]
    exact ih (by omega)

end OpenDDS.Library.Chain
