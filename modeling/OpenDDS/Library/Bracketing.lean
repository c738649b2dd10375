import Mathlib.Data.List.Basic

/-!
# Combining a list of pieces in any order

A binary operation that may fail, applied to the elements of a list until one is left. Only
neighbours are combined, so a way of doing this is a tree whose leaves are the list. What the
operation keeps of two neighbouring parts is kept in every way.
-/
namespace OpenDDS.Library

inductive Bracketing (α : Type) where
  | piece (a : α)
  | both (left right : Bracketing α)

namespace Bracketing

variable {α : Type}

def pieces : Bracketing α → List α
  | piece a => [a]
  | both left right => left.pieces ++ right.pieces

/-- The result of the operation, which fails if it fails on two parts. -/
def combine (op : α → α → Option α) : Bracketing α → Option α
  | piece a => some a
  | both left right =>
    match left.combine op, right.combine op with
    | some a, some b => op a b
    | _, _ => none

theorem pieces_ne_nil (tree : Bracketing α) : tree.pieces ≠ [] := by
  induction tree with
  | piece a => exact List.cons_ne_nil a []
  | both left right ihl _ => exact List.append_ne_nil_of_left_ne_nil ihl _

/-- `Result xs a` says that `a` is what the pieces `xs` amount to; `Valid` of a list holds of
both its parts. -/
theorem combine_spec {op : α → α → Option α} {Valid : List α → Prop} {Result : List α → α → Prop}
    (parts : ∀ xs ys, ys ≠ [] → Valid (xs ++ ys) → Valid xs ∧ Valid ys)
    (single : ∀ a, Valid [a] → Result [a] a)
    (join : ∀ xs ys a b, xs ≠ [] → ys ≠ [] → Valid (xs ++ ys) → Result xs a → Result ys b →
      ∃ c, op a b = some c ∧ Result (xs ++ ys) c)
    (tree : Bracketing α) (h : Valid tree.pieces) :
    ∃ c, tree.combine op = some c ∧ Result tree.pieces c := by
  induction tree with
  | piece a => exact ⟨a, rfl, single a h⟩
  | both left right ihl ihr =>
    obtain ⟨hleft, hright⟩ := parts _ _ right.pieces_ne_nil h
    obtain ⟨a, ha, hresult⟩ := ihl hleft
    obtain ⟨b, hb, hresult'⟩ := ihr hright
    obtain ⟨c, hc, hjoined⟩ := join _ _ a b left.pieces_ne_nil right.pieces_ne_nil h hresult hresult'
    refine ⟨c, ?_, hjoined⟩
    simp only [combine, ha, hb, hc]

end Bracketing

end OpenDDS.Library
