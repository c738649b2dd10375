import Mathlib.Data.List.Forall2
import Mathlib.Data.List.Infix
import Mathlib.Data.List.TakeWhile

/-!
# Wildcard patterns

A pattern is a list of pieces: any string, or one character from some set. The shortest texts a
pattern accepts are those that satisfy its sets one by one, so two patterns that accept the same
texts list the same sets. The second half reads the usual notation: `*`, `?`, a class in
brackets and a backslash escape.
-/
namespace OpenDDS.Library.Wildcard

inductive Piece (α : Type) where
  | many
  | one (set : α → Bool)

variable {α : Type}

def accepts : List (Piece α) → List α → Bool
  | [], text => text.isEmpty
  | .many :: pieces, text => text.tails.any (accepts pieces)
  | .one _ :: _, [] => false
  | .one set :: pieces, c :: text => set c && accepts pieces text

/-- The sets of a pattern, from left to right. -/
def sets : List (Piece α) → List (α → Bool)
  | [] => []
  | .many :: pieces => sets pieces
  | .one set :: pieces => set :: sets pieces

attribute [grind =] accepts sets

theorem sets_append (first second : List (Piece α)) :
    sets (first ++ second) = sets first ++ sets second := by
  induction first with
  | nil => rfl
  | cons piece first ih =>
    cases piece with
    | many => exact ih
    | one set => exact congrArg (set :: ·) ih

/-- Each character of the text is in its set. -/
def Fits (sets : List (α → Bool)) (text : List α) : Prop :=
  List.Forall₂ (fun set c => set c = true) sets text

theorem accepts_many {pieces : List (Piece α)} {text : List α} :
    accepts (.many :: pieces) text = true ↔ ∃ rest, rest <:+ text ∧ accepts pieces rest = true := by
  simp only [accepts, List.any_eq_true, List.mem_tails]

theorem accepts_of_fits {pieces : List (Piece α)} {text : List α} (h : Fits (sets pieces) text) :
    accepts pieces text = true := by
  induction pieces generalizing text with
  | nil =>
    cases h
    rfl
  | cons piece pieces ih =>
    cases piece with
    | many => exact accepts_many.mpr ⟨text, List.suffix_rfl, ih h⟩
    | one set =>
      cases h with
      | cons hc hrest => simp only [accepts, hc, ih hrest, Bool.and_self]

theorem length_sets_le {pieces : List (Piece α)} {text : List α}
    (h : accepts pieces text = true) : (sets pieces).length ≤ text.length := by
  induction pieces generalizing text with
  | nil => exact Nat.zero_le _
  | cons piece pieces ih =>
    cases piece with
    | many =>
      obtain ⟨rest, hsuffix, hrest⟩ := accepts_many.mp h
      exact Nat.le_trans (ih hrest) hsuffix.length_le
    | one set =>
      cases text with
      | nil => cases h
      | cons c text =>
        rw [accepts, Bool.and_eq_true] at h
        exact Nat.succ_le_succ (ih h.2)

theorem sets_inhabited {pieces : List (Piece α)} {text : List α}
    (h : accepts pieces text = true) : ∀ set ∈ sets pieces, ∃ c, set c = true := by
  induction pieces generalizing text with
  | nil => exact fun _ hset => absurd hset List.not_mem_nil
  | cons piece pieces ih =>
    cases piece with
    | many =>
      obtain ⟨rest, _, hrest⟩ := accepts_many.mp h
      exact ih hrest
    | one set =>
      cases text with
      | nil => cases h
      | cons c text =>
        rw [accepts, Bool.and_eq_true] at h
        intro other hother
        rcases List.mem_cons.mp hother with rfl | hother
        · exact ⟨c, h.1⟩
        · exact ih h.2 other hother

/-- A text as short as a pattern allows leaves nothing to the `many` pieces. -/
theorem fits_of_accepts {pieces : List (Piece α)} {text : List α}
    (h : accepts pieces text = true) (hlength : text.length = (sets pieces).length) :
    Fits (sets pieces) text := by
  induction pieces generalizing text with
  | nil =>
    rw [List.eq_nil_of_length_eq_zero hlength]
    exact List.Forall₂.nil
  | cons piece pieces ih =>
    cases piece with
    | many =>
      obtain ⟨rest, hsuffix, hrest⟩ := accepts_many.mp h
      rw [sets] at hlength
      have hle : text.length ≤ rest.length := hlength ▸ length_sets_le hrest
      obtain rfl := hsuffix.eq_of_length_le hle
      exact ih hrest hlength
    | one set =>
      cases text with
      | nil => cases h
      | cons c text =>
        rw [accepts, Bool.and_eq_true] at h
        exact List.Forall₂.cons h.1 (ih h.2 (Nat.succ.inj hlength))

theorem exists_fits {sets : List (α → Bool)} (h : ∀ set ∈ sets, ∃ c, set c = true) :
    ∃ text, Fits sets text := by
  induction sets with
  | nil => exact ⟨[], List.Forall₂.nil⟩
  | cons set sets ih =>
    obtain ⟨c, hc⟩ := h set List.mem_cons_self
    obtain ⟨text, htext⟩ := ih fun other hother => h other (List.mem_cons_of_mem _ hother)
    exact ⟨c :: text, List.Forall₂.cons hc htext⟩

theorem eq_of_fits {first second : List (α → Bool)} (hsome : ∃ text, Fits first text)
    (h : ∀ text, Fits first text ↔ Fits second text) : first = second := by
  induction first generalizing second with
  | nil =>
    cases (h []).mp List.Forall₂.nil
    rfl
  | cons set first ih =>
    obtain ⟨text, htext⟩ := hsome
    cases htext with
    | @cons _ c _ text hc hrest =>
      cases (h (c :: text)).mp (List.Forall₂.cons hc hrest) with
      | @cons other _ second _ hc' hrest' =>
        have hset : set = other := by
          funext d
          have hd := h (d :: text)
          simp only [Fits, List.forall₂_cons, hrest, hrest', and_true] at hd
          exact Bool.eq_iff_iff.mpr hd
        have htail : first = second := by
          apply ih ⟨text, hrest⟩
          intro rest
          have hd := h (c :: rest)
          simp only [Fits, List.forall₂_cons, hc, hc', true_and] at hd
          exact hd
        rw [hset, htail]

theorem sets_eq_of_accepts {first second : List (Piece α)}
    (hsome : ∀ set ∈ sets first, ∃ c, set c = true)
    (h : ∀ text, accepts first text = accepts second text) : sets first = sets second := by
  obtain ⟨text, htext⟩ := exists_fits hsome
  have hlength : (sets first).length = (sets second).length := by
    apply Nat.le_antisymm
    · obtain ⟨short, hshort⟩ :=
        exists_fits (sets_inhabited (h text ▸ accepts_of_fits htext))
      rw [List.Forall₂.length_eq hshort]
      exact length_sets_le ((h short).trans (accepts_of_fits hshort))
    · rw [List.Forall₂.length_eq htext]
      exact length_sets_le ((h text) ▸ accepts_of_fits htext)
  apply eq_of_fits ⟨text, htext⟩
  intro other
  constructor
  · intro hother
    exact fits_of_accepts ((h other) ▸ accepts_of_fits hother)
      (hlength ▸ (List.Forall₂.length_eq hother).symm)
  · intro hother
    exact fits_of_accepts ((h other).trans (accepts_of_fits hother))
      (hlength ▸ (List.Forall₂.length_eq hother).symm)

/-- How the text after an opening bracket is read as a class: the characters it stands for and
what follows its closing bracket. -/
structure ClassSyntax where
  read : List Char → Option ((Char → Bool) × List Char)
  closed : ∀ {text set rest}, read text = some (set, rest) → ∃ body, text = body ++ ']' :: rest

def literal (c : Char) : Piece Char :=
  .one (· == c)

def anyOne : Piece Char :=
  .one fun _ => true

/-- A pattern with an escape or a class that does not end has no pieces. -/
def pieces (classes : ClassSyntax) : List Char → Option (List (Piece Char))
  | [] => some []
  | '*' :: pattern => (pieces classes pattern).map (.many :: ·)
  | '?' :: pattern => (pieces classes pattern).map (anyOne :: ·)
  | ['\\'] => none
  | '\\' :: c :: pattern => (pieces classes pattern).map (literal c :: ·)
  | '[' :: text =>
    match _hread : classes.read text with
    | some (set, rest) => (pieces classes rest).map (.one set :: ·)
    | none => none
  | c :: pattern => (pieces classes pattern).map (literal c :: ·)
termination_by pattern => pattern.length
decreasing_by
  all_goals simp only [List.length_cons]
  all_goals first
    | omega
    | (obtain ⟨body, hbody⟩ := classes.closed _hread
       simp only [hbody, List.length_append, List.length_cons]
       omega)

attribute [grind =] pieces

section

variable (classes : ClassSyntax) (rest : List Char)

theorem pieces_nil : pieces classes [] = some [] := by rw [pieces]

theorem pieces_star : pieces classes ('*' :: rest) = (pieces classes rest).map (.many :: ·) := by
  rw [pieces]

theorem pieces_any : pieces classes ('?' :: rest) = (pieces classes rest).map (anyOne :: ·) := by
  rw [pieces]

theorem pieces_dangling : pieces classes ['\\'] = none := by rw [pieces]

theorem pieces_escape (c : Char) :
    pieces classes ('\\' :: c :: rest) = (pieces classes rest).map (literal c :: ·) := by
  rw [pieces]

theorem pieces_literal {c : Char} (hstar : c ≠ '*') (hany : c ≠ '?') (hescape : c ≠ '\\')
    (hclass : c ≠ '[') : pieces classes (c :: rest) = (pieces classes rest).map (literal c :: ·) := by
  rw [pieces]
  all_goals simp_all

variable {classes} {rest} in
theorem pieces_class {text : List Char} {set : Char → Bool}
    (h : classes.read text = some (set, rest)) :
    pieces classes ('[' :: text) = (pieces classes rest).map (.one set :: ·) := by
  rw [pieces]
  split
  next _ _ hread =>
    rw [h] at hread
    cases hread
    rfl
  next hread =>
    rw [h] at hread
    cases hread

variable {classes} in
theorem read_of_pieces {text : List Char} {list : List (Piece Char)}
    (h : pieces classes ('[' :: text) = some list) :
    ∃ set rest, classes.read text = some (set, rest) := by
  rw [pieces] at h
  split at h
  next set rest hread => exact ⟨set, rest, hread⟩
  next => cases h

end

def wildMatch (classes : ClassSyntax) (text pattern : List Char) : Bool :=
  match pieces classes pattern with
  | some list => accepts list text
  | none => false

/-- A class lists its characters up to the next closing bracket. -/
def plainClasses : ClassSyntax where
  read := fun text =>
    if ']' ∈ text then
      some ((text.takeWhile (· != ']')).contains, (text.dropWhile (· != ']')).tail)
    else
      none
  closed := by
    intro text set rest h
    split at h
    next hmem =>
      cases h
      refine ⟨text.takeWhile (· != ']'), ?_⟩
      cases hdrop : text.dropWhile (· != ']') with
      | nil =>
        have hall := List.dropWhile_eq_nil_iff.mp hdrop ']' hmem
        exact absurd hall (by decide)
      | cons c rest =>
        have hc : c = ']' := by
          have hhead := List.head_dropWhile_not (· != ']') (w := by rw [hdrop]; exact List.cons_ne_nil _ _)
          simpa [hdrop] using hhead
        have hsplit := List.takeWhile_append_dropWhile (p := (· != ']')) (l := text)
        rw [hdrop, hc] at hsplit
        exact hsplit.symm
    next => cases h

end OpenDDS.Library.Wildcard
