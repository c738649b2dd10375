import OpenDDS.Library.Wildcard
import OpenDDS.Source.FilterValue

/-!
# The meaning of LIKE

`Value::like` rewrites a pattern of `%` and `_` into one of `*` and `?`. It escapes the `*` and `?`
that the pattern has, but neither its backslashes nor its opening brackets, and these two are special
to `ACE::wild_match` as well. What `wild_match` does with an escape or a class that does not end is
left open.
-/
namespace OpenDDS.Guarantees.LikeMeaning

open Library.Wildcard Source.FilterValue

/-- `*`, `?`, classes and backslash escapes are special, every other character stands for itself. -/
def Conforms (classes : ClassSyntax) (wildMatch : List Char → List Char → Bool) : Prop :=
  ∀ text pattern list, pieces classes pattern = some list →
    wildMatch text pattern = accepts list text

def sqlPiece (c : Char) : Piece Char :=
  if c = '%' then .many else if c = '_' then anyOne else literal c

/-- `%` stands for any string, `_` for any one character, every other character for itself. -/
def sqlMatches (text pattern : List Char) : Bool :=
  accepts (pattern.map sqlPiece) text

def string (s : List Char) : Value := ⟨.string, s⟩

/-- What is handed to `wild_match`. -/
def rewritten (pattern : List Char) : List Char :=
  pattern.flatMap fun c => (escapeChar c).map translateChar

variable {classes : ClassSyntax} {pattern : List Char} {list : List (Piece Char)}

theorem like_string (wildMatch : List Char → List Char → Bool) (text pattern : List Char) :
    like wildMatch (string text) (string pattern) = .ok (wildMatch text (rewritten pattern)) := by
  have hrewritten : translate (escape pattern) = rewritten pattern := by
    rw [translate_eq, escape_eq, rewritten, List.map_flatMap]
  simp [like, string, hrewritten]

def escapedPieces (c : Char) : List (Piece Char) :=
  if c = '?' then [literal '\\', anyOne]
  else if c = '*' then [literal '\\', .many]
  else [literal (translateChar c)]

/-- A character is read as SQL reads it, but a backslash takes the next character with it and a
bracket what follows up to a closing one. -/
inductive Reading : List Char → List (Piece Char) → Prop where
  | done : Reading [] []
  | same {c pattern list} : c ≠ '\\' → c ≠ '[' → Reading pattern list →
      Reading (c :: pattern) (sqlPiece c :: list)
  | escaped {c pattern list} : Reading pattern list →
      Reading ('\\' :: c :: pattern) (escapedPieces c ++ list)
  | bracketed {set body pattern list} : Reading pattern list →
      Reading ('[' :: (body ++ ']' :: pattern)) (.one set :: list)

theorem rewritten_cons (c : Char) (pattern : List Char) :
    rewritten (c :: pattern) = (escapeChar c).map translateChar ++ rewritten pattern :=
  List.flatMap_cons

theorem pieces_same {c : Char} (rest : List Char) (hescape : c ≠ '\\') (hclass : c ≠ '[') :
    pieces classes ((escapeChar c).map translateChar ++ rest) =
      (pieces classes rest).map (sqlPiece c :: ·) := by
  by_cases hstar : c = '*'
  · subst hstar
    exact pieces_escape classes rest '*'
  by_cases hany : c = '?'
  · subst hany
    exact pieces_escape classes rest '?'
  by_cases hmany : c = '%'
  · subst hmany
    exact pieces_star classes rest
  by_cases hone : c = '_'
  · subst hone
    exact pieces_any classes rest
  have hblock : (escapeChar c).map translateChar = [c] := by
    simp [escapeChar, translateChar, hstar, hany, hmany, hone]
  have hpiece : sqlPiece c = literal c := by
    rw [sqlPiece, if_neg hmany, if_neg hone]
  rw [hblock, hpiece, List.singleton_append, pieces_literal classes rest hstar hany hescape hclass]

/-- The character after a backslash loses its meaning, and an inserted backslash loses its own. -/
theorem pieces_escaped (c : Char) (rest : List Char) :
    pieces classes ('\\' :: ((escapeChar c).map translateChar ++ rest)) =
      (pieces classes rest).map (escapedPieces c ++ ·) := by
  by_cases hany : c = '?'
  · subst hany
    calc
      pieces classes ('\\' :: '\\' :: '?' :: rest) =
          (pieces classes ('?' :: rest)).map (literal '\\' :: ·) := pieces_escape classes _ _
      _ = (pieces classes rest).map (escapedPieces '?' ++ ·) := by
        rw [pieces_any, Option.map_map]
        rfl
  by_cases hstar : c = '*'
  · subst hstar
    calc
      pieces classes ('\\' :: '\\' :: '*' :: rest) =
          (pieces classes ('*' :: rest)).map (literal '\\' :: ·) := pieces_escape classes _ _
      _ = (pieces classes rest).map (escapedPieces '*' ++ ·) := by
        rw [pieces_star, Option.map_map]
        rfl
  have hblock : (escapeChar c).map translateChar = [translateChar c] := by
    simp [escapeChar, hany, hstar]
  have hpieces : escapedPieces c = [literal (translateChar c)] := by
    rw [escapedPieces, if_neg hany, if_neg hstar]
  rw [hblock, hpieces, List.singleton_append, pieces_escape]
  rfl

theorem bracket_mem_block {c : Char} (h : ']' ∈ (escapeChar c).map translateChar) : c = ']' := by
  have hchar : ∀ d : Char, translateChar d = ']' → d = ']' := by
    intro d hd
    unfold translateChar at hd
    split at hd
    next => cases hd
    next =>
      split at hd
      next => cases hd
      next => exact hd
  obtain ⟨d, hd, htranslated⟩ := List.mem_map.mp h
  obtain rfl := hchar d htranslated
  unfold escapeChar at hd
  split at hd
  next hc =>
    rcases List.mem_pair.mp hd with hd | hd
    · cases hd
    · exact hd.symm
  next => exact (List.mem_singleton.mp hd).symm

theorem rewritten_split (body : List Char) {rest : List Char}
    (h : rewritten pattern = body ++ ']' :: rest) :
    ∃ before after, pattern = before ++ ']' :: after ∧ rest = rewritten after := by
  induction pattern generalizing body with
  | nil => exact absurd h.symm (List.append_ne_nil_of_right_ne_nil _ (List.cons_ne_nil _ _))
  | cons c pattern ih =>
    rw [rewritten_cons] at h
    rcases List.append_eq_append_iff.mp h with ⟨middle, hbody, hpattern⟩ | ⟨middle, hblock, hrest⟩
    · obtain ⟨before, after, rfl, hafter⟩ := ih _ hpattern
      exact ⟨c :: before, after, rfl, hafter⟩
    · cases middle with
      | nil =>
        obtain ⟨before, after, rfl, hafter⟩ := ih [] hrest.symm
        exact ⟨c :: before, after, rfl, hafter⟩
      | cons d middle =>
        obtain ⟨rfl, hmiddle⟩ := List.cons.inj hrest
        obtain rfl : c = ']' := bracket_mem_block (hblock ▸ List.mem_append_right _ List.mem_cons_self)
        have hlength := congrArg List.length hblock
        have hshort : ((escapeChar ']').map translateChar).length = 1 := by decide
        rw [hshort, List.length_append, List.length_cons] at hlength
        obtain rfl : middle = [] := List.eq_nil_of_length_eq_zero (by omega)
        exact ⟨[], pattern, rfl, hmiddle⟩

theorem reading_of_pieces (h : pieces classes (rewritten pattern) = some list) :
    Reading pattern list := by
  induction hn : pattern.length using Nat.strongRecOn generalizing pattern list with
  | ind n ih =>
    subst hn
    cases pattern with
    | nil =>
      rw [rewritten, List.flatMap_nil, pieces_nil] at h
      cases h
      exact .done
    | cons c pattern =>
      rw [rewritten_cons] at h
      by_cases hescape : c = '\\'
      · subst hescape
        cases pattern with
        | nil =>
          have hnone : none = some list := (pieces_dangling classes).symm.trans h
          cases hnone
        | cons d pattern =>
          obtain ⟨tail, htail, rfl⟩ :=
            Option.map_eq_some_iff.mp ((pieces_escaped d (rewritten pattern)).symm.trans h)
          exact .escaped (ih _ (Nat.lt_succ_of_lt (Nat.lt_succ_self _)) htail rfl)
      by_cases hclass : c = '['
      · subst hclass
        obtain ⟨set, rest, hread⟩ := read_of_pieces h
        obtain ⟨tail, htail, rfl⟩ := Option.map_eq_some_iff.mp ((pieces_class hread).symm.trans h)
        obtain ⟨body, hbody⟩ := classes.closed hread
        obtain ⟨before, after, rfl, rfl⟩ := rewritten_split _ hbody
        exact .bracketed (ih _ (by simp; omega) htail rfl)
      · rw [pieces_same _ hescape hclass] at h
        obtain ⟨tail, htail, rfl⟩ := Option.map_eq_some_iff.mp h
        exact .same hescape hclass (ih _ (Nat.lt_succ_self _) htail rfl)

theorem pieces_neutral (hescape : '\\' ∉ pattern) (hclass : '[' ∉ pattern) :
    pieces classes (rewritten pattern) = some (pattern.map sqlPiece) := by
  induction pattern with
  | nil => exact pieces_nil classes
  | cons c pattern ih =>
    rw [List.mem_cons, not_or] at hescape hclass
    rw [rewritten_cons, pieces_same _ (Ne.symm hescape.1) (Ne.symm hclass.1), ih hescape.2 hclass.2]
    rfl

theorem sets_cons (piece : Piece Char) (list : List (Piece Char)) :
    sets (piece :: list) = sets [piece] ++ sets list :=
  sets_append [piece] list

theorem sets_map_cons (c : Char) (pattern : List Char) :
    sets ((c :: pattern).map sqlPiece) = sets [sqlPiece c] ++ sets (pattern.map sqlPiece) :=
  sets_cons _ _

theorem sets_sqlPiece_ne {c : Char} (hmany : c ≠ '%') : (sets [sqlPiece c]).length = 1 := by
  rw [sqlPiece, if_neg hmany]
  split <;> rfl

theorem length_escapedPieces_le (c : Char) :
    (sets (escapedPieces c)).length ≤ 1 + (sets [sqlPiece c]).length := by
  by_cases hany : c = '?'
  · subst hany
    decide
  by_cases hstar : c = '*'
  · subst hstar
    decide
  rw [escapedPieces, if_neg hany, if_neg hstar]
  exact Nat.le_add_right 1 _

theorem length_sets_bracketed (body pattern : List Char) :
    2 + (sets (pattern.map sqlPiece)).length ≤
      (sets (('[' :: (body ++ ']' :: pattern)).map sqlPiece)).length := by
  rw [sets_map_cons, List.map_append, sets_append, sets_map_cons]
  simp only [List.length_append, sets_sqlPiece_ne (show '[' ≠ '%' by decide),
    sets_sqlPiece_ne (show ']' ≠ '%' by decide)]
  omega

theorem Reading.length_le (h : Reading pattern list) :
    (sets list).length ≤ (sets (pattern.map sqlPiece)).length := by
  induction h with
  | done => exact Nat.le_refl _
  | @same c pattern list _ _ _ ih =>
    rw [sets_cons, sets_map_cons, List.length_append, List.length_append]
    exact Nat.add_le_add_left ih _
  | @escaped c pattern list _ ih =>
    have hescaped := length_escapedPieces_le c
    rw [sets_append, sets_map_cons, sets_map_cons]
    simp only [List.length_append, sets_sqlPiece_ne (show '\\' ≠ '%' by decide)]
    omega
  | @bracketed set body pattern list _ ih =>
    have hbracketed := length_sets_bracketed body pattern
    rw [sets, List.length_cons]
    omega

theorem sets_escaped_ne {c : Char} (h : Reading pattern list) :
    sets (escapedPieces c ++ list) ≠ sets (('\\' :: c :: pattern).map sqlPiece) := by
  have hle := h.length_le
  rw [sets_append, sets_map_cons, sets_map_cons]
  intro heq
  by_cases hany : c = '?'
  · subst hany
    have hset := (List.cons.inj (List.cons.inj heq).2).1
    exact absurd (congrFun hset 'a') (by decide)
  by_cases hmany : c = '%'
  · subst hmany
    exact absurd (congrFun (List.cons.inj heq).1 '*') (by decide)
  have hlength := congrArg List.length heq
  have hone : (sets (escapedPieces c)).length = 1 := by
    by_cases hstar : c = '*'
    · subst hstar
      rfl
    · rw [escapedPieces, if_neg hany, if_neg hstar]
      rfl
  simp only [List.length_append, hone, sets_sqlPiece_ne hmany,
    sets_sqlPiece_ne (show '\\' ≠ '%' by decide)] at hlength
  omega

theorem Reading.neutral (h : Reading pattern list)
    (heq : sets list = sets (pattern.map sqlPiece)) : '\\' ∉ pattern ∧ '[' ∉ pattern := by
  induction h with
  | done => exact ⟨List.not_mem_nil, List.not_mem_nil⟩
  | @same c pattern list hescape hclass _ ih =>
    rw [sets_cons, sets_map_cons] at heq
    obtain ⟨hpattern, hpattern'⟩ := ih (List.append_cancel_left heq)
    simp only [List.mem_cons, not_or]
    exact ⟨⟨Ne.symm hescape, hpattern⟩, ⟨Ne.symm hclass, hpattern'⟩⟩
  | escaped hrest _ => exact absurd heq (sets_escaped_ne hrest)
  | @bracketed set body pattern list hrest _ =>
    have hle := hrest.length_le
    have hbracketed := length_sets_bracketed body pattern
    have hlength := congrArg List.length heq
    rw [sets, List.length_cons] at hlength
    omega

theorem sets_sql_inhabited (pattern : List Char) :
    ∀ set ∈ sets (pattern.map sqlPiece), ∃ c, set c = true := by
  induction pattern with
  | nil => exact fun _ hset => absurd hset List.not_mem_nil
  | cons c pattern ih =>
    intro set hset
    rw [sets_map_cons, List.mem_append] at hset
    rcases hset with hset | hset
    · unfold sqlPiece at hset
      split at hset
      next => exact absurd hset List.not_mem_nil
      next =>
        split at hset
        next => exact ⟨c, by rw [List.mem_singleton.mp hset]⟩
        next => exact ⟨c, by rw [List.mem_singleton.mp hset]; exact beq_self_eq_true c⟩
    · exact ih set hset

theorem wildMatch_conforms : Conforms classes (wildMatch classes) := by
  intro text pattern list h
  rw [wildMatch, h]

/-- LIKE has its meaning in SQL for every text and every `wild_match` that does what is assumed of
it, if and only if the pattern has no backslash and no opening bracket. -/
theorem like_sql_iff (classes : ClassSyntax) (pattern : List Char) :
    (∀ wildMatch, Conforms classes wildMatch → ∀ text,
      like wildMatch (string text) (string pattern) = .ok (sqlMatches text pattern)) ↔
    '\\' ∉ pattern ∧ '[' ∉ pattern := by
  constructor
  · intro h
    have hmatch : ∀ text, wildMatch classes text (rewritten pattern) = sqlMatches text pattern := by
      intro text
      have htext := h (wildMatch classes) wildMatch_conforms text
      rw [like_string] at htext
      exact Except.ok.inj htext
    cases hpieces : pieces classes (rewritten pattern) with
    | none =>
      obtain ⟨text, htext⟩ := exists_fits (sets_sql_inhabited pattern)
      have hfalse := hmatch text
      rw [wildMatch, hpieces, sqlMatches, accepts_of_fits htext] at hfalse
      cases hfalse
    | some list =>
      apply (reading_of_pieces hpieces).neutral
      refine (sets_eq_of_accepts (sets_sql_inhabited pattern) fun text => ?_).symm
      rw [← wildMatch_conforms text _ list hpieces]
      exact (hmatch text).symm
  · rintro ⟨hescape, hclass⟩ wildMatch hconforms text
    rw [like_string, hconforms text _ _ (pieces_neutral hescape hclass)]
    rfl

/-- The text `a` is like the pattern `[a]`, which should match itself only. -/
theorem like_bracketed :
    Conforms plainClasses (wildMatch plainClasses) ∧
      like (wildMatch plainClasses) (string ['a']) (string ['[', 'a', ']']) = .ok true ∧
      sqlMatches ['a'] ['[', 'a', ']'] = false := by
  refine ⟨wildMatch_conforms, ?_, by decide⟩
  have hread : plainClasses.read ['a', ']'] = some (['a'].contains, []) := rfl
  have hpieces : pieces plainClasses ['[', 'a', ']'] = some [.one ['a'].contains] := by
    rw [pieces_class hread, pieces_nil]
    rfl
  calc
    like (wildMatch plainClasses) (string ['a']) (string ['[', 'a', ']']) =
        .ok (wildMatch plainClasses ['a'] ['[', 'a', ']']) := like_string _ _ _
    _ = .ok (accepts [.one ['a'].contains] ['a']) := by
      rw [wildMatch_conforms ['a'] _ _ hpieces]
    _ = .ok true := rfl

end OpenDDS.Guarantees.LikeMeaning
