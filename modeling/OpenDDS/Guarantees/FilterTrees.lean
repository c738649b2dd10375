import OpenDDS.Source.FilterTree

/-!
# What a filter means

`Expr` is what an expression says: the operands of a chain are combined from left to right and a NOT
negates the operand after it. The tree of an expression is well formed and evaluates to what the
expression says, provided that every NOT begins the expression or follows an opening parenthesis.
A NOT anywhere else becomes a child that gets no child itself: its operand goes to the node before.
-/
namespace OpenDDS.Guarantees.FilterTrees

open Source.FilterTree

variable {π σ ε : Type}

inductive Expr (π : Type) where
  | pred (p : π)
  | not (operand : Expr π)
  | both (op : Connective) (left right : Expr π)

mutual

/-- `join` puts the first operand together with what stands before it. -/
def condExpr (join : Expr π → Expr π) : Cond π → Expr π
  | .pred p tail => tailExpr (join (.pred p)) tail
  | .not cond tail => tailExpr (condExpr (fun operand => join (.not operand)) cond) tail
  | .paren cond tail => tailExpr (join (condExpr id cond)) tail

def tailExpr (left : Expr π) : CondTail π → Expr π
  | .none => left
  | .more op cond tail => tailExpr (condExpr (.both op left) cond) tail

end

/-- The right operand is looked at only if the left one does not decide. -/
def Expr.value (predicate : π → Except ε Bool) : Expr π → Except ε Bool
  | .pred p => predicate p
  | .not operand => do return !(← operand.value predicate)
  | .both .and left right => do if ← left.value predicate then right.value predicate else return false
  | .both .or left right => do if ← left.value predicate then return true else right.value predicate

def Expr.holds (predicate : π → Bool) : Expr π → Bool
  | .pred p => predicate p
  | .not operand => !operand.holds predicate
  | .both .and left right => left.holds predicate && right.holds predicate
  | .both .or left right => left.holds predicate || right.holds predicate

/-- One child under each NOT, two under each AND and OR. -/
inductive WellFormed : EvalNode π → Prop where
  | predicate (p : π) : WellFormed (.predicate p [])
  | not {child : EvalNode π} : WellFormed child → WellFormed (.logical .not [child])
  | both (op : Connective) {left right : EvalNode π} : WellFormed left → WellFormed right →
      WellFormed (.logical (.connective op) [left, right])

/-- A condition has a well-formed tree that evaluates to what the condition says; without one there
is no tree. -/
def Meant (evaluator : FilterEvaluator π) : Option (Cond π) → Prop
  | none => evaluator.filterRoot = .null
  | some cond => WellFormed evaluator.filterRoot ∧
      ∀ {σ ε : Type} (predicate : σ → π → Except ε Bool) (sample : σ),
        evaluator.evalFilter predicate sample =
          ((condExpr id cond).value (predicate sample)).mapError .thrown

mutual

def NotsFirst (first : Bool) : Cond π → Prop
  | .pred _ tail => TailNotsFirst tail
  | .not cond tail => first = true ∧ NotsFirst false cond ∧ TailNotsFirst tail
  | .paren cond tail => NotsFirst true cond ∧ TailNotsFirst tail

def TailNotsFirst : CondTail π → Prop
  | .none => True
  | .more _ cond tail => NotsFirst false cond ∧ TailNotsFirst tail

end

attribute [grind =] condExpr tailExpr Expr.value Expr.holds NotsFirst TailNotsFirst

def tree : Expr π → EvalNode π
  | .pred p => .predicate p []
  | .not operand => .logical .not [tree operand]
  | .both op left right => .logical (.connective op) [tree left, tree right]

attribute [grind =] tree

theorem tree_wellFormed (e : Expr π) : WellFormed (tree e) := by
  induction e with
  | pred p => exact .predicate p
  | not operand ih => exact .not ih
  | both op left right ihl ihr => exact .both op ihl ihr

theorem eval_tree (predicate : π → Except ε Bool) (e : Expr π) :
    (tree e).eval predicate = (e.value predicate).mapError .thrown := by
  induction e with
  | pred p => rfl
  | not operand ih =>
    rw [tree, EvalNode.eval, ih, Expr.value]
    cases operand.value predicate <;> rfl
  | both op left right ihl ihr =>
    rw [tree, EvalNode.eval, ihl]
    cases op with
    | and =>
      rw [Expr.value]
      cases left.value predicate with
      | error e => rfl
      | ok value =>
        cases value with
        | true => exact ihr
        | false => rfl
    | or =>
      rw [Expr.value]
      cases left.value predicate with
      | error e => rfl
      | ok value =>
        cases value with
        | true => rfl
        | false => exact ihr

def isNull : EvalNode π → Bool
  | .null => true
  | _ => false

/-- Whatever comes next is put together with what stands before as `join` says. -/
def Fits (prev : EvalNode π) (join : Expr π → Expr π) : Prop :=
  ∀ e, attach prev (tree e) = tree (join e)

theorem attach_null {eval : EvalNode π} : attach .null eval = eval := rfl

theorem attach_of_not_null {prev : EvalNode π} (eval : EvalNode π) (h : isNull prev = false) :
    attach prev eval = prev.addChild eval := by
  cases prev with
  | null => cases h
  | predicate p children => rfl
  | logical op children => rfl

theorem isNull_attach {prev eval : EvalNode π} (h : isNull eval = false) :
    isNull (attach prev eval) = false := by
  cases prev with
  | null => exact h
  | predicate p children => rfl
  | logical op children => rfl

theorem walkChildren_append (nodes rest : List (AstNode π)) (prev : EvalNode π) :
    walkChildren (nodes ++ rest) prev = (walkChildren nodes prev).bind (walkChildren rest) := by
  induction nodes generalizing prev with
  | nil => rfl
  | cons node nodes ih =>
    rw [List.cons_append, walkChildren, walkChildren]
    cases walkAst node prev with
    | none => rfl
    | some eval => exact ih eval

theorem walkChildren_cons {node : AstNode π} {prev eval : EvalNode π} (rest : List (AstNode π))
    (h : walkAst node prev = some eval) :
    walkChildren (node :: rest) prev = walkChildren rest eval := by
  rw [walkChildren, h]
  rfl

theorem walkAst_cond {children : List (AstNode π)} {eval : EvalNode π} (prev : EvalNode π)
    (h : walkChildren children .null = some eval) :
    walkAst (.cond children) prev = some (attach prev eval) := by
  rw [walkAst, h]
  rfl

theorem walkAst_connective (op : Connective) (prev : EvalNode π) :
    walkAst (.connective op) prev = some (.logical (.connective op) [prev]) := by
  rfl

theorem walkAst_not (prev : EvalNode π) :
    walkAst .not prev = some (attach prev (.logical .not [])) := by
  rfl

mutual

theorem walkChildren_cond (prev : EvalNode π) :
    ∀ cond : Cond π, ∃ eval, walkChildren cond.nodes prev = some eval ∧ isNull eval = false
  | .pred p tail => by
    exact walkChildren_tail (isNull_attach rfl) tail
  | .not cond tail => by
    obtain ⟨eval, heval, hnull⟩ := walkChildren_cond (attach prev (.logical .not [])) cond
    rw [Cond.nodes, walkChildren_cons _ (walkAst_not prev), walkChildren_append, heval]
    exact walkChildren_tail hnull tail
  | .paren cond tail => by
    obtain ⟨eval, heval, hnull⟩ := walkChildren_cond .null cond
    rw [Cond.nodes, walkChildren_cons _ (walkAst_cond prev heval)]
    exact walkChildren_tail (isNull_attach hnull) tail

theorem walkChildren_tail {prev : EvalNode π} (h : isNull prev = false) :
    ∀ tail : CondTail π, ∃ eval, walkChildren tail.nodes prev = some eval ∧ isNull eval = false
  | .none => ⟨prev, by rw [CondTail.nodes, walkChildren], h⟩
  | .more op cond tail => by
    obtain ⟨eval, heval, hnull⟩ := walkChildren_cond (.logical (.connective op) [prev]) cond
    rw [CondTail.nodes, walkChildren_cons _ (walkAst_connective op prev), walkChildren_append, heval]
    exact walkChildren_tail hnull tail

end

theorem fits_null : Fits .null (id : Expr π → Expr π) := fun _ => rfl

theorem fits_connective (op : Connective) (left : Expr π) :
    Fits (.logical (.connective op) [tree left]) (.both op left) := fun _ => rfl

theorem fits_not {join : Expr π → Expr π} (h : Fits .null join) :
    Fits (.logical .not []) fun operand => join (.not operand) :=
  fun e => h (.not e)

mutual

theorem walkChildren_expr {prev : EvalNode π} {join : Expr π → Expr π} (hfits : Fits prev join) :
    ∀ cond : Cond π, NotsFirst (isNull prev) cond →
      walkChildren cond.nodes prev = some (tree (condExpr join cond))
  | .pred p tail, h => by
    have hpred : walkAst (.pred p) prev = some (tree (join (.pred p))) := by
      rw [walkAst, ← hfits (.pred p), tree]
    rw [Cond.nodes, walkChildren_cons _ hpred]
    exact walkChildren_tailExpr _ tail h
  | .not cond tail, ⟨hfirst, hcond, htail⟩ => by
    cases prev with
    | null =>
      have hwalk := walkChildren_expr (fits_not hfits) cond hcond
      rw [Cond.nodes, walkChildren_cons _ (walkAst_not .null), attach_null, walkChildren_append, hwalk]
      exact walkChildren_tailExpr _ tail htail
    | predicate p children => cases hfirst
    | logical op children => cases hfirst
  | .paren cond tail, ⟨hcond, htail⟩ => by
    have hwalk := walkChildren_expr fits_null cond hcond
    rw [Cond.nodes, walkChildren_cons _ (walkAst_cond prev hwalk), hfits]
    exact walkChildren_tailExpr _ tail htail

theorem walkChildren_tailExpr (left : Expr π) :
    ∀ tail : CondTail π, TailNotsFirst tail →
      walkChildren tail.nodes (tree left) = some (tree (tailExpr left tail))
  | .none, _ => by rw [CondTail.nodes, walkChildren, tailExpr]
  | .more op cond tail, ⟨hcond, htail⟩ => by
    have hwalk := walkChildren_expr (fits_connective op left) cond hcond
    rw [CondTail.nodes, walkChildren_cons _ (walkAst_connective op _), walkChildren_append, hwalk]
    exact walkChildren_tailExpr _ tail htail

end

inductive Childless : EvalNode π → Prop where
  | not : Childless (.logical .not [])
  | predicate {p : π} {children : List (EvalNode π)} {child : EvalNode π} : child ∈ children →
      Childless child → Childless (.predicate p children)
  | logical {op : LogicalOp} {children : List (EvalNode π)} {child : EvalNode π} : child ∈ children →
      Childless child → Childless (.logical op children)

theorem WellFormed.not_childless {e : EvalNode π} (h : WellFormed e) : ¬ Childless e := by
  induction h with
  | predicate p =>
    rintro ⟨⟩
    contradiction
  | not _ ih =>
    rintro (_ | _ | @⟨_, _, child, hmem, hchild⟩)
    rw [List.mem_singleton.mp hmem] at hchild
    exact ih hchild
  | both op _ _ ihl ihr =>
    rintro (_ | _ | @⟨_, _, child, hmem, hchild⟩)
    rcases List.mem_pair.mp hmem with rfl | rfl
    · exact ihl hchild
    · exact ihr hchild

def children : EvalNode π → List (EvalNode π)
  | .null => []
  | .predicate _ children => children
  | .logical _ children => children

/-- A NOT without a child below the root; no child is ever added to it. -/
def Spoiled (e : EvalNode π) : Prop :=
  ∃ child ∈ children e, Childless child

theorem Spoiled.childless {e : EvalNode π} (h : Spoiled e) : Childless e := by
  obtain ⟨child, hmem, hchild⟩ := h
  cases e with
  | null => cases hmem
  | predicate p children => exact .predicate hmem hchild
  | logical op children => exact .logical hmem hchild

theorem Spoiled.not_null {e : EvalNode π} (h : Spoiled e) : isNull e = false := by
  obtain ⟨child, hmem, _⟩ := h
  cases e with
  | null => cases hmem
  | predicate p children => rfl
  | logical op children => rfl

theorem children_addChild {e child : EvalNode π} (h : isNull e = false) :
    children (e.addChild child) = children e ++ [child] := by
  cases e with
  | null => cases h
  | predicate p children => rfl
  | logical op children => rfl

theorem Spoiled.attach {prev : EvalNode π} (eval : EvalNode π) (h : Spoiled prev) :
    Spoiled (attach prev eval) := by
  obtain ⟨child, hmem, hchild⟩ := h
  have hnull := Spoiled.not_null ⟨child, hmem, hchild⟩
  rw [attach_of_not_null eval hnull]
  exact ⟨child, children_addChild hnull ▸ List.mem_append_left _ hmem, hchild⟩

theorem spoiled_attach {prev eval : EvalNode π} (heval : Childless eval)
    (h : isNull prev = false ∨ Spoiled eval) : Spoiled (attach prev eval) := by
  cases hnull : isNull prev with
  | false =>
    rw [attach_of_not_null eval hnull]
    exact ⟨eval, children_addChild hnull ▸ List.mem_append_right _ (List.mem_singleton_self _), heval⟩
  | true =>
    cases prev with
    | null => exact h.resolve_left Bool.noConfusion
    | predicate p children => cases hnull
    | logical op children => cases hnull

theorem Spoiled.walk {prev eval : EvalNode π} {node : AstNode π} (h : Spoiled prev)
    (heval : walkAst node prev = some eval) : Spoiled eval := by
  cases node with
  | pred p =>
    cases heval
    exact h.attach _
  | connective op =>
    cases heval
    exact ⟨prev, List.mem_singleton_self _, h.childless⟩
  | not =>
    cases heval
    exact h.attach _
  | cond children =>
    obtain ⟨inner, _, hinner⟩ := Option.bind_eq_some_iff.mp heval
    cases hinner
    exact h.attach _
  | orderBy => cases heval
  | fieldName name => cases heval

theorem Spoiled.walkAll {nodes : List (AstNode π)} {prev eval : EvalNode π} (h : Spoiled prev)
    (heval : walkChildren nodes prev = some eval) : Spoiled eval := by
  induction nodes generalizing prev with
  | nil =>
    cases heval
    exact h
  | cons node nodes ih =>
    obtain ⟨next, hnext, hrest⟩ := Option.bind_eq_some_iff.mp heval
    exact ih (h.walk hnext) hrest

mutual

theorem spoiled_cond {prev eval : EvalNode π} :
    ∀ cond : Cond π, ¬ NotsFirst (isNull prev) cond →
      walkChildren cond.nodes prev = some eval → Spoiled eval
  | .pred p tail, h, heval => by
    exact spoiled_tail tail h heval
  | .not cond tail, h, heval => by
    rw [Cond.nodes, walkChildren_cons _ (walkAst_not prev)] at heval
    cases hnull : isNull prev with
    | false => exact (spoiled_attach .not (.inl hnull)).walkAll heval
    | true =>
      rw [walkChildren_append] at heval
      obtain ⟨next, hnext, hrest⟩ := Option.bind_eq_some_iff.mp heval
      by_cases hcond : NotsFirst false cond
      · exact spoiled_tail tail (fun htail => h ⟨hnull, hcond, htail⟩) hrest
      · refine (spoiled_cond cond ?_ hnext).walkAll hrest
        rw [isNull_attach rfl]
        exact hcond
  | .paren cond tail, h, heval => by
    obtain ⟨inner, hinner, _⟩ := walkChildren_cond .null cond
    rw [Cond.nodes, walkChildren_cons _ (walkAst_cond prev hinner)] at heval
    by_cases hcond : NotsFirst true cond
    · exact spoiled_tail tail (fun htail => h ⟨hcond, htail⟩) heval
    · have hcond' : ¬ NotsFirst (isNull (.null : EvalNode π)) cond := hcond
      have hspoiled : Spoiled inner := spoiled_cond cond hcond' hinner
      exact (spoiled_attach hspoiled.childless (.inr hspoiled)).walkAll heval

theorem spoiled_tail {prev eval : EvalNode π} :
    ∀ tail : CondTail π, ¬ TailNotsFirst tail →
      walkChildren tail.nodes prev = some eval → Spoiled eval
  | .none, h, _ => absurd trivial h
  | .more op cond tail, h, heval => by
    rw [CondTail.nodes, walkChildren_cons _ (walkAst_connective op prev), walkChildren_append] at heval
    obtain ⟨next, hnext, hrest⟩ := Option.bind_eq_some_iff.mp heval
    by_cases hcond : NotsFirst false cond
    · exact spoiled_tail tail (fun htail => h ⟨hcond, htail⟩) hrest
    · have hcond' : ¬ NotsFirst (isNull (.logical (.connective op) [prev])) cond := hcond
      exact (spoiled_cond cond hcond' hnext).walkAll hrest

end

theorem construct_fieldNames (evaluator : FilterEvaluator π) (names : List String) :
    construct true evaluator (names.map .fieldName) =
      some { evaluator with orderBys := evaluator.orderBys ++ names } := by
  induction names generalizing evaluator with
  | nil => rw [List.map_nil, construct, List.append_nil]
  | cons name names ih =>
    rw [List.map_cons, construct, if_pos rfl, ih, List.append_assoc]
    rfl

theorem construct_orderBy (evaluator : FilterEvaluator π) (orderBy : Option (List String)) :
    construct false evaluator (orderByNodes orderBy) =
      some { evaluator with orderBys := evaluator.orderBys ++ orderBy.getD [] } := by
  cases orderBy with
  | none => simp [orderByNodes, construct]
  | some names => rw [orderByNodes, construct, construct_fieldNames]; rfl

theorem construct_walk {node : AstNode π} {evaluator : FilterEvaluator π} {eval : EvalNode π}
    (rest : List (AstNode π)) (h : walkAst node evaluator.filterRoot = some eval) :
    construct false evaluator (node :: rest) =
      construct false { evaluator with filterRoot := eval } rest := by
  have horder : node ≠ .orderBy := by
    rintro rfl
    cases h
  have hname : ∀ name, node ≠ .fieldName name := by
    rintro name rfl
    cases h
  rw [construct, h]
  · rfl
  · exact horder
  · exact hname

theorem construct_append {nodes : List (AstNode π)} {evaluator : FilterEvaluator π}
    {eval : EvalNode π} (rest : List (AstNode π))
    (h : walkChildren nodes evaluator.filterRoot = some eval) :
    construct false evaluator (nodes ++ rest) =
      construct false { evaluator with filterRoot := eval } rest := by
  induction nodes generalizing evaluator with
  | nil =>
    cases h
    rfl
  | cons node nodes ih =>
    obtain ⟨next, hnext, hrest⟩ := Option.bind_eq_some_iff.mp h
    rw [List.cons_append, construct_walk _ hnext]
    exact ih hrest

theorem evaluator_root (input : Input π) :
    ∃ evaluator, input.evaluator = some evaluator ∧
      match input.cond with
      | none => evaluator.filterRoot = .null
      | some cond => walkChildren cond.nodes .null = some evaluator.filterRoot := by
  cases input with
  | filter cond =>
    obtain ⟨eval, heval, _⟩ := walkChildren_cond .null cond
    have happend := @construct_append π cond.nodes ⟨.null, []⟩ eval [] heval
    rw [List.append_nil] at happend
    exact ⟨_, happend, heval⟩
  | query cond orderBy =>
    cases cond with
    | none => exact ⟨_, construct_orderBy ⟨.null, []⟩ orderBy, rfl⟩
    | some cond =>
      obtain ⟨eval, heval, _⟩ := walkChildren_cond .null cond
      exact ⟨_, (construct_append _ heval).trans (construct_orderBy _ orderBy), heval⟩
  | topic cond =>
    obtain ⟨eval, heval, _⟩ := walkChildren_cond .null cond
    refine ⟨⟨eval, []⟩, ?_, heval⟩
    rw [Input.evaluator, walkAst_cond .null heval]
    rfl

/-- For every accepted input: the tree is well formed and means what the condition says if and only
if every NOT is the first token of the condition or follows an opening parenthesis. -/
theorem meant_iff (input : Input π) :
    (∃ evaluator, input.evaluator = some evaluator ∧ Meant evaluator input.cond) ↔
      ∀ cond, input.cond = some cond → NotsFirst true cond := by
  obtain ⟨evaluator, hevaluator, hroot⟩ := evaluator_root input
  rw [hevaluator]
  cases hcond : input.cond with
  | none =>
    rw [hcond] at hroot
    simpa [Meant] using hroot
  | some cond =>
    rw [hcond] at hroot
    have hwalk : walkChildren cond.nodes .null = some evaluator.filterRoot := hroot
    constructor
    · rintro ⟨same, hsame, hformed, _⟩ other hother
      cases hsame
      cases hother
      by_contra hnot
      have hnot' : ¬ NotsFirst (isNull (.null : EvalNode π)) cond := hnot
      exact hformed.not_childless (spoiled_cond cond hnot' hwalk).childless
    · intro hfirst
      have htree := walkChildren_expr fits_null cond (hfirst cond rfl)
      rw [hwalk] at htree
      have heq : evaluator.filterRoot = tree (condExpr id cond) := Option.some.inj htree
      refine ⟨evaluator, rfl, heq ▸ tree_wellFormed _, fun predicate sample => ?_⟩
      rw [FilterEvaluator.evalFilter, heq]
      exact eval_tree (predicate sample) _

/-- `a OR NOT b`: the OR has three children, of which the NOT has none, and there is nothing to
evaluate if `a` is false. -/
theorem or_not_spoiled :
    ∃ evaluator, (Input.filter (Cond.pred 'a' (.more .or (.not (.pred 'b' .none) .none) .none))).evaluator =
        some evaluator ∧
      evaluator.filterRoot =
        .logical (.connective .or) [.predicate 'a' [], .logical .not [], .predicate 'b' []] ∧
      ¬ WellFormed evaluator.filterRoot ∧
      evaluator.evalFilter (fun (_ : Unit) (_ : Char) => (.ok false : Except Empty Bool)) () =
        .error .noChild := by
  refine ⟨⟨.logical (.connective .or) [.predicate 'a' [], .logical .not [], .predicate 'b' []], []⟩, rfl,
    rfl, ?_, rfl⟩
  rintro ⟨⟩

end OpenDDS.Guarantees.FilterTrees
