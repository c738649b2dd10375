import Mathlib.Data.List.Basic

/-!
# Filter expressions and their trees

The conditions of dds/DCPS/FilterExpressionGrammar.h with the AST that the `Store` annotations
describe, and the tree that `FilterEvaluator` (dds/DCPS/FilterEvaluator.cpp) builds from the AST and
evaluates. A predicate (`BetweenPred`, `CmpFnParam`, `CmpParamFn`, `CmpBothFn`) is a leaf; what it
evaluates to for a sample is a parameter. The parser itself is not modelled.
-/
namespace OpenDDS.Source.FilterTree

variable {π σ ε : Type}

inductive Connective where
  | and
  | or
  deriving DecidableEq

mutual

inductive Cond (π : Type) where
  | pred (p : π) (tail : CondTail π)
  | not (cond : Cond π) (tail : CondTail π)
  | paren (cond : Cond π) (tail : CondTail π)

inductive CondTail (π : Type) where
  | none
  | more (op : Connective) (cond : Cond π) (tail : CondTail π)

end

inductive AstNode (π : Type) where
  | pred (p : π)
  | connective (op : Connective)
  | not
  | cond (children : List (AstNode π))
  | orderBy
  | fieldName (name : String)

mutual

/-- The nodes that a derivation stores. Only a condition in parentheses is a node of its own. -/
def Cond.nodes : Cond π → List (AstNode π)
  | .pred p tail => .pred p :: tail.nodes
  | .not cond tail => .not :: (cond.nodes ++ tail.nodes)
  | .paren cond tail => .cond cond.nodes :: tail.nodes

def CondTail.nodes : CondTail π → List (AstNode π)
  | .none => []
  | .more op cond tail => .connective op :: (cond.nodes ++ tail.nodes)

end

inductive LogicalOp where
  | connective (op : Connective)
  | not
  deriving DecidableEq

/-- A pointer to an `EvalNode`. The children of a predicate are those beyond its operands. -/
inductive EvalNode (π : Type) where
  | null
  | predicate (p : π) (children : List (EvalNode π))
  | logical (op : LogicalOp) (children : List (EvalNode π))

def EvalNode.addChild : EvalNode π → EvalNode π → EvalNode π
  | .null, _ => .null
  | .predicate p children, n => .predicate p (children ++ [n])
  | .logical op children, n => .logical op (children ++ [n])

/-- The constructor of `Logical`, which takes over `left` unless it is for a NOT. -/
def newLogical (op : LogicalOp) (left : EvalNode π) : EvalNode π × EvalNode π :=
  match op with
  | .not => (.logical op [], left)
  | .connective _ => (.logical op [left], .null)

/-- The end of `walkAst`. -/
def attach (prev eval : EvalNode π) : EvalNode π :=
  match prev with
  | .null => eval
  | prev => prev.addChild eval

mutual

/-- `none` where an assertion fails. -/
def walkAst : AstNode π → EvalNode π → Option (EvalNode π)
  | .pred p, prev => some (attach prev (.predicate p []))
  | .connective op, prev =>
    let (eval, prev) := newLogical (.connective op) prev
    some (attach prev eval)
  | .not, prev =>
    let (eval, prev) := newLogical .not prev
    some (attach prev eval)
  | .cond children, prev => do
    let eval ← walkChildren children .null
    return attach prev eval
  | .orderBy, _ => none
  | .fieldName _, _ => none

/-- The loop over the children of a `Cond`. -/
def walkChildren : List (AstNode π) → EvalNode π → Option (EvalNode π)
  | [], eval => some eval
  | node :: rest, eval => do walkChildren rest (← walkAst node eval)

end

structure FilterEvaluator (π : Type) where
  filterRoot : EvalNode π
  orderBys : List String

/-- The loop of the constructor over the children of the root. -/
def construct (foundOrderBy : Bool) (evaluator : FilterEvaluator π) :
    List (AstNode π) → Option (FilterEvaluator π)
  | [] => some evaluator
  | .orderBy :: rest => construct true evaluator rest
  | .fieldName name :: rest =>
    if foundOrderBy then
      construct foundOrderBy { evaluator with orderBys := evaluator.orderBys ++ [name] } rest
    else none
  | node :: rest => do
    let root ← walkAst node evaluator.filterRoot
    construct foundOrderBy { evaluator with filterRoot := root } rest

inductive Fault (ε : Type) where
  | thrown (e : ε)
  | nullNode
  | noChild

def EvalNode.eval (predicate : π → Except ε Bool) : EvalNode π → Except (Fault ε) Bool
  | .null => .error .nullNode
  | .predicate p _ => (predicate p).mapError .thrown
  | .logical _ [] => .error .noChild
  | .logical op (left :: rest) => do
    let value ← left.eval predicate
    let other :=
      match rest with
      | [] => .error .noChild
      | right :: _ => right.eval predicate
    match op with
    | .not => return !value
    | .connective .and => if !value then return false else other
    | .connective .or => if value then return true else other

/-- What is accepted: a filter (`FilterCompleteInput`), a query (`QueryCompleteInput`) or the
condition of a topic expression, which is a stored node. -/
inductive Input (π : Type) where
  | filter (cond : Cond π)
  | query (cond : Option (Cond π)) (orderBy : Option (List String))
  | topic (cond : Cond π)

def Input.cond : Input π → Option (Cond π)
  | .filter cond => some cond
  | .query cond _ => cond
  | .topic cond => some cond

def orderByNodes : Option (List String) → List (AstNode π)
  | none => []
  | some names => .orderBy :: names.map .fieldName

def condNodes : Option (Cond π) → List (AstNode π)
  | none => []
  | some cond => cond.nodes

/-- The two constructors of `FilterEvaluator`. -/
def Input.evaluator : Input π → Option (FilterEvaluator π)
  | .filter cond => construct false ⟨.null, []⟩ cond.nodes
  | .query cond orderBy => construct false ⟨.null, []⟩ (condNodes cond ++ orderByNodes orderBy)
  | .topic cond => do return ⟨← walkAst (.cond cond.nodes) .null, []⟩

def FilterEvaluator.evalFilter (evaluator : FilterEvaluator π) (predicate : σ → π → Except ε Bool)
    (sample : σ) : Except (Fault ε) Bool :=
  evaluator.filterRoot.eval (predicate sample)

attribute [grind =] Cond.nodes CondTail.nodes EvalNode.addChild walkAst walkChildren EvalNode.eval

end OpenDDS.Source.FilterTree
