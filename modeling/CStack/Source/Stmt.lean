import CStack.Source.Expr

/-!
Statements of the C dialect. A statement carries a span; an expression statement takes its
expression's span, every other form has none unless one is given.
-/

namespace CStack

mutual

/-- A statement node: its span and what it is. -/
inductive Stmt where
  | node (span : Span) (kind : StmtKind)

/-- The forms of statement. -/
inductive StmtKind where
  | expr (e : Expr)
  /-- A local variable, with an optional initial value. -/
  | var (name : String) (type : TypeName) (init : Option Expr)
  | ret (value : Option Expr)
  | ite (cond : Expr) (thenBranch : Stmt) (elseBranch : Option Stmt)
  | loop (cond : Expr) (body : Stmt)
  | block (stmts : List Stmt)

end

instance : Inhabited Stmt := ⟨.node Span.none (.block [])⟩

namespace Stmt

/-- The span of a statement. -/
def span : Stmt → Span
  | .node s _ => s

/-- What a statement is. -/
def kind : Stmt → StmtKind
  | .node _ k => k

/-- An expression statement, at its expression's span. -/
def ofExpr (e : Expr) : Stmt := .node e.span (.expr e)

end Stmt

end CStack
