import CStack.Source.Declaration

/-!
# Numbering nodes

Before a unit is compiled every expression node in it gets a tag of its own, counting up in the
order the nodes are met: global initialisers first, then function bodies, each node before its
parts. The compiler's memo is keyed by these tags, so two nodes that are written alike are still
analysed apart.
-/

namespace CStack

/-- The next tag. -/
def freshTag : StateM Nat Nat := modifyGet fun n => (n, n + 1)

mutual

/-- Numbers an expression and its parts. -/
def Expr.numbered : Expr → StateM Nat Expr
  | .node _ span kind => do
    let tag ← freshTag
    return .node tag span (← kind.numbered)

/-- Numbers the parts of an expression form. -/
def ExprKind.numbered : ExprKind → StateM Nat ExprKind
  | .member target name => return .member (← target.numbered) name
  | .arrow target name => return .arrow (← target.numbered) name
  | .call callee args => return .call (← callee.numbered) (← Expr.numberedList args)
  | .cast type operand => return .cast type (← operand.numbered)
  | .unary op operand => return .unary op (← operand.numbered)
  | .binary op left right => return .binary op (← left.numbered) (← right.numbered)
  | .logical op left right => return .logical op (← left.numbered) (← right.numbered)
  | .assign target value => return .assign (← target.numbered) (← value.numbered)
  | .addressOf operand => return .addressOf (← operand.numbered)
  | .deref operand => return .deref (← operand.numbered)
  | k => return k

/-- Numbers a list of expressions in order. -/
def Expr.numberedList : List Expr → StateM Nat (List Expr)
  | [] => return []
  | e :: rest => return (← e.numbered) :: (← Expr.numberedList rest)

end

/-- Numbers an optional expression. -/
def Expr.numberedOption : Option Expr → StateM Nat (Option Expr)
  | some e => return some (← e.numbered)
  | none => return none

mutual

/-- Numbers the expressions of a statement. -/
def Stmt.numbered : Stmt → StateM Nat Stmt
  | .node span kind => return .node span (← kind.numbered)

/-- Numbers the expressions of a statement form. -/
def StmtKind.numbered : StmtKind → StateM Nat StmtKind
  | .expr e => return .expr (← e.numbered)
  | .var name type init => return .var name type (← Expr.numberedOption init)
  | .ret value => return .ret (← Expr.numberedOption value)
  | .ite c t (some el) => return .ite (← c.numbered) (← t.numbered) (some (← el.numbered))
  | .ite c t none => return .ite (← c.numbered) (← t.numbered) none
  | .loop c body => return .loop (← c.numbered) (← body.numbered)
  | .block stmts => return .block (← Stmt.numberedList stmts)

/-- Numbers the expressions of statements in order. -/
def Stmt.numberedList : List Stmt → StateM Nat (List Stmt)
  | [] => return []
  | s :: rest => return (← s.numbered) :: (← Stmt.numberedList rest)

end

/-- The unit with every expression node numbered from `0`. -/
def CompilationUnit.numbered (u : CompilationUnit) : CompilationUnit :=
  let run : StateM Nat CompilationUnit := do
    let globals ← u.globals.mapM fun g => return { g with init := ← Expr.numberedOption g.init }
    let functions ← u.functions.mapM fun f => do
      match f.body with
      | some body => return { f with body := some (← Stmt.numberedList body) }
      | none => return f
    return { u with globals, functions }
  (run.run 0).1

end CStack
