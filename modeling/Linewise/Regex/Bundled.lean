import Linewise.Proofs.Regex.Reliable
import Linewise.Regex.Reader

/-!
# The bundled engine

The engine that comes with this library reads an expression, resolves its modes, writes a program
for it and searches with that program. It is one engine among others: what is proved about grammars,
registries and lines holds with any engine, and this one is there to run them.

It knows the classes of letters, digits and blanks, but no property of characters by its name; an
expression that asks for one (`\p`) is refused. Programs above a size are refused as well.
-/

namespace Linewise

/-- What the bundled engine says of every expression that it refuses. -/
def compileDetail : String := "error parsing pattern 0"

namespace Regex

/-- The greatest size of a program. -/
def maxWeight : Nat := 400000

/-- Reads an expression and resolves it. -/
def read (strict : Bool) (source : String) : Except Fault Expr := do
  Expr.ofAst strict (← Ast.ofString source)

/-- Writes a program for an expression, or says why not. -/
def Program.ofSource (source : String) : Except String Program :=
  match read false source with
  | .error _ => .error compileDetail
  | .ok expr => if maxWeight < expr.weight then .error compileDetail else .ok (.ofExpr expr)

/-- The bundled engine. The place that it reports is where the strict reading fails. -/
instance bundled : Engine where
  build source := (Program.ofSource source).map Program.automaton
  faultOffset? source :=
    match read true source with
    | .error fault => some fault.offset
    | .ok _ => none

/-- With the bundled engine an expression is compiled to its program. -/
theorem compile_of_ofSource {source : String} {program : Program}
    (h : Program.ofSource source = .ok program) :
    compile source = .ok ⟨source, program.automaton⟩ := by
  have hbuild : Engine.build source = .ok program.automaton := congrArg (Except.map _) h
  rw [compile, hbuild]

end Regex
end Linewise
