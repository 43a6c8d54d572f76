import ScriptMin.Rename.Walk
import ScriptMin.Rewrite.Checked

/-!
# Minification

A source is read, its program is rewritten, its declarations are renamed, and what results is
printed. The two steps in the middle can be left out. `minifyChecked` is what a run of the program
does: it checks what rewriting and printing take for granted.
-/

namespace ScriptMin

/-- How a source is minified. A step without options is left out. -/
structure Options where
  mode : Mode
  rewrite : Option RewriteOptions
  rename : Option RenameOptions
  style : Style
deriving DecidableEq, Repr

namespace Options

/-- A script that is only printed again. -/
def default : Options := ⟨.global, none, none, .compact⟩

/-- A script with every rewrite rule, new names below its top level, and compact output. -/
def recommended : Options := ⟨.global, some .all, some .default, .compact⟩

/-- The steps between reading a program and printing it. -/
def transform (o : Options) (p : Program) : Program :=
  let rewritten := o.rewrite.elim p fun rules => p.rewrite rules
  o.rename.elim rewritten fun names => rewritten.rename names

end Options

/-- The code that a source is minified to. -/
def minify (o : Options) (source : List Char) : Except SyntaxError (List Char) :=
  (Program.parse o.mode source).map fun p => (o.transform p).print o.style

/-- Why a source has no code: it was refused, or a step found an assumption broken. -/
inductive MinifyError where
  | parsing (error : SyntaxError)
  | rewriting (error : InvariantError)
  | printing (error : InvariantError)
deriving DecidableEq, Repr

/-- The steps between reading a program and printing it, with checks. Renaming takes nothing for
granted. -/
def Options.transformChecked (o : Options) (p : Program) : Except InvariantError Program := do
  let rewritten ← o.rewrite.elim (.ok p) fun rules => p.rewriteChecked rules
  return o.rename.elim rewritten fun names => rewritten.rename names

/-- The code that a source is minified to, with checks. -/
def minifyChecked (o : Options) (source : List Char) : Except MinifyError (List Char) := do
  let p ← (Program.parse o.mode source).mapError .parsing
  let transformed ← (o.transformChecked p).mapError .rewriting
  (transformed.printChecked o.style).mapError .printing

end ScriptMin
