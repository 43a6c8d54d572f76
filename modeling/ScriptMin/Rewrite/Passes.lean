import ScriptMin.Rewrite.Branches
import ScriptMin.Rewrite.Folding
import ScriptMin.Rewrite.Reachability
import ScriptMin.Rewrite.Sequences
import ScriptMin.Rewrite.Spelling

/-!
# Passes over a program

A pass rewrites a tree from the leaves up. At each node the enabled rules are applied in their
order, again and again until none applies. Passes are repeated until one changes nothing or there
have been enough.
-/

namespace ScriptMin

open Rewrite

/-- Which rules are enabled, and how many passes are made. -/
structure RewriteOptions where
  passes : Nat
  maxPasses : Nat
  sequences : Bool
  yieldUndefined : Bool
  undefinedToVoid : Bool
  evaluate : Bool
  sideEffects : Bool
  deadCode : Bool
  dropDebugger : Bool
  conditionals : Bool
  ifReturn : Bool
  joinVars : Bool
  properties : Bool
  loops : Bool
  blocks : Bool
deriving DecidableEq, Repr

namespace RewriteOptions

/-- Options with the same answer for every rule. -/
def uniform (passes : Nat) (enabled : Bool) : RewriteOptions where
  passes
  maxPasses := 10
  sequences := enabled
  yieldUndefined := enabled
  undefinedToVoid := enabled
  evaluate := enabled
  sideEffects := enabled
  deadCode := enabled
  dropDebugger := enabled
  conditionals := enabled
  ifReturn := enabled
  joinVars := enabled
  properties := enabled
  loops := enabled
  blocks := enabled

/-- No rule at all. -/
def none : RewriteOptions := uniform 1 false

/-- Every rule. -/
def all : RewriteOptions := uniform 2 true

/-- The number of passes to make at most, which is at least one. -/
def passLimit (o : RewriteOptions) : Nat :=
  min (max o.passes 1) (max o.maxPasses 1)

/-- The rules that are enabled, in the order in which they are tried. -/
def rules (o : RewriteOptions) : List Rule :=
  let table : List (Bool × Rule) :=
    [(o.dropDebugger, Rewrite.dropDebugger),
     (o.deadCode, dropUnreached),
     (o.deadCode, dropConstantBranch),
     (o.yieldUndefined, shortenYield),
     (o.undefinedToVoid, shortenUndefined),
     (o.evaluate, foldConstants),
     (o.sideEffects, dropPure),
     (o.properties, shortenAccess),
     (o.properties, shortenKey),
     (o.blocks, flattenBlocks),
     (o.blocks, unwrapBlocks),
     (o.joinVars, joinVariables),
     (o.loops, loopForever),
     (o.ifReturn, returnChoice),
     (o.conditionals, ifToExpression),
     (o.sequences, joinExpressions)]
  (table.filter (·.1)).map (·.2)

end RewriteOptions

namespace Rewrite

/-- What rewriting has come to: a node, and how many rules were applied. -/
structure Progress where
  node : Node
  count : Nat

/-- Applies a rule if it applies. -/
def Progress.apply (context : Context) (p : Progress) (rule : Rule) : Progress :=
  match rule context p.node with
  | some n => ⟨n, p.count + 1⟩
  | none => p

/-- Applies all rules in turn until none applies, at most `rounds` times. -/
def settle (rules : List Rule) (context : Context) : Nat → Progress → Progress
  | 0, p => p
  | rounds + 1, p =>
    let p' := rules.foldl (Progress.apply context) p
    if p'.count = p.count then p' else settle rules context rounds p'

/-- How often the rules are tried at one node. -/
def roundLimit : Nat := 64

/-- A tree rewritten from the leaves up. -/
def pass (rules : List Rule) (context : Context) (root : Node) : Progress :=
  root.fold fun n children =>
    settle rules context roundLimit
      ⟨n.withShape (children.map (·.2.node)), (children.children.map (·.2.count)).foldl (· + ·) 0⟩

/-- Passes over a tree until one changes nothing, at most `limit` of them. -/
def passes (rules : List Rule) : Nat → Node → Node
  | 0, root => root
  | limit + 1, root =>
    let rewritten := pass rules (Context.ofRoot root) root
    if rewritten.count = 0 then rewritten.node else passes rules limit rewritten.node

end Rewrite

/-- A program rewritten by the enabled rules. -/
def Program.rewrite (o : RewriteOptions) (p : Program) : Program :=
  { p with root := passes o.rules o.passLimit p.root }

end ScriptMin
