import ScriptMin.Proofs.Tree.Induction
import ScriptMin.Proofs.Tree.Map
import ScriptMin.Rewrite.Passes

/-!
# What rules keep, a program keeps

A relation between a tree and what it is rewritten to holds of a whole program if it holds of one
application of each rule. It has to be reflexive and transitive, since rules are applied again and
again, and to pass from the children of a node to the node, since they are applied from the leaves
up.

The rules on statements in a row join neighbours, or splice a block into the row. A relation between
rows holds of a rule if it holds where two statements at the front are joined, or one is spliced in,
since it may be used behind statements that stay.
-/

namespace ScriptMin.Rewrite

/-- A relation that passes through the steps of rewriting. -/
structure Kept (r : Node → Node → Prop) : Prop where
  refl : ∀ n, r n n
  trans : ∀ {a b c}, r a b → r b c → r a c
  congr : ∀ (n : Node) (g : Node → Node), (∀ c ∈ n.shape.children, r c (g c)) →
    r n (n.withShape (n.shape.map g))

/-- A rule that only gives what is related to the node it is applied to. -/
def Rule.Keeps (rule : Rule) (r : Node → Node → Prop) : Prop :=
  ∀ context n n', rule context n = some n' → r n n'

section Passes

variable {r : Node → Node → Prop} {rules : List Rule} (hr : Kept r)
  (hrules : ∀ rule ∈ rules, rule.Keeps r)

include hr hrules

theorem Kept.round (context : Context) (p : Progress) :
    r p.node (rules.foldl (Progress.apply context) p).node := by
  -- Each rule is applied to what those before it have left.
  induction rules generalizing p with
  | nil => exact hr.refl p.node
  | cons rule rest ih =>
    refine hr.trans ?_ (ih (fun rule h => hrules rule (List.mem_cons_of_mem _ h)) _)
    cases hn : rule context p.node with
    | none => simpa only [Progress.apply, hn] using hr.refl p.node
    | some n =>
      simpa only [Progress.apply, hn] using hrules rule List.mem_cons_self context p.node n hn

theorem Kept.settle (context : Context) (rounds : Nat) (p : Progress) :
    r p.node (settle rules context rounds p).node := by
  induction rounds generalizing p with
  | zero => exact hr.refl p.node
  | succ rounds ih =>
    simp only [Rewrite.settle]
    split
    · exact hr.round hrules context p
    · exact hr.trans (hr.round hrules context p) (ih _)

/-- Rewriting from the leaves up. -/
theorem Kept.pass (context : Context) (n : Node) : r n (pass rules context n).node := by
  induction n using Node.induction with
  | h n ih =>
    rw [Rewrite.pass, Node.fold_eq, Shape.map_map]
    -- First the children are rewritten, then the node that has them.
    refine hr.trans ?_ (hr.settle hrules context roundLimit _)
    exact hr.congr n (fun c => (Rewrite.pass rules context c).node) ih

theorem Kept.passes (limit : Nat) (root : Node) : r root (passes rules limit root) := by
  induction limit generalizing root with
  | zero => exact hr.refl root
  | succ limit ih =>
    simp only [Rewrite.passes]
    split
    · exact hr.pass hrules _ root
    · exact hr.trans (hr.pass hrules _ root) (ih _)

end Passes

/-- The rules that options enable. -/
theorem mem_rules {o : RewriteOptions} {rule : Rule} (h : rule ∈ o.rules) :
    (o.dropDebugger ∧ rule = dropDebugger) ∨ (o.deadCode ∧ rule = dropUnreached) ∨
    (o.deadCode ∧ rule = dropConstantBranch) ∨ (o.yieldUndefined ∧ rule = shortenYield) ∨
    (o.undefinedToVoid ∧ rule = shortenUndefined) ∨ (o.evaluate ∧ rule = foldConstants) ∨
    (o.sideEffects ∧ rule = dropPure) ∨ (o.properties ∧ rule = shortenAccess) ∨
    (o.properties ∧ rule = shortenKey) ∨ (o.blocks ∧ rule = flattenBlocks) ∨
    (o.blocks ∧ rule = unwrapBlocks) ∨ (o.joinVars ∧ rule = joinVariables) ∨
    (o.loops ∧ rule = loopForever) ∨ (o.ifReturn ∧ rule = returnChoice) ∨
    (o.conditionals ∧ rule = ifToExpression) ∨ (o.sequences ∧ rule = joinExpressions) := by
  simpa [RewriteOptions.rules] using h

/-! ## Rows -/

/-- A relation between rows that passes through the rules on them. -/
structure RowKept (r : List Node → List Node → Prop) : Prop where
  refl : ∀ row, r row row
  trans : ∀ {a b c}, r a b → r b c → r a c
  cons : ∀ (n : Node) {row row' : List Node}, r row row' → r (n :: row) (n :: row')

namespace RowKept

variable {r : List Node → List Node → Prop} (hr : RowKept r)

include hr

theorem append (before : List Node) {row row' : List Node} (h : r row row') :
    r (before ++ row) (before ++ row') := by
  induction before with
  | nil => exact h
  | cons n rest ih => exact hr.cons n ih

theorem joinNeighbours {join? : Node → Node → Option Node}
    (h : ∀ a b joined, join? a b = some joined → ∀ rest, r (a :: b :: rest) (joined :: rest))
    (row : List Node) : r row (joinNeighbours join? row) := by
  cases row with
  | nil => exact hr.refl []
  | cons before rest =>
    induction rest generalizing before with
    | nil => exact hr.refl [before]
    | cons n rest ih =>
      simp only [Rewrite.joinNeighbours, Rewrite.joinNeighbours.go] at ih ⊢
      split
      -- What was joined may be joined again, to the statement after it.
      case h_1 joined hjoined => exact hr.trans (h before n joined hjoined rest) (ih joined)
      case h_2 => exact hr.cons before (ih n)

theorem onNeighbours {join? : Node → Node → Option Node}
    (h : ∀ a b joined, join? a b = some joined → ∀ rest, r (a :: b :: rest) (joined :: rest))
    {row row' : List Node} (hrow : onNeighbours join? row = some row') : r row row' := by
  simp only [Rewrite.onNeighbours, Option.ite_none_right_eq_some, Option.some.injEq] at hrow
  obtain ⟨-, rfl⟩ := hrow
  exact hr.joinNeighbours h row

theorem joinReturn
    (h : ∀ a b joined, joinedReturn? a b = some joined → ∀ rest, r (a :: b :: rest) (joined :: rest))
    {row row' : List Node} (hrow : joinReturn? row = some row') : r row row' := by
  fun_induction joinReturn? row generalizing row' with
  | case1 a b rest joined hjoined =>
    cases hrow
    exact h a b joined hjoined rest
  | case2 a b rest hjoined ih =>
    obtain ⟨joined, hrest, rfl⟩ := Option.map_eq_some_iff.1 hrow
    exact hr.cons a (ih hrest)
  | case3 => cases hrow

theorem flatten (h : ∀ n rest, r (n :: rest) ((flattened? n).getD [n] ++ rest)) (row : List Node) :
    r row (row.flatMap fun n => (flattened? n).getD [n]) := by
  induction row with
  | nil => exact hr.refl []
  | cons n rest ih => exact hr.trans (h n rest) (hr.append _ ih)

end RowKept

/-! ## Nodes with rows -/

/-- A row stands in a block, in a program or in a case. -/
theorem statements?_eq_some {n : Node} {row : List Node} (h : statements? n = some row) :
    n.shape = .block row ∨ n.shape = .program row ∨ ∃ test, n.shape = .switchCase test row := by
  obtain ⟨span, shape⟩ := n
  cases shape <;> simp_all [statements?]

/-- A relation between nodes holds of a rule on rows if it holds where the row of a node changes. -/
theorem keeps_onStatements {rule : List Node → Option (List Node)} {r : Node → Node → Prop}
    {rows : List Node → List Node → Prop} (hrule : ∀ row row', rule row = some row' → rows row row')
    (hr : ∀ n row row', statements? n = some row → rows row row' → r n (withStatements n row')) :
    Rule.Keeps (fun _ => onStatements rule) r := by
  intro _ n n' hn
  simp only [onStatements, Option.bind_eq_some_iff, Option.map_eq_some_iff] at hn
  obtain ⟨row, hrow, row', h, rfl⟩ := hn
  exact hr n row row' hrow (hrule row row' h)

end ScriptMin.Rewrite
