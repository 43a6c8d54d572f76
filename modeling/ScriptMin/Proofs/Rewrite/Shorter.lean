import ScriptMin.Proofs.Grammar.Program
import ScriptMin.Proofs.Rewrite.ShorterReturns
import ScriptMin.Proofs.Rewrite.ShorterStatements

/-!
# Rules that make no text longer

Where no rule respells, folds, moves or drops an expression, the compact text of a program gets no
longer. Each rule of the other kind may put an expression where it needs parentheses or a blank that
it did not need before.

The proof goes bottom up. `Pen.Below` compares two pens, `Shrinks` what two layouts write behind
every pen, and `Tightens` two nodes in every place of a tree. A node inherits it from its children
(`kept_tightens`), each rule here keeps it (`tightens_of_mem_rules`), and so do all passes over a
program.
-/

namespace ScriptMin

open Rewrite Layout

/-- Whether options leave expressions as they are spelled, folded, ordered and joined. -/
def RewriteOptions.leavesExpressions (o : RewriteOptions) : Bool :=
  !(o.sequences || o.undefinedToVoid || o.evaluate || o.sideEffects || o.deadCode ||
    o.conditionals || o.properties)

theorem tightens_of_mem_rules {o : RewriteOptions} (h : o.leavesExpressions) (rule : Rule)
    (hrule : rule ∈ o.rules) : rule.Keeps Tightens := by
  simp only [RewriteOptions.leavesExpressions, Bool.not_eq_true', Bool.or_eq_false_iff] at h
  obtain ⟨⟨⟨⟨⟨⟨hsequences, hundefined⟩, hevaluate⟩, heffects⟩, hdead⟩, hconditionals⟩,
    hproperties⟩ := h
  obtain ⟨-, rfl⟩ | ⟨h, -⟩ | ⟨h, -⟩ | ⟨-, rfl⟩ | ⟨h, -⟩ | ⟨h, -⟩ | ⟨h, -⟩ | ⟨h, -⟩ | ⟨h, -⟩ |
    ⟨-, rfl⟩ | ⟨-, rfl⟩ | ⟨-, rfl⟩ | ⟨-, rfl⟩ | ⟨-, rfl⟩ | ⟨h, -⟩ | ⟨h, -⟩ := mem_rules hrule
  · exact keeps_tightens_dropDebugger
  · simp [hdead] at h
  · simp [hdead] at h
  · exact keeps_tightens_shortenYield
  · simp [hundefined] at h
  · simp [hevaluate] at h
  · simp [heffects] at h
  · simp [hproperties] at h
  · simp [hproperties] at h
  · exact keeps_tightens_flattenBlocks
  · exact keeps_tightens_unwrapBlocks
  · exact keeps_tightens_joinVariables
  · exact keeps_tightens_loopForever
  · exact keeps_tightens_returnChoice
  · simp [hconditionals] at h
  · simp [hsequences] at h

/-- Where expressions are left as they are, the compact text of a program gets no longer. -/
theorem Program.length_print_rewrite_le (o : RewriteOptions) (h : o.leavesExpressions)
    (p : Program) : ((p.rewrite o).print .compact).length ≤ (p.print .compact).length := by
  have htightens : Tightens p.root (p.rewrite o).root :=
    kept_tightens.passes (tightens_of_mem_rules h) o.passLimit p.root
  exact htightens.plain.length_render_le

/-- The rules that leave expressions as they are. -/
def RewriteOptions.onStatements : RewriteOptions :=
  { RewriteOptions.all with
    sequences := false, undefinedToVoid := false, evaluate := false, sideEffects := false
    deadCode := false, conditionals := false, properties := false }

/-- A function where most of these rules apply. -/
theorem length_print_rewrite_le_function :
    ∃ p, Program.parse .global
        "function f(){while(true){debugger;var a;var b}if(!a)return b;return c}".toList = .ok p ∧
      RewriteOptions.onStatements.leavesExpressions ∧
      (p.rewrite .onStatements).print .compact =
        "function f(){for(;;)var a,b;return a?c:b}".toList ∧
      ((p.rewrite .onStatements).print .compact).length ≤ (p.print .compact).length := by
  have hrun : (Program.parse .global
      "function f(){while(true){debugger;var a;var b}if(!a)return b;return c}".toList
      ).toOption.any (fun p => (p.rewrite .onStatements).print .compact ==
        "function f(){for(;;)var a,b;return a?c:b}".toList) = true := by decide +kernel
  obtain ⟨p, hparse, hprint⟩ := Program.exists_of_parse _ hrun
  exact ⟨p, hparse, rfl, beq_iff_eq.1 hprint, Program.length_print_rewrite_le _ rfl p⟩

/-- An assignment that guards another one needs parentheses. -/
example :
    (Program.parse .global "if(a=b)c=d".toList).toOption.map (fun p =>
      (p.rewrite { RewriteOptions.none with conditionals := true }).print .compact) =
    some "(a=b)&&(c=d)".toList := by decide +kernel

/-- The operator `in` needs parentheses where a loop takes it in. -/
example :
    (Program.parse .global "a in b;for(;;)c()".toList).toOption.map (fun p =>
      (p.rewrite { RewriteOptions.none with sequences := true }).print .compact) =
    some "for((a in b);;)c()".toList := by decide +kernel

/-- A word needs a blank behind a number. -/
example :
    (Program.parse .global "x=void\"\"in a".toList).toOption.map (fun p =>
      (p.rewrite { RewriteOptions.none with undefinedToVoid := true }).print .compact) =
    some "x=void 0 in a".toList := by decide +kernel

end ScriptMin
