import ScriptMin.Minify
import ScriptMin.Proofs.Behaviour.Branches

/-!
# Rewriting control flow keeps behaviour

A program and each function in it log the same actions and end in the same way after the rules for
control flow have rewritten it, whatever the actions do.
-/

namespace ScriptMin

open Behaviour Rewrite

/-- Only rules for control flow are enabled. -/
structure RewriteOptions.IsControlFlow (o : RewriteOptions) : Prop where
  yieldUndefined : o.yieldUndefined = false
  undefinedToVoid : o.undefinedToVoid = false
  evaluate : o.evaluate = false
  sideEffects : o.sideEffects = false
  deadCode : o.deadCode = false
  properties : o.properties = false

/-- All rules for control flow. -/
def RewriteOptions.controlFlow : RewriteOptions :=
  { RewriteOptions.none with
    sequences := true, dropDebugger := true, conditionals := true, ifReturn := true, joinVars := true,
    loops := true, blocks := true }

theorem RewriteOptions.isControlFlow_controlFlow : RewriteOptions.controlFlow.IsControlFlow :=
  ⟨rfl, rfl, rfl, rfl, rfl, rfl⟩

namespace Behaviour

/-- Each of the rules keeps meanings. Only a loop rule drops functions. -/
theorem keeps_of_isControlFlow {o : RewriteOptions} (ho : o.IsControlFlow) {w : World}
    (hw : o.loops → w.HidesPure) :
    ∀ rule ∈ o.rules, rule.Keeps (Preserves w o.loops) := by
  obtain ⟨hyield, hundefined, hevaluate, heffects, hdead, hproperties⟩ := ho
  intro rule h
  have h := mem_rules h
  simp only [hyield, hundefined, hevaluate, heffects, hdead, hproperties, Bool.false_eq_true,
    false_and, false_or] at h
  obtain ⟨-, rfl⟩ | ⟨-, rfl⟩ | ⟨-, rfl⟩ | ⟨-, rfl⟩ | ⟨hloops, rfl⟩ | ⟨-, rfl⟩ | ⟨-, rfl⟩ | ⟨-, rfl⟩ := h
  · exact keeps_dropDebugger
  · exact keeps_flattenBlocks
  · exact keeps_unwrapBlocks
  · exact keeps_joinVariables
  · rw [hloops]
    exact keeps_loopForever (hw hloops)
  · exact keeps_returnChoice
  · exact keeps_ifToExpression
  · exact keeps_joinExpressions

end Behaviour

/-- A program whose control flow is rewritten runs as it did in every world: it logs the same actions
in the same order and ends in the same way. Each function body in it is one that was there before,
at the same place and running as it did. Conditions of endless loops are dropped, with the functions
in them; for this a world must not tell whether a pure expression is evaluated. -/
theorem Program.run_rewrite (o : RewriteOptions) (ho : o.IsControlFlow) (p : Program) (w : World)
    (hw : o.loops → w.HidesPure) :
    (meaning w (p.rewrite o).root).run [] = (meaning w p.root).run [] ∧
      bodySenses w (p.rewrite o).root ≤ bodySenses w p.root ∧
      (o.loops = false → bodySenses w (p.rewrite o).root = bodySenses w p.root) := by
  have h := (kept_preserves w o.loops).passes (keeps_of_isControlFlow ho hw) o.passLimit p.root
  exact ⟨by rw [Program.rewrite, h.meaning], h.bodies.le, h.bodies.eq⟩

namespace Behaviour

/-- A world whose answers do not depend on what came before. -/
def steadyWorld (isSilent : Node → Bool) (perform : Action → Outcome) : World where
  perform _ := perform
  identity _ _ := 0
  isSilent
  unseen _ _ := .undefined
  same _ _ := false

end Behaviour

/-- A program with a choice and an endless loop, in a world where every action throws. -/
theorem run_rewrite_choice_then_loop :
    ∃ p, Program.parse .global "{debugger;a()}if(!b)c();else{d()}while(!\"\")f()".toList = .ok p ∧
      (p.rewrite .controlFlow).print .compact = "for(a(),b?d():c();;)f()".toList ∧
      (meaning (steadyWorld isPure fun _ => .throws .undefined) (p.rewrite .controlFlow).root).run []
        = (meaning (steadyWorld isPure fun _ => .throws .undefined) p.root).run [] := by
  have hprint : (match Program.parse .global
        "{debugger;a()}if(!b)c();else{d()}while(!\"\")f()".toList with
      | .ok p => (p.rewrite .controlFlow).print .compact == "for(a(),b?d():c();;)f()".toList
      | .error _ => false) = true := by decide +kernel
  split at hprint
  case h_1 p hparse =>
    exact ⟨p, hparse, beq_iff_eq.1 hprint,
      (Program.run_rewrite .controlFlow RewriteOptions.isControlFlow_controlFlow p _
        fun _ _ h => h).1⟩
  case h_2 => cases hprint

/-! ## A world that tells

`!void ""` is known to be true, since nobody can tell whether `void ""` is evaluated. Where it is an
action like any other, dropping it from the condition of a loop changes what is logged. -/

namespace Behaviour

/-- Whether a tree is that of `while (!void "") f()`, with any names and texts. -/
def isLoopOverVoid : Node → Bool
  | ⟨_, .program [⟨_, .whileLoop
      ⟨_, .unary .logicalNot ⟨_, .unary .void ⟨_, .stringLiteral _ none⟩⟩⟩
      ⟨_, .expressionStatement ⟨_, .call _ _ ⟨_, .identifier _⟩ []⟩⟩⟩]⟩ => true
  | _ => false

/-- Whether a tree is that of `for (;;) f()`, with any name. -/
def isEndlessCall : Node → Bool
  | ⟨_, .program [⟨_, .forLoop (.stepped .none none none)
      ⟨_, .expressionStatement ⟨_, .call _ _ ⟨_, .identifier _⟩ []⟩⟩⟩]⟩ => true
  | _ => false

/-- A world in which all actions are seen. Operators give `true`, and anything else throws. -/
def tellingWorld : World :=
  steadyWorld (fun _ => false) fun
    | .evaluate ⟨_, .unary ..⟩ => .returns (.boolean true)
    | _ => .throws .undefined

/-- The condition is false at once. -/
theorem run_of_isLoopOverVoid {n : Node} (h : isLoopOverVoid n) :
    ((meaning tellingWorld n).run [] []).map (·.1) = some (.ok ()) := by
  unfold isLoopOverVoid at h
  split at h
  case h_1 =>
    rw [meaning_program]
    simp only [List.map, meaning_whileLoop, Meaning.statement, runAll, List.forM_cons]
    -- One test decides, so the loop is unfolded once.
    rw [Run.loop]
    rfl
  case h_2 => cases h

/-- The call is made, and throws. -/
theorem run_of_isEndlessCall {n : Node} (h : isEndlessCall n) :
    ((meaning tellingWorld n).run [] []).map (·.1) = some (.error (.thrown .undefined)) := by
  unfold isEndlessCall at h
  split at h
  case h_1 =>
    rw [meaning_program]
    simp only [List.map, meaning_forLoop, Meaning.statement, runAll, List.forM_cons, loopRun,
      ForHead.map, Option.map_none, Option.elim_none]
    rw [Run.loop]
    rfl
  case h_2 => cases h

end Behaviour

/-- Where everything but literals, functions and the operators between them is seen, not even whole
programs run as they did. -/
theorem not_run_rewrite_of_all_seen :
    ¬ ∀ (o : RewriteOptions) (source : List Char) (p : Program), o.IsControlFlow →
      Program.parse .global source = .ok p → ∀ w : World, (∀ n, w.isSilent n = false) →
      (meaning w (p.rewrite o).root).run [] = (meaning w p.root).run [] := by
  intro h
  have hshapes : (match Program.parse .global "while(!void\"\")f()".toList with
      | .ok p => isLoopOverVoid p.root && isEndlessCall (p.rewrite .controlFlow).root
      | .error _ => false) = true := by decide +kernel
  split at hshapes
  case h_1 p hparse =>
    obtain ⟨hbefore, hafter⟩ := Bool.and_eq_true_iff.1 hshapes
    have hrun := h .controlFlow _ p RewriteOptions.isControlFlow_controlFlow hparse tellingWorld
      fun _ => rfl
    have hend := run_of_isEndlessCall hafter
    rw [hrun, run_of_isLoopOverVoid hbefore] at hend
    cases hend
  case h_2 => cases hshapes

end ScriptMin
