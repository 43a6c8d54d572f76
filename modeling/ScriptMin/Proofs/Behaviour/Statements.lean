import ScriptMin.Proofs.Behaviour.Rows
import ScriptMin.Rewrite.Reachability

/-!
# Rules on single statements

The braces around a statement do not matter, nor does the condition of a loop that is known to be
true, nor `debugger`.
-/

namespace ScriptMin.Behaviour

open Rewrite

variable {w : World} {drops : Bool}

/-- A statement is given in the place of another one if it does the same. -/
theorem preserves_of_isStatement {n n' : Node} (h : isStatement n.shape) (h' : isStatement n'.shape)
    (hmeaning : meaning w n' = meaning w n)
    (hbodies : Within drops (bodySenses w n') (bodySenses w n)) : Preserves w drops n n' :=
  ⟨by rw [outline_eq_blank h, outline_eq_blank h'], hmeaning, hbodies⟩

theorem keeps_dropDebugger : Rule.Keeps dropDebugger (Preserves w drops) := by
  intro _ n n' h
  obtain ⟨span, rfl, rfl⟩ := dropDebugger_eq_some h
  refine preserves_of_isStatement rfl rfl ?_ (.of_eq rfl)
  rw [meaning_eq, meaning_eq]
  rfl

/-! ## Braces -/

/-- A statement without its braces runs as it did. -/
theorem run_unwrapped {beforeElse : Bool} {n statement : Node}
    (h : unwrapped? beforeElse n = some statement) (labels : List String) :
    (meaning w statement).run labels = (meaning w n).run labels := by
  obtain ⟨span, shape⟩ := n
  unfold unwrapped? at h
  split at h
  case h_1 only hshape =>
    cases hshape
    simp only [Option.ite_none_left_eq_some, Option.some.injEq] at h
    obtain ⟨-, rfl⟩ := h
    simp [Meaning.statement, runAll]
  case h_2 => cases h

theorem bodySenses_unwrapped {beforeElse : Bool} {n statement : Node}
    (h : unwrapped? beforeElse n = some statement) :
    bodySenses w statement = bodySenses w n := by
  obtain ⟨span, shape⟩ := n
  unfold unwrapped? at h
  split at h
  case h_1 only hshape =>
    cases hshape
    simp only [Option.ite_none_left_eq_some, Option.some.injEq] at h
    obtain ⟨-, rfl⟩ := h
    simp [bodySenses_mk, Shape.bodies, Shape.children]
  case h_2 => cases h

/-- The same where the braces stay if they have to. -/
theorem run_unwrapped_getD (beforeElse : Bool) (n : Node) (labels : List String) :
    (meaning w ((unwrapped? beforeElse n).getD n)).run labels =
      (meaning w n).run labels := by
  cases h : unwrapped? beforeElse n with
  | none => rfl
  | some statement => exact run_unwrapped h labels

theorem bodySenses_unwrapped_getD (beforeElse : Bool) (n : Node) :
    bodySenses w ((unwrapped? beforeElse n).getD n) = bodySenses w n := by
  cases h : unwrapped? beforeElse n with
  | none => rfl
  | some statement => exact bodySenses_unwrapped h

theorem keeps_unwrapBlocks : Rule.Keeps unwrapBlocks (Preserves w drops) := by
  intro _ n n' h
  obtain ⟨span, shape⟩ := n
  simp only [unwrapBlocks, Option.map_eq_some_iff] at h
  obtain ⟨shape', hshape, rfl⟩ := h
  cases shape <;> simp only [bodyUnwrapped?, reduceCtorEq, Option.map_eq_some_iff] at hshape
  case ifStatement test consequent alternate =>
    obtain ⟨-, hshape⟩ := Option.ite_none_right_eq_some.1 hshape
    cases hshape
    refine preserves_of_isStatement rfl rfl ?_ (.of_eq ?_)
    · cases alternate <;> simp [Node.withShape, run_unwrapped_getD]
    · cases alternate <;>
        simp [Node.withShape, bodySenses_mk, Shape.bodies, Shape.children,
          bodySenses_unwrapped_getD]
  -- The other statements hold one body each.
  all_goals
    obtain ⟨statement, hstatement, rfl⟩ := hshape
    have hrun := run_unwrapped (w := w) hstatement
    have hbodies := bodySenses_unwrapped (w := w) hstatement
    refine preserves_of_isStatement rfl rfl ?_ (.of_eq ?_)
    · simp only [Node.withShape, meaning_whileLoop, meaning_doWhileLoop, meaning_forLoop,
        meaning_withStatement, meaning_labelledStatement, hrun]
    · simp only [Node.withShape, bodySenses_mk, Shape.bodies, Shape.children, List.map_append,
        List.map_cons, hbodies]

/-! ## Loops -/

/-- A function in the condition is dropped with it. -/
theorem keeps_loopForever (hw : w.HidesPure) : Rule.Keeps loopForever (Preserves w true) := by
  intro _ n n' h
  obtain ⟨span, condition, body, rfl, htrue, rfl⟩ |
    ⟨span, init, condition, post, body, rfl, htrue, rfl⟩ := loopForever_eq_some h
  · refine preserves_of_isStatement rfl rfl ?_ (.of_le ?_)
    · simp [loopRun, initRun, ForHead.map, ForInit.map, holds_of_truth hw htrue]
    · calc bodySenses w ⟨span, .forLoop (.stepped .none none none) body⟩
        _ = bodySenses w body := by
          simp [bodySenses_mk, Shape.bodies, Shape.children, ForHead.children, ForInit.children]
        _ ≤ bodySenses w condition + bodySenses w body := Multiset.le_add_left _ _
        _ = bodySenses w ⟨span, .whileLoop condition body⟩ := by
          simp [bodySenses_mk, Shape.bodies, Shape.children]
  · refine preserves_of_isStatement rfl rfl ?_ (.of_le ?_)
    · simp [loopRun, ForHead.map, holds_of_truth hw htrue]
    · -- What the head holds besides the condition is put aside.
      have hbodies (c : Option Node) :
          bodySenses w ⟨span, .forLoop (.stepped init c post) body⟩ =
            (c.toList.map (bodySenses w)).sum + ((init.children.map (bodySenses w)).sum +
              (post.toList.map (bodySenses w)).sum + bodySenses w body) := by
        simp only [bodySenses_mk, Shape.bodies, Shape.children, ForHead.children, List.map_append,
          List.sum_append, List.map_cons, List.map_nil, List.sum_cons, List.sum_nil,
          Multiset.coe_nil, zero_add, add_zero]
        ac_rfl
      calc bodySenses w ⟨span, .forLoop (.stepped init none post) body⟩
        _ = 0 + _ := hbodies none
        _ ≤ ([condition].map (bodySenses w)).sum + _ := add_le_add (Multiset.zero_le _) le_rfl
        _ = bodySenses w ⟨span, .forLoop (.stepped init (some condition) post) body⟩ :=
          (hbodies (some condition)).symm

end ScriptMin.Behaviour
