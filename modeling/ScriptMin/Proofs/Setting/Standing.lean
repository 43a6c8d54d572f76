import ScriptMin.Proofs.Grammar.Program
import ScriptMin.Proofs.Setting.DirectLabels
import ScriptMin.Proofs.Setting.Rewrite
import ScriptMin.Proofs.Setting.Statement

/-!
# Every program is legal

What a source is read as is legal, and rewriting keeps it so. Each level of nesting is read as what
is legal where it stands because the level below is, and around a program there is nothing. For jumps
and for what is tied to a kind of function, this says in each node of a program what is around it.
-/

namespace ScriptMin

open Grammar Parse Node

namespace Grammar

theorem stands_rules (bound depth : Nat) : (rules bound depth).Stands := by
  induction depth with
  | zero =>
    exact ⟨fun _ _ => .exhausted, fun _ => .exhausted, fun _ _ => .exhausted, fun _ _ => .exhausted⟩
  | succ depth ih =>
    exact ⟨fun e h => stands_expression ih h e, fun h => stands_statement ih h,
      fun kind h => stands_pattern ih h kind, fun t h => stands_construct ih h t⟩

end Grammar

namespace Program

theorem stands_read (mode : Mode) (stop : Nat) {rules : Rules} (hr : rules.Stands) :
    (read mode stop rules).Ensures fun p => p.root.Legal .topLevel := by
  refine .bind (stands_prologue (s := .topLevel) _ _) ?_
  rintro ⟨directives, strict⟩ hdirectives
  refine .bind (.collect (Q := Legal .topLevel) (.bind_any fun _ => ?_) rules.bound)
    fun statements hstatements => .pure (legal_plain rfl ⟨trivial, trivial⟩ ?_)
  · refine .ite (fun _ => .pure nofun) fun _ => ?_
    exact .bind (hr.statement (.topLevel strict)) fun n hn => .pure (by simpa using hn)
  · exact List.forall_mem_append.2 ⟨hdirectives, hstatements⟩

/-- Every node of a program that is read is allowed where it stands. -/
theorem legal_of_parse {mode : Mode} {source : List Char} {p : Program}
    (h : parse mode source = .ok p) : p.root.Legal .topLevel := by
  have hr : (rulesFor source.length).Stands := stands_rules _ _
  have hlegal := ensures_of_readSource h (stands_read mode _ hr)
  exact hlegal

end Program

end ScriptMin

namespace ScriptMin.Program

variable {mode : Mode} {source : List Char} {p : Program}

/-- Jumps have targets. In a program that is read, and however it is rewritten, a `break` or
`continue` with a label stands in a statement of that label, a `continue` in the body of a loop that
the label belongs to; without a label it stands in the body of a loop, or a `break` in a `switch`;
and no label stands within another one of its name: always in the same function. The program is read
by constructs none of which is read in a frame that counts more direct labels than it has: whatever
other rules read there, the program is read alike. -/
theorem jumps_have_targets (h : parse mode source = .ok p) :
    (∀ q ∈ p.root.standing .topLevel, q.1.AllowsJump q.2.shape) ∧
      (∀ (o : RewriteOptions), ∀ q ∈ (p.rewrite o).root.standing .topLevel,
        q.1.AllowsJump q.2.shape) ∧
      ∀ (stop : Nat) (other : Grammar.Rules) (bound depth : Nat),
        read mode stop (Grammar.divertedRules other bound depth) =
          read mode stop (Grammar.rules bound depth) := by
  have hroot := legal_of_parse h
  exact ⟨fun q hq => (hroot q hq).1, fun o q hq => (legal_rewrite hroot o q hq).1,
    fun stop other bound depth => read_divertedRules mode stop other bound depth⟩

/-- A `continue` to the outer label of two before a loop, from within another loop. -/
theorem jumps_have_targets_outer_label :
    ∃ p, parse .global "a:b:for(;;)while(c){switch(d){case 0:break}continue a}".toList = .ok p ∧
      ∃ q ∈ p.root.standing .topLevel, "a" ∈ q.1.loopLabels := by
  have hrun : (parse .global
      "a:b:for(;;)while(c){switch(d){case 0:break}continue a}".toList).toOption.any (fun p =>
        (p.root.standing .topLevel).any fun q => match q.2.shape with
          | .continueStatement label => label == some "a"
          | _ => false) = true := by
    decide +kernel
  obtain ⟨p, hparse, hcheck⟩ := exists_of_parse _ hrun
  obtain ⟨q, hq, hshape⟩ := List.any_eq_true.1 hcheck
  have hjump := (jumps_have_targets hparse).1 q hq
  refine ⟨p, hparse, q, hq, ?_⟩
  split at hshape
  case h_1 label heq =>
    obtain rfl := eq_of_beq hshape
    rw [heq] at hjump
    exact hjump
  case h_2 => cases hshape

/-- What is tied to a kind of function stands in one of that kind. In a program that is read, and
however it is rewritten, a `yield` stands in the body of a generator and not in parameters, an
`await` and a `for await` in an asynchronous function, a `super` in a method, an accessor or a field
with nothing but arrow functions and heads and keys of classes in between, a `new.target` in a
function or in a field, and a `return` in a function: always the nearest one around it. -/
theorem uses_have_functions (h : parse mode source = .ok p) :
    (∀ q ∈ p.root.standing .topLevel, q.1.AllowsUse q.2.shape) ∧
      ∀ (o : RewriteOptions), ∀ q ∈ (p.rewrite o).root.standing .topLevel,
        q.1.AllowsUse q.2.shape := by
  have hroot := legal_of_parse h
  exact ⟨fun q hq => (hroot q hq).2, fun o q hq => (legal_rewrite hroot o q hq).2⟩

/-- A `super` in an arrow function within the head of a class, in a method that is a generator. -/
theorem uses_have_functions_class_head :
    ∃ p, parse .global "({*a(){yield class extends(()=>super.b)(){}}})".toList = .ok p ∧
      ∃ q ∈ p.root.standing .topLevel,
        q.1.inMember ∧ q.1.enclosing = some ⟨false, false, false⟩ := by
  have hrun : (parse .global
      "({*a(){yield class extends(()=>super.b)(){}}})".toList).toOption.any (fun p =>
        (p.root.standing .topLevel).any fun q =>
          (q.2.shape matches .superExpression) && q.1.enclosing == some ⟨false, false, false⟩) =
        true := by
    decide +kernel
  obtain ⟨p, hparse, hcheck⟩ := exists_of_parse _ hrun
  obtain ⟨q, hq, hshape⟩ := List.any_eq_true.1 hcheck
  obtain ⟨hshape, henclosing⟩ := Bool.and_eq_true_iff.1 hshape
  have huse := (uses_have_functions hparse).1 q hq
  refine ⟨p, hparse, q, hq, ?_, eq_of_beq henclosing⟩
  split at hshape
  case h_1 heq =>
    rw [heq] at huse
    exact huse
  case h_2 => cases hshape

end ScriptMin.Program
