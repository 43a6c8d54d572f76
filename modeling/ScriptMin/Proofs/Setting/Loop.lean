import ScriptMin.Grammar.Loop
import ScriptMin.Proofs.Setting.Expression

/-!
# Loops are legal where they stand

Declarations of variables and loops. The body of a loop is read in a frame of its own, and stands in
a setting of its own. A loop that awaits its elements is read only where the frame grants it.
-/

namespace ScriptMin.Grammar

open Parse Node

variable {rules : Rules} {f : Frame} {s : Setting}

variable (hr : rules.Stands)

include hr

/-! ## Declarations of variables -/

theorem stands_declarator (h : Admits s f) (place : VariablesPlace) :
    (declarator rules f place).Ensures fun (d, _) => ∀ c ∈ d.children, c.Legal s.inner := by
  refine .bind (hr.pattern _ h) fun pattern hpattern => .bind_any fun _ => ?_
  refine .ite (fun _ => .bind (hr.expression _ h) fun value hvalue => .pure ?_) fun _ => ?_
  · simpa [Declarator.children] using ⟨hpattern, hvalue⟩
  · exact .pure (List.forall_mem_singleton.2 hpattern)

theorem stands_variableDeclaration (h : Admits s f) (place : VariablesPlace) :
    (variableDeclaration rules f place).Ensures (Legal s.inner) := by
  refine .bind_any fun first => ?_
  split
  case h_1 => exact .unexpected
  case h_2 kind _ =>
    refine .bind (.iterate
      (I := fun read => ∀ d ∈ read, ∀ c ∈ Declarator.children d, Legal s.inner c)
      (Q := fun reversed => ∀ d ∈ reversed, ∀ c ∈ Declarator.children d, Legal s.inner c)
      (fun read hread => ?_) rules.bound nofun)
      fun reversed hreversed => .pure (legal_plain rfl ⟨trivial, trivial⟩ ?_)
    · refine .bind (stands_declarator hr h place) ?_
      rintro ⟨d, inserted⟩ hd
      have hread := List.forall_mem_cons
        (p := fun d => ∀ c ∈ Declarator.children d, Legal s.inner c).2 ⟨hd, hread⟩
      exact .bind_any fun _ => .ite (fun _ => .pure hread) fun _ => .pure hread
    · exact List.forall_mem_flatMap.2 fun d hd => hreversed d (List.mem_reverse.1 hd)

/-! ## Loops -/

/-- What stands first in the head of a loop is legal there. -/
def HeadStart.Stands (s : Setting) : HeadStart → Prop
  | .declaration n | .expression n => n.Legal s
  | .nothing => True

theorem stands_headStart (h : Admits s f) :
    (headStart rules f).Ensures (HeadStart.Stands s.inner) := by
  refine .bind_any fun _ => .ite (fun _ => ?_) fun _ => ?_
  · exact .bind (stands_variableDeclaration hr h _) fun _ hn => .pure hn
  refine .bind_any fun _ => .ite (fun _ => .pure trivial) fun _ => ?_
  exact .bind (hr.expression _ h) fun _ hn => .pure hn

omit hr in
theorem stands_forTarget (t : Token) {start : HeadStart} (h : start.Stands s.inner) :
    (forTarget t start).Ensures fun target => target.child.Legal s.inner := by
  cases start with
  | nothing => exact .unexpected
  | declaration n =>
    simp only [forTarget]
    split
    · exact .pure h
    · exact .unexpected
  | expression n =>
    exact .bind (.check (Q := Legal s.inner) fun t ht => legal_assignmentTarget h ht)
      fun target htarget => .pure htarget

/-- The parts of a head are legal, and it awaits its elements only where that was asked for. -/
structure HeadStands (s : Setting) (awaits : Bool) (head : ForHead Node) : Prop where
  children : ∀ c ∈ head.children, c.Legal s.inner
  awaits : ∀ isOf target subject, head = .each isOf true target subject → awaits = true

omit hr in
theorem HeadStands.legal {awaits : Bool} {head : ForHead Node} {body : Node} {span : Source.Span}
    (h : HeadStands s awaits head) (hawaits : awaits → ∃ e ∈ s.enclosing, e.isAsync)
    (hbody : body.Legal s.loopBody) : Legal s ⟨span, .forLoop head body⟩ := by
  refine legal_mk ⟨trivial, ?_⟩ ?_
  · show s.AllowsUse (.forLoop head body)
    unfold Setting.AllowsUse
    split
    -- only a loop that awaits its elements asks for something
    case h_3 hshape =>
      cases hshape
      exact hawaits (h.awaits _ _ _ rfl)
    case h_7 => trivial
    all_goals rename_i hshape; cases hshape
  · exact settled_append.2 ⟨settled_each.2 h.children, settled_cons.2 ⟨hbody, settled_nil⟩⟩

theorem stands_eachHead (h : Admits s f) (awaits : Bool) {start : HeadStart}
    (hstart : start.Stands s.inner) :
    (eachHead rules f awaits start).Ensures (HeadStands s awaits) := by
  refine .bind_any fun t => ?_
  extract_lets isOf
  refine .ite (fun _ => .unexpected) fun _ => ?_
  refine .bind (stands_forTarget t hstart) fun target htarget => ?_
  extract_lets rest
  have hrest (subject : Node) (hsubject : subject.Legal s.inner) :
      (rest subject).Ensures (HeadStands s awaits) := by
    refine .bind_any fun _ => .pure ⟨?_, ?_⟩
    · exact List.forall_mem_cons.2 ⟨htarget, List.forall_mem_singleton.2 hsubject⟩
    · intro _ _ _ heach
      cases heach
      rfl
  exact .ite (fun _ => .bind (hr.single h _) hrest) fun _ => .bind (hr.whole h _) hrest

theorem stands_optionalPart (h : Admits s f) (stop : Punctuator) :
    (optionalPart rules f stop).Ensures fun part => ∀ n ∈ part, n.Legal s.inner := by
  refine .bind_any fun _ => .ite (fun _ => .pure nofun) fun _ => ?_
  exact .bind (hr.whole h _) fun value hvalue => .bind_any fun _ => .pure (by simpa using hvalue)

theorem stands_steppedHead (h : Admits s f) (awaits : Bool) {start : HeadStart}
    (hstart : start.Stands s.inner) :
    (steppedHead rules f start).Ensures (HeadStands s awaits) := by
  refine .bind_any fun _ => ?_
  extract_lets init
  have hinit : ∀ c ∈ init.children, c.Legal s.inner := by
    cases start with
    | nothing => exact nofun
    | declaration n | expression n => exact List.forall_mem_singleton.2 hstart
  refine .bind (stands_optionalPart hr h _) fun condition hcondition => ?_
  refine .bind (stands_optionalPart hr h _) fun post hpost => .pure ⟨?_, nofun⟩
  simpa [ForHead.children, or_imp, forall_and, and_assoc] using ⟨hinit, hcondition, hpost⟩

theorem stands_forHead (h : Admits s f) (awaits : Bool) :
    (forHead rules f awaits).Ensures (HeadStands s awaits) := by
  refine .bind_any fun _ => .bind (stands_headStart hr h) fun start hstart => .bind_any fun t => ?_
  refine .ite (fun _ => stands_eachHead hr h awaits hstart) fun _ => ?_
  exact .ite (fun _ => .unexpected) fun _ => stands_steppedHead hr h awaits hstart

variable (h : Admits s f) (hloop : Hosts s.loopBody f.loopBody)

include h hloop

theorem stands_forLoop : (forLoop rules f).Ensures (Legal s) := by
  refine .bind_any fun first => .bind_any fun t => ?_
  extract_lets awaits loop skipped
  have hrest (u : Unit) (hasync : awaits → f.isAsync) : (loop u).Ensures (Legal s) := by
    refine .bind (stands_forHead hr h _) fun head hhead => ?_
    refine .bind (hr.statement hloop) fun body hbody => .pure ?_
    exact hhead.legal (fun hawaits => h.isAsync (hasync hawaits)) hbody
  refine .ite (fun _ => .ite (fun _ => .bind_unexpected) fun hasync => ?_) fun hnot => ?_
  · exact .bind_any fun u => hrest u fun _ => by simpa using hasync
  · exact hrest () fun hawaits => absurd hawaits hnot

theorem stands_whileLoop : (whileLoop rules f).Ensures (Legal s) := by
  refine .bind_any fun first => .bind (hr.parenthesised h) fun condition hcondition => ?_
  refine .bind (hr.statement hloop) fun body hbody => .pure (legal_mk ⟨trivial, trivial⟩ ?_)
  exact settled_cons.2 ⟨hcondition, settled_cons.2 ⟨hbody, settled_nil⟩⟩

theorem stands_doWhileLoop : (doWhileLoop rules f).Ensures (Legal s) := by
  refine .bind_any fun first => .bind (hr.statement hloop) fun body hbody => ?_
  refine .bind_any fun _ => .bind_any fun _ => .bind (hr.whole h _) fun condition hcondition => ?_
  refine .bind_any fun _ => .bind_any fun _ => .pure (legal_mk ⟨trivial, trivial⟩ ?_)
  exact settled_cons.2 ⟨hbody, settled_cons.2 ⟨hcondition, settled_nil⟩⟩

end ScriptMin.Grammar
