import ScriptMin.Grammar.Loop
import ScriptMin.Proofs.Strictness.Expression

/-!
# Variables and loops are read as their frames say

The frame of a loop's body differs from that of the loop, but not in what it says of strictness.
-/

namespace ScriptMin.Grammar

open Parse Node

variable {rules : Rules} (hr : rules.Track)

include hr

/-! ## Declarations of variables -/

/-- A declarator, whose names have passed their check. -/
structure DeclaratorReadAs (strict : Bool) (d : Declarator Node) : Prop where
  names : NamesPass .declaration strict d.pattern
  parts : ∀ c ∈ d.children, c.ReadAs strict

theorem readAs_declarator (f : Frame) (place : VariablesPlace) :
    (declarator rules f place).Ensures fun (d, _) => DeclaratorReadAs f.strict d := by
  refine .bind (hr.pattern f _) fun pattern hpattern => .bind_any fun _ => ?_
  refine .ite (fun _ => .bind (hr.value f _) fun value hvalue => .pure ⟨hpattern.names, ?_⟩)
    fun _ => .pure ⟨hpattern.names, List.forall_mem_singleton.2 hpattern.readAs⟩
  exact List.forall_mem_cons.2 ⟨hpattern.readAs, List.forall_mem_singleton.2 hvalue⟩

theorem readAs_variableDeclaration (f : Frame) (place : VariablesPlace) :
    (variableDeclaration rules f place).Ensures (ReadAs f.strict) := by
  refine .bind_any fun first => ?_
  split
  case h_1 => exact .unexpected
  case h_2 kind _ =>
    refine .bind (.iterate (I := fun read => ∀ d ∈ read, DeclaratorReadAs f.strict d)
      (Q := fun reversed => ∀ d ∈ reversed, DeclaratorReadAs f.strict d)
      (fun read hread => ?_) rules.bound nofun)
      fun reversed hreversed => .pure (.mk ?_ (readAs_each.2 ?_) nofun)
    · refine .bind (readAs_declarator hr f place) ?_
      rintro ⟨d, inserted⟩ (hd : DeclaratorReadAs f.strict d)
      have hread := List.forall_mem_cons.2 ⟨hd, hread⟩
      exact .bind_any fun _ => .ite (fun _ => .pure hread) fun _ => .pure hread
    · exact fun d hd => (hreversed d (List.mem_reverse.1 hd)).names
    · exact List.forall_mem_flatMap.2 fun d hd => (hreversed d (List.mem_reverse.1 hd)).parts

/-! ## Loops -/

/-- What stands first in the head of a loop. -/
def HeadStart.ReadAs (strict : Bool) : HeadStart → Prop
  | .declaration n | .expression n => n.ReadAs strict
  | .nothing => True

theorem readAs_headStart (f : Frame) :
    (headStart rules f).Ensures (HeadStart.ReadAs f.strict) := by
  refine .bind_any fun _ => .ite (fun _ => ?_) fun _ => ?_
  · exact .bind (readAs_variableDeclaration hr f _) fun _ hn => .pure hn
  refine .bind_any fun _ => .ite (fun _ => .pure trivial) fun _ => ?_
  exact .bind (hr.value f _) fun _ hn => .pure hn

omit hr in
theorem readAs_forTarget {strict : Bool} (t : Token) {start : HeadStart}
    (h : start.ReadAs strict) :
    (forTarget t start).Ensures fun target => target.child.ReadAs strict := by
  cases start with
  | nothing => exact .unexpected
  | declaration n =>
    simp only [forTarget]
    split
    · exact .pure h
    · exact .unexpected
  | expression n =>
    exact .bind (.check (Q := Node.ReadAs strict) fun t ht => readAs_assignmentTarget h ht)
      fun target htarget => .pure htarget

/-- The parts of a head. -/
def HeadReadAs (strict : Bool) (head : ForHead Node) : Prop := ∀ c ∈ head.children, c.ReadAs strict

theorem readAs_eachHead (f : Frame) (awaits : Bool) {start : HeadStart}
    (hstart : start.ReadAs f.strict) :
    (eachHead rules f awaits start).Ensures (HeadReadAs f.strict) := by
  refine .bind_any fun t => ?_
  extract_lets isOf
  refine .ite (fun _ => .unexpected) fun _ => ?_
  refine .bind (readAs_forTarget t hstart) fun target htarget => ?_
  extract_lets rest
  have hrest (subject : Node) (hsubject : subject.ReadAs f.strict) :
      (rest subject).Ensures (HeadReadAs f.strict) :=
    .bind_any fun _ => .pure
      (List.forall_mem_cons.2 ⟨htarget, List.forall_mem_singleton.2 hsubject⟩)
  exact .ite (fun _ => .bind (hr.single f _) hrest) fun _ => .bind (hr.whole f _) hrest

theorem readAs_optionalPart (f : Frame) (stop : Punctuator) :
    (optionalPart rules f stop).Ensures fun part => ∀ n ∈ part, n.ReadAs f.strict := by
  refine .bind_any fun _ => .ite (fun _ => .pure nofun) fun _ => ?_
  exact .bind (hr.whole f _) fun value hvalue => .bind_any fun _ => .pure (by simpa using hvalue)

theorem readAs_steppedHead (f : Frame) {start : HeadStart} (hstart : start.ReadAs f.strict) :
    (steppedHead rules f start).Ensures (HeadReadAs f.strict) := by
  refine .bind_any fun _ => ?_
  extract_lets init
  have hinit : ∀ c ∈ init.children, c.ReadAs f.strict := by
    cases start with
    | nothing => exact nofun
    | declaration n | expression n => exact List.forall_mem_singleton.2 hstart
  refine .bind (readAs_optionalPart hr f _) fun condition hcondition => ?_
  refine .bind (readAs_optionalPart hr f _) fun post hpost => .pure ?_
  simpa [HeadReadAs, ForHead.children, or_imp, forall_and, and_assoc] using
    ⟨hinit, hcondition, hpost⟩

theorem readAs_forHead (f : Frame) (awaits : Bool) :
    (forHead rules f awaits).Ensures (HeadReadAs f.strict) := by
  refine .bind_any fun _ => .bind (readAs_headStart hr f) fun start hstart => .bind_any fun t => ?_
  refine .ite (fun _ => readAs_eachHead hr f awaits hstart) fun _ => ?_
  exact .ite (fun _ => .unexpected) fun _ => readAs_steppedHead hr f hstart

theorem readAs_forLoop (f : Frame) : (forLoop rules f).Ensures (ReadAsStatement f.strict) := by
  refine .bind_any fun first => .bind_any fun t => ?_
  extract_lets awaits loop skipped
  have hrest (u : Unit) : (loop u).Ensures (ReadAsStatement f.strict) := by
    refine .bind (readAs_forHead hr f _) fun head hhead => ?_
    refine .bind (hr.statement f.loopBody) fun body hbody => .pure (.uniform rfl nofun ?_)
    exact List.forall_mem_append.2 ⟨hhead, List.forall_mem_singleton.2 hbody.readAs⟩
  refine .ite (fun _ => .ite (fun _ => .bind_unexpected) fun _ => ?_) fun _ => hrest ()
  exact .bind_any hrest

theorem readAs_whileLoop (f : Frame) : (whileLoop rules f).Ensures (ReadAsStatement f.strict) := by
  refine .bind_any fun first => .bind (hr.parenthesised f) fun condition hcondition => ?_
  refine .bind (hr.statement f.loopBody) fun body hbody => .pure (.uniform rfl nofun ?_)
  exact List.forall_mem_cons.2 ⟨hcondition, List.forall_mem_singleton.2 hbody.readAs⟩

theorem readAs_doWhileLoop (f : Frame) :
    (doWhileLoop rules f).Ensures (ReadAsStatement f.strict) := by
  refine .bind_any fun first => .bind (hr.statement f.loopBody) fun body hbody => ?_
  refine .bind_any fun _ => .bind_any fun _ => .bind (hr.whole f _) fun condition hcondition => ?_
  refine .bind_any fun _ => .bind_any fun _ => .pure (.uniform rfl nofun ?_)
  exact List.forall_mem_cons.2 ⟨hbody.readAs, List.forall_mem_singleton.2 hcondition⟩

end ScriptMin.Grammar
