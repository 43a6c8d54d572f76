import ScriptMin.Grammar.Class
import ScriptMin.Proofs.Strictness.Function

/-!
# Classes are read as strict code

All of a class is read in a frame that is strict, whatever the code around it is. Members of object
literals are read like those of classes, in the frame of the literal.
-/

namespace ScriptMin.Grammar

open Parse Node

/-! ## Members -/

/-- The value of a member of code that is strict or not. -/
structure ValueReadAs (strict : Bool) (v : MemberValue Node) : Prop where
  checked : v.Checked strict
  parts : ∀ p ∈ v.readParts strict, p.2.ReadAs p.1

variable {rules : Rules} (hr : rules.Track)

include hr

theorem readAs_getter (f : Frame) : (getter rules f).Ensures (ValueReadAs f.strict) := by
  refine .bind_any fun _ => .bind_any fun _ => ?_
  refine .bind (readAs_functionBody hr (f.method false false)) ?_
  rintro ⟨body, strict⟩ hbody
  exact .pure ⟨trivial, List.forall_mem_singleton.2 hbody.readAs⟩

theorem readAs_setter (f : Frame) : (setter rules f).Ensures (ValueReadAs f.strict) := by
  refine .bind_any fun _ => ?_
  refine .bind (hr.pattern (f.method false false).parameters .parameter) fun parameter hname => ?_
  refine .bind_any fun _ => .bind (readAs_functionBody hr (f.method false false)) ?_
  rintro ⟨body, strict⟩ hbody
  refine .bind (.check fun _ h => h) fun _ hcheck => .pure
    ⟨⟨List.forall_mem_singleton.2 hname.names, List.forall_mem_singleton.2 ?_⟩, ?_⟩
  · rw [hbody.strict] at hcheck
    exact namesPassLate_of_boundNames (passesLate_of_checkParameterNames hcheck)
  · exact List.forall_mem_cons.2 ⟨hname.readAs, List.forall_mem_singleton.2 hbody.readAs⟩

theorem readAs_method (f : Frame) (isAsync generator : Bool) :
    (method rules f isAsync generator).Ensures (ValueReadAs f.strict) :=
  .bind (readAs_functionParts hr f (f.method generator isAsync) rfl _)
    fun _ hparts => .pure ⟨hparts.pass, hparts.readAs⟩

theorem readAs_property (f : Frame) (host : MemberHost) (first : Token) (key : Key Node) :
    (property rules f host first key).Ensures (ValueReadAs f.strict) := by
  have hvalue (r : Reading) (h : r.node.ReadAs f.strict) :
      ValueReadAs f.strict (.property (some r.node)) :=
    ⟨trivial, List.forall_mem_singleton.2 h⟩
  unfold property
  extract_lets bare extent read
  have hbare (u : Unit) : (bare u).Ensures (ValueReadAs f.strict) := .pure ⟨trivial, nofun⟩
  have hread (isBare : Bool) : (read isBare).Ensures (ValueReadAs f.strict) := by
    refine .ite (fun _ => ?_) fun _ => .bind_any fun _ => ?_
    · refine .ite (fun _ => .ite (fun _ => ?_) fun _ => ?_) fun _ => hbare ()
      · exact .bind_any hbare
      · exact .bind_any fun _ => .bind_unexpected
    · cases host with
      | object => exact .bind (hr.value f _) fun r h => .pure (hvalue r h)
      | classBody =>
        exact .bind (hr.value (f.method false false) _) fun r h => .pure (hvalue r h)
  cases key with
  | direct text => exact .bind_any fun t => hread _
  | computed expression => exact hread false

/-- A member: its key and its value. -/
def MemberReadAs (strict : Bool) (m : Key Node × MemberValue Node) : Prop :=
  (∀ c ∈ m.1.children, c.ReadAs strict) ∧ ValueReadAs strict m.2

theorem readAs_member (f : Frame) (host : MemberHost) :
    (member rules f host).Ensures (MemberReadAs f.strict) := by
  refine .bind_any fun modifier => ?_
  extract_lets read
  have hread (u : Unit) : (read u).Ensures (MemberReadAs f.strict) := by
    refine .bind_any fun generator => .bind_any fun first => ?_
    refine .bind (readAs_key hr f) fun key hkey => ?_
    split
    case h_1 => exact .bind (readAs_getter hr f) fun v hv => .pure ⟨hkey, hv⟩
    case h_2 => exact .bind (readAs_setter hr f) fun v hv => .pure ⟨hkey, hv⟩
    case h_3 => exact .bind (readAs_method hr f _ _) fun v hv => .pure ⟨hkey, hv⟩
    case h_4 =>
      extract_lets readValue
      have hvalue (isMethod : Bool) : (readValue isMethod).Ensures (MemberReadAs f.strict) :=
        .ite (fun _ => .bind (readAs_method hr f _ _) fun v hv => .pure ⟨hkey, hv⟩)
          fun _ => .bind (readAs_property hr f _ _ _) fun v hv => .pure ⟨hkey, hv⟩
      exact .ite (fun _ => hvalue true) fun _ => .bind_any hvalue
  refine .ite (fun _ => .bind_any fun _ => .ite (fun _ => ?_) fun _ => hread ()) fun _ => hread ()
  exact .bind_any fun _ => .bind_unexpected

/-! ## Classes -/

theorem readAs_classBody (f : Frame) :
    (classBody rules f).Ensures fun (members, _) =>
      ∀ m ∈ members, MemberReadAs f.strict (m.key, m.value) := by
  refine .bind_any fun _ => ?_
  refine .bind (.iterate (I := fun read => ∀ m ∈ read, MemberReadAs f.strict (m.key, m.value))
    (Q := fun reversed =>
      ∀ m ∈ reversed, MemberReadAs f.strict (ClassMember.key m, ClassMember.value m))
    (fun read hread => ?_) rules.bound nofun)
    fun reversed hreversed => .bind_any fun close => .pure (by simpa using hreversed)
  refine .bind_any fun _ => .ite (fun _ => .pure hread) fun _ => ?_
  refine .bind_any fun _ => .ite (fun _ => .pure hread) fun _ => .bind_any fun isStatic => ?_
  refine .bind (readAs_member hr f .classBody) fun m hm => ?_
  have hread := List.forall_mem_cons (a := ⟨m.1, isStatic, m.2⟩).2 ⟨hm, hread⟩
  exact .bind_any fun _ => .pure hread

/-- A class is read as its frame says if its shape is, made of parts that are strict code. -/
theorem readAs_classFrom (f : Frame) (needsName : Bool)
    {shape : Option Node → Option Node → List (ClassMember Node) → Shape Node} {Q : Node → Prop}
    (h : ∀ span name parent members,
      ((∀ n ∈ name, Defines n (Binding.declaration.Passes true)) ∧
        ∀ m ∈ members, (ClassMember.value m).Checked true) →
      (∀ p ∈ each true name.toList ++ each true parent.toList ++
        members.flatMap fun m => each true m.key.children ++ m.value.readParts true,
        p.2.ReadAs p.1) →
      Q ⟨span, shape name parent members⟩) :
    (classFrom rules f needsName shape).Ensures Q := by
  refine .bind_any fun first => .bind_any fun name => ?_
  extract_lets rest body
  have hrest (hname : ∀ n ∈ name.map definitionNode, Defines n (Binding.declaration.Passes true))
      (parent : Option Node) (hparent : ∀ n ∈ parent, n.ReadAs true) : (rest parent).Ensures Q := by
    refine .bind (readAs_classBody hr f.classBody) ?_
    rintro ⟨members, close⟩ hmembers
    refine .pure (h _ _ _ _ ⟨hname, fun m hm => (hmembers m hm).2.checked⟩ ?_)
    simp only [List.forall_mem_append, List.forall_mem_flatMap, readAs_each, Option.mem_toList]
    refine ⟨⟨?_, hparent⟩, fun m hm => ⟨(hmembers m hm).1, (hmembers m hm).2.parts⟩⟩
    simpa using fun t _ => readAs_definitionNode t
  have hbody (hname : ∀ n ∈ name.map definitionNode, Defines n (Binding.declaration.Passes true))
      (u : Unit) : (body u).Ensures Q := by
    refine .bind_any fun hasParent => ?_
    refine .ite (fun _ => ?_) fun _ => hrest hname none nofun
    refine .bind (hr.whole f.classBody _) fun parent hparent => hrest hname (some parent) ?_
    rintro _ ⟨⟩
    exact hparent
  cases name with
  | some t =>
    refine .bind (.check fun _ h => h) fun _ hcheck => hbody ?_ ()
    rintro _ ⟨⟩ name ⟨⟩
    exact passes_of_checkBinding hcheck
  | none =>
    refine .ite (fun _ => ?_) fun _ => hbody nofun ()
    exact .bind_any fun _ => .bind_unexpected

theorem readAs_classExpression (f : Frame) :
    (classExpression rules f).Ensures (ReadAs f.strict) :=
  readAs_classFrom hr f _ fun _ _ _ _ hchecked hparts => .mk hchecked hparts nofun

theorem readAs_classDeclaration (f : Frame) (needsName : Bool) :
    (classDeclaration rules f needsName).Ensures (ReadAsStatement f.strict) :=
  readAs_classFrom hr f _ fun _ _ _ _ hchecked hparts => ⟨.mk hchecked hparts nofun, nofun⟩

end ScriptMin.Grammar
