import ScriptMin.Proofs.Layout.Tightens
import ScriptMin.Proofs.Tree.Map

/-!
# Layouts over children that are written in no more text

Each piece of a layout shrinks if the children in it are exchanged for what they can stand for. The
children stand in pairs, each with what takes its place.
-/

namespace ScriptMin

open Layout Node

/-- Each first node can be exchanged for the second one. -/
def AllTighten (ps : List (Node × Node)) : Prop := ∀ p ∈ ps, Tightens p.1 p.2

namespace AllTighten

variable {p : Node × Node} {ps qs : List (Node × Node)}

theorem nil : AllTighten [] := nofun

theorem cons_iff : AllTighten (p :: ps) ↔ Tightens p.1 p.2 ∧ AllTighten ps :=
  List.forall_mem_cons

theorem append_iff : AllTighten (ps ++ qs) ↔ AllTighten ps ∧ AllTighten qs :=
  List.forall_mem_append

theorem head (h : AllTighten (p :: ps)) : Tightens p.1 p.2 := (cons_iff.1 h).1

theorem tail (h : AllTighten (p :: ps)) : AllTighten ps := (cons_iff.1 h).2

theorem left (h : AllTighten (ps ++ qs)) : AllTighten ps := (append_iff.1 h).1

theorem right (h : AllTighten (ps ++ qs)) : AllTighten qs := (append_iff.1 h).2

theorem part {α : Type} {xs : List α} {children : α → List (Node × Node)}
    (h : AllTighten (xs.flatMap children)) {x : α} (hx : x ∈ xs) : AllTighten (children x) :=
  fun p hp => h p (List.mem_flatMap.2 ⟨x, hx, hp⟩)

end AllTighten

namespace Layout

/-- The children of a shape before they are exchanged. -/
def first (p : Node × Node) : Child := p.1.child

/-- The children of a shape after they are exchanged. -/
def second (p : Node × Node) : Child := p.2.child

theorem map_first (ps : List (Node × Node)) :
    ps.map first = (ps.map Prod.fst).map Node.child := List.map_map.symm

theorem map_second (ps : List (Node × Node)) :
    ps.map second = (ps.map Prod.snd).map Node.child := List.map_map.symm

variable {α : Type}

/-! ### Lists and options -/

theorem shrinks_optional {o : Option (Node × Node)} {f : Child → Layout} (h : AllTighten o.toList)
    (hf : ∀ {n n' : Node}, Tightens n n' → Shrinks (f n.child) (f n'.child)) :
    Shrinks (optional f (o.map first)) (optional f (o.map second)) := by
  cases o with
  | none => exact .refl _
  | some p => exact hf h.head

theorem shrinks_flatMap {xs : List α} {f g : α → Layout} (h : ∀ x ∈ xs, Shrinks (f x) (g x)) :
    Shrinks (xs.flatMap f) (xs.flatMap g) := by
  induction xs with
  | nil => exact .refl _
  | cons x rest ih =>
    rw [List.forall_mem_cons] at h
    exact h.1.append (ih h.2)

theorem shrinks_intercalate {l : Layout} {xs : List α} {f g : α → Layout}
    (h : ∀ x ∈ xs, Shrinks (f x) (g x)) :
    Shrinks (l.intercalate (xs.map f)) (l.intercalate (xs.map g)) := by
  induction xs with
  | nil => exact .refl _
  | cons x rest ih =>
    rw [List.forall_mem_cons] at h
    cases rest with
    | nil => simpa [List.intercalate] using h.1
    | cons y rest =>
      simp only [List.map_cons, List.intercalate_cons_cons] at ih ⊢
      exact (h.1.append (.refl _)).append (ih h.2)

/-- Elements with commas between them. -/
theorem shrinks_list {xs : List α} {f g : α → Layout} (h : ∀ x ∈ xs, Shrinks (f x) (g x)) :
    Shrinks (list (xs.map f)) (list (xs.map g)) :=
  shrinks_intercalate h

theorem list_append (xs ys : List Layout) (hxs : xs ≠ []) (hys : ys ≠ []) :
    list (xs ++ ys) = list xs ++ comma ++ list ys := by
  induction xs with
  | nil => exact absurd rfl hxs
  | cons x rest ih =>
    obtain ⟨y, ys, rfl⟩ := List.exists_cons_of_ne_nil hys
    cases rest with
    | nil => simp [list, List.intercalate_cons_cons]
    | cons z rest =>
      have ih := ih (List.cons_ne_nil _ _)
      simp only [list, List.cons_append, List.intercalate_cons_cons] at ih ⊢
      rw [ih]
      simp only [List.append_assoc]

/-- Children with commas between them. -/
theorem shrinks_children {ps : List (Node × Node)} {f : Child → Layout} (h : AllTighten ps)
    (hf : ∀ {n n' : Node}, Tightens n n' → Shrinks (f n.child) (f n'.child)) :
    Shrinks (list ((ps.map first).map f)) (list ((ps.map second).map f)) := by
  rw [List.map_map, List.map_map]
  exact shrinks_list fun p hp => hf (h p hp)

theorem Shrinks.between {l l' : Layout} (h : Shrinks l l') (before after : Layout) :
    Shrinks (before ++ l ++ after) (before ++ l' ++ after) :=
  ((Shrinks.refl before).append h).append (.refl after)

theorem Shrinks.behind {l l' : Layout} (h : Shrinks l l') (before : Layout) :
    Shrinks (before ++ l) (before ++ l') :=
  (Shrinks.refl before).append h

theorem Shrinks.ahead {l l' : Layout} (h : Shrinks l l') (after : Layout) :
    Shrinks (l ++ after) (l' ++ after) :=
  h.append (.refl after)

/-- Behind a space. -/
theorem Shrinks.spaced {l l' : Layout} (h : Shrinks l l') : Shrinks (.space :: l) (.space :: l') :=
  h.behind [.space]

/-- The same choice between two layouts. -/
theorem Shrinks.ite {condition condition' : Bool} {a a' b b' : Layout}
    (hcondition : condition' = condition) (ha : Shrinks a a') (hb : Shrinks b b') :
    Shrinks (if condition then a else b) (if condition' then a' else b') := by
  rw [hcondition]
  split
  · exact ha
  · exact hb

/-! ### Functions -/

section Functions

variable {name : Option (Node × Node)} {parameters body : Node × Node}

theorem shrinks_fallback {value : Option (Node × Node)} (h : AllTighten value.toList) :
    Shrinks (fallback (value.map first)) (fallback (value.map second)) :=
  shrinks_optional h fun h => h.single.behind _

theorem shrinks_function (isAsync generator : Bool)
    (h : AllTighten (name.toList ++ [parameters, body])) :
    Shrinks (function isAsync generator (name.map first) (first parameters) (first body))
      (function isAsync generator (name.map second) (second parameters) (second body)) :=
  (((shrinks_optional h.left Tightens.plain).behind _).append h.right.head.wrapped).append
    h.right.tail.head.plain

theorem arrowBody_eq (n : Node) :
    arrowBody n.child =
      if n.edge.isBlock then n.child.plain
      else if n.edge.start.block then n.child.wrapped else n.child.single := by
  obtain ⟨span, shape⟩ := n
  cases shape <;> rfl

theorem shrinks_arrowBody (h : Tightens body.1 body.2) :
    Shrinks (arrowBody (first body)) (arrowBody (second body)) := by
  unfold first second
  rw [arrowBody_eq, arrowBody_eq, h.edge]
  exact .ite rfl h.plain (.ite rfl h.wrapped h.single)

end Functions

/-! ### Members and classes -/

section Members

variable {k : Key (Node × Node)} {v : MemberValue (Node × Node)}

theorem shrinks_key (h : AllTighten k.children) :
    Shrinks (key (k.map first)) (key (k.map second)) := by
  cases k with
  | direct name => exact .refl _
  | computed c => exact h.head.single.between _ _

theorem shrinks_memberHead (h : AllTighten (k.children ++ v.children)) :
    Shrinks (memberHead (k.map first) (v.map first))
      (memberHead (k.map second) (v.map second)) := by
  have hkey := shrinks_key h.left
  cases v with
  | getter body => exact (hkey.between _ _).append h.right.head.plain
  | setter parameter body =>
    exact ((hkey.behind _).append h.right.head.wrapped).append h.right.tail.head.plain
  | method isAsync generator parameters body =>
    exact ((hkey.behind _).append h.right.head.wrapped).append h.right.tail.head.plain
  | property initializer => exact hkey

theorem shrinks_objectMember {m : ObjectMember (Node × Node)} (h : AllTighten m.children) :
    Shrinks (objectMember (m.map first)) (objectMember (m.map second)) := by
  cases m with
  | valued k v =>
    refine (shrinks_memberHead h).append ?_
    cases v with
    | property initializer =>
      cases initializer with
      | none => exact .refl _
      | some c =>
        have hvalue := h.right.head.single.behind (mark .colon ++ [.space])
        exact hvalue
    | getter | setter | method => exact .refl _
  | shorthand name => exact .refl _
  | spread c => exact h.head.single.behind _

theorem shrinks_classMember {m : ClassMember (Node × Node)} (h : AllTighten m.children) :
    Shrinks (classMember (m.map first)) (classMember (m.map second)) := by
  obtain ⟨k, isStatic, v⟩ := m
  refine ((shrinks_memberHead h).behind _).append ?_
  cases v with
  | property initializer => exact shrinks_fallback h.right
  | getter | setter | method => exact .refl _

theorem isProperty_map {α : Type} (f g : α → Child) (v : MemberValue α) :
    isProperty (v.map f) = isProperty (v.map g) := by
  cases v <;> rfl

theorem shrinks_classMembers {members : List (ClassMember (Node × Node))}
    (h : AllTighten (members.flatMap ClassMember.children)) (afterProperty : Bool) :
    Shrinks (classMembers afterProperty (members.map (·.map first)))
      (classMembers afterProperty (members.map (·.map second))) := by
  induction members generalizing afterProperty with
  | nil => exact .refl _
  | cons m rest ih =>
    rw [List.flatMap_cons] at h
    have hmember := (shrinks_classMember h.left).behind (when afterProperty (mark .semicolon))
    have hproperty : isProperty (m.map first).value = isProperty (m.map second).value :=
      isProperty_map first second m.value
    rw [List.map_cons, List.map_cons, classMembers, classMembers, hproperty,
      ← shrinks_compacted_iff]
    simp only [compacted_append, compacted_newline]
    simp only [← compacted_append]
    exact shrinks_compacted_iff.2 (hmember.append (ih h.right _))

theorem shrinks_classLayout {name parent : Option (Node × Node)}
    {members : List (ClassMember (Node × Node))}
    (h : AllTighten (name.toList ++ parent.toList ++ members.flatMap ClassMember.children)) :
    Shrinks
      (classLayout (name.map first) (parent.map first) (members.map (·.map first)))
      (classLayout (name.map second) (parent.map second) (members.map (·.map second))) := by
  have hname := (shrinks_optional h.left.left Tightens.plain).behind (word .classWord)
  have hparent := shrinks_optional (f := fun c => word .extendsWord ++ c.under memberPrecedence)
    h.left.right fun h => (h.under _).behind _
  have hmembers := (shrinks_classMembers h.right false).between [.indent] [.dedent]
  simp only [classLayout, List.isEmpty_map]
  exact (hname.append hparent).append
    (((hmembers.ahead _).between _ _).behind [.space])

end Members

/-! ### Templates, operators and declarators -/

theorem shrinks_template {parts : List (TemplatePart (Node × Node))}
    (h : AllTighten (parts.flatMap TemplatePart.children)) :
    Shrinks (template (parts.map (·.map first))) (template (parts.map (·.map second))) := by
  simp only [template, List.flatMap_map]
  refine (shrinks_flatMap fun part hpart => ?_).between [_] _
  cases part with
  | text raw => exact .refl _
  | substitution c => exact (h.part hpart).head.plain.between [_] _

theorem shrinks_binary (op : BinaryOperator) {left right : Node × Node}
    (h : AllTighten [left, right]) :
    Shrinks (binary op (first left) (first right)) (binary op (second left) (second right)) := by
  have hmixes {n n' : Node} (h : Tightens n n') : n'.mixesNullish op = n.mixesNullish op := by
    have hoperator : n'.operator? = n.operator? := congrArg Edge.operator h.edge
    rw [mixesNullish_eq, mixesNullish_eq, hoperator]
  simp only [binary, first, second, Node.child, hmixes h.head, hmixes h.tail.head]
  exact ((h.head.under _).ahead _).append (h.tail.head.under _)

theorem shrinks_declarator (inHead : Bool) {d : Declarator (Node × Node)}
    (h : AllTighten d.children) :
    Shrinks (declarator inHead (d.map first)) (declarator inHead (d.map second)) :=
  h.head.plain.append (shrinks_optional h.tail fun h => (h.withoutIn inHead _).behind _)

/-! ### Heads of loops -/

theorem shrinks_forInit {init : ForInit (Node × Node)} (h : AllTighten init.children) :
    Shrinks (forInit (init.map first)) (forInit (init.map second)) := by
  cases init with
  | none => exact .refl _
  | expression c => exact h.head.withoutIn true 0
  | declaration c => exact h.head.text true

theorem shrinks_forTarget {target : ForTarget (Node × Node)}
    (h : Tightens target.child.1 target.child.2) :
    Shrinks (forTarget (target.map first)) (forTarget (target.map second)) := by
  cases target with
  | declaration c => exact h.plain
  | pattern c => exact h.under _

theorem shrinks_forHead {head : ForHead (Node × Node)} (h : AllTighten head.children) :
    Shrinks (forHead (head.map first)) (forHead (head.map second)) := by
  cases head with
  | stepped init condition post =>
    have hpart {o : Option (Node × Node)} (h : AllTighten o.toList) :=
      shrinks_optional (f := fun c => .space :: c.plain) h fun h => h.plain.spaced
    exact ((((shrinks_forInit h.left.left).ahead _).append (hpart h.left.right)).ahead _).append
      (hpart h.right)
  | each isOf awaits target subject =>
    cases isOf with
    | true => exact ((shrinks_forTarget h.head).ahead _).append h.tail.head.single
    | false => exact ((shrinks_forTarget h.head).ahead _).append h.tail.head.plain

/-! ### Names of modules -/

theorem isOwnAlias_eq (n : ModuleName Node) :
    isOwnAlias (n.map Node.child) = n.asName.edge.name.any (n.target == ·) := by
  obtain ⟨target, span, shape⟩ := n
  cases shape <;> rfl

theorem shrinks_moduleName {n : ModuleName (Node × Node)} (h : Tightens n.asName.1 n.asName.2) :
    Shrinks (moduleName (n.map first)) (moduleName (n.map second)) := by
  have halias : isOwnAlias (n.map second) = isOwnAlias (n.map first) := by
    show isOwnAlias ((n.map Prod.snd).map Node.child) = isOwnAlias ((n.map Prod.fst).map Node.child)
    rw [isOwnAlias_eq, isOwnAlias_eq]
    exact congrArg (fun e : Edge => e.name.any (n.target == ·)) h.edge
  unfold moduleName
  rw [halias]
  exact h.plain.behind _

theorem shrinks_moduleNames {names : ModuleNames (Node × Node)} (h : AllTighten names.children) :
    Shrinks (moduleNames (names.map first)) (moduleNames (names.map second)) := by
  cases names with
  | all asName => exact (shrinks_optional h fun h => h.plain.behind _).behind _
  | listed names =>
    simp only [moduleNames, ModuleNames.map, List.map_map]
    refine (shrinks_list fun n hn => ?_).between _ _
    exact shrinks_moduleName (h _ (List.mem_map_of_mem hn))

end Layout

end ScriptMin
