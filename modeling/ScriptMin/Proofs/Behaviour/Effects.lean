import ScriptMin.Proofs.Behaviour.Silent
import ScriptMin.Proofs.Rewrite.Fires

/-!
# Dropping pure code keeps every effect

`Node.effects` lists the nodes of a tree that somebody could tell the evaluation of, from left to
right and without those that only a call of a function evaluates. A pure expression has none, so the
elements of a sequence and the statements that `dropPure` leaves out have none either, and the list
stays what it was.
-/

namespace ScriptMin

variable {α β : Type}

/-! ## What is evaluated with a node -/

/-- The children that are evaluated with a member. The body of a function is not, and its parameters
count only if `signatures` says so. -/
def MemberValue.evaluated (signatures : Bool) : MemberValue α → List α
  | .getter _ => []
  | .method _ _ parameters _ => if signatures then [parameters] else []
  | .property initializer => initializer.toList
  | .setter parameter _ => if signatures then [parameter] else []

theorem MemberValue.evaluated_map (signatures : Bool) (f : α → β) (x : MemberValue α) :
    (x.map f).evaluated signatures = (x.evaluated signatures).map f := by
  cases x <;> cases signatures <;> simp [map, evaluated, toList_optionMap]

def ClassMember.evaluated (signatures : Bool) (m : ClassMember α) : List α :=
  m.key.children ++ m.value.evaluated signatures

theorem ClassMember.evaluated_map (signatures : Bool) (f : α → β) (x : ClassMember α) :
    (x.map f).evaluated signatures = (x.evaluated signatures).map f := by
  simp [map, evaluated, Key.children_map, MemberValue.evaluated_map]

def ArrayElement.isSpread : ArrayElement α → Bool
  | .spread _ => true
  | _ => false

namespace Shape

/-- The children that are evaluated with a node, in the order of the source. The names of functions
and classes are not, nor are the bodies of functions, and their parameters count only if
`signatures` says so. -/
def evaluated (signatures : Bool) : Shape α → List α
  | .functionDeclaration _ _ _ parameters _ | .functionExpression _ _ _ parameters _
  | .arrowFunction _ parameters _ => if signatures then [parameters] else []
  | .classDeclaration _ parent members | .classExpression _ parent members =>
    parent.toList ++ members.flatMap (ClassMember.evaluated signatures)
  | .objectMember (.valued key value) => key.children ++ value.evaluated signatures
  | shape => shape.children

theorem evaluated_map (signatures : Bool) (f : α → β) (s : Shape α) :
    (s.map f).evaluated signatures = (s.evaluated signatures).map f := by
  have hmembers (members : List (ClassMember α)) :
      (members.map (·.map f)).flatMap (ClassMember.evaluated signatures) =
        (members.flatMap (ClassMember.evaluated signatures)).map f := by
    rw [List.flatMap_map, List.map_flatMap]
    simp only [ClassMember.evaluated_map]
  cases s
  case functionDeclaration | functionExpression | arrowFunction =>
    cases signatures <;> simp [map, evaluated]
  case classDeclaration | classExpression =>
    simp [map, evaluated, toList_optionMap, hmembers]
  case objectMember content =>
    cases content <;>
      simp [map, ObjectMember.map, ObjectMember.children, children, evaluated, Key.children_map,
        MemberValue.evaluated_map]
  all_goals
    simp only [evaluated]
    exact children_map f _

theorem evaluated_subset_children (signatures : Bool) (s : Shape α) :
    s.evaluated signatures ⊆ s.children := by
  have hvalue (x : MemberValue α) : x.evaluated signatures ⊆ x.children := by
    cases x <;> cases signatures <;> simp [MemberValue.evaluated, MemberValue.children]
  have hmembers (members : List (ClassMember α)) :
      members.flatMap (ClassMember.evaluated signatures) ⊆
        members.flatMap ClassMember.children := by
    intro c hc
    simp only [List.mem_flatMap, ClassMember.evaluated, ClassMember.children,
      List.mem_append] at hc ⊢
    obtain ⟨m, hm, hc⟩ := hc
    exact ⟨m, hm, hc.imp_right fun hc => hvalue m.value hc⟩
  cases s
  case functionDeclaration | functionExpression | arrowFunction =>
    cases signatures <;> simp [evaluated, children]
  case classDeclaration name parent members | classExpression name parent members =>
    rw [evaluated, children, List.append_assoc]
    refine List.subset_append_of_subset_right _ (List.append_subset.2 ⟨?_, ?_⟩)
    · exact List.subset_append_left ..
    · exact List.subset_append_of_subset_right _ (hmembers members)
  case objectMember content =>
    cases content
    case valued key value =>
      refine List.append_subset.2 ⟨List.subset_append_left .., ?_⟩
      exact List.subset_append_of_subset_right _ (hvalue value)
    all_goals exact fun _ hc => hc
  all_goals
    simp only [evaluated]
    exact fun _ hc => hc

/-- The nodes that somebody can tell the evaluation of: `yield`, `await`, calls, `new`, assignments,
updates, `delete`, imports, tagged templates, accesses to members, reads of variables (also by a
shorthand in an object), spreads and classes. -/
def isEffect : Shape α → Bool
  | .yieldExpression .. | .call .. | .construct .. | .assignment .. | .postfixed .. | .importCall _
  | .taggedTemplate .. | .member .. | .index .. | .identifier _ | .classExpression ..
  | .argument true _ | .objectMember (.shorthand _) | .objectMember (.spread _) => true
  | .unary operator _ => (operator matches .await | .delete | .increment | .decrement)
  | .arrayLiteral elements => elements.any ArrayElement.isSpread
  | _ => false

theorem isEffect_map (f : α → β) (s : Shape α) : (s.map f).isEffect = s.isEffect := by
  cases s
  case argument isSpread value => cases isSpread <;> rfl
  case objectMember content => cases content <;> rfl
  case arrayLiteral elements =>
    simp only [map, isEffect, List.any_map]
    congr 1
    funext x
    cases x <;> rfl
  all_goals rfl

end Shape

namespace Node

/-- The effects of a tree from left to right: its nodes that somebody can tell the evaluation of,
each before those below it. -/
def effects (signatures : Bool) (n : Node) : List Node :=
  n.fold fun n children =>
    (if n.shape.isEffect then [n] else []) ++ (children.evaluated signatures).flatMap (·.2)

theorem effects_eq (signatures : Bool) (n : Node) :
    n.effects signatures = (if n.shape.isEffect then [n] else []) ++
      (n.shape.evaluated signatures).flatMap (effects signatures) := by
  unfold effects
  rw [fold_eq, Shape.evaluated_map, List.flatMap_map]

/-- What a node is by itself: its span and its shape without its children. -/
def head (n : Node) : Source.Span × Shape Unit :=
  (n.span, n.shape.map fun _ => ())

end Node

namespace Behaviour

open Rewrite

/-! ## Pure expressions have no effects -/

/-- A pure expression, or a pure member of an object literal. -/
def IsPurePart (n : Node) : Prop := isPure n ∨ areMembersPure [n]

theorem isPure_of_isPrimitive {n : Node} (h : isPrimitive n) : isPure n := by
  obtain ⟨span, shape⟩ := n
  cases shape <;> first | rfl | cases h

theorem isPure_of_isPlainPrimitive {n : Node} (h : isPlainPrimitive n) : isPure n :=
  isPure_of_isPrimitive (Bool.and_eq_true_iff.1 h).1

/-- The elements of a pure array literal: no spread, and values that are pure. -/
theorem areElementsPure_iff (xs : List (ArrayElement Node)) :
    areElementsPure xs ↔ xs.any ArrayElement.isSpread = false ∧
      ∀ n ∈ xs.flatMap ArrayElement.children, isPure n := by
  induction xs with
  | nil => simp [areElementsPure]
  | cons x rest ih =>
    cases x with
    | item value =>
      simp [areElementsPure, ArrayElement.isSpread, ArrayElement.children, ih, and_left_comm]
    | spread value => simp [areElementsPure, ArrayElement.isSpread]
    | hole => simp [areElementsPure, ArrayElement.isSpread, ArrayElement.children, ih]

/-- A pure part is no effect, and what is evaluated with it are pure parts. -/
theorem IsPurePart.evaluated {n : Node} (h : IsPurePart n) :
    n.shape.isEffect = false ∧ ∀ c ∈ n.shape.evaluated false, IsPurePart c := by
  obtain ⟨span, shape⟩ := n
  rcases h with hpure | hpure
  · cases shape
    case unary operator operand =>
      have hoperand : isPure operand := by
        cases operator
        case logicalNot | typeOf | void => exact hpure
        case negation | plus | bitwiseNot => exact isPure_of_isPlainPrimitive hpure
        all_goals cases hpure
      refine ⟨?_, by simpa [Shape.evaluated, Shape.children] using .inl hoperand⟩
      cases operator <;> first | rfl | cases hpure
    case binary operator left right =>
      have hboth : isPure left ∧ isPure right := by
        rw [isPure] at hpure
        split at hpure
        · exact Bool.and_eq_true_iff.1 hpure
        · simp only [Bool.and_eq_true] at hpure
          exact ⟨isPure_of_isPlainPrimitive hpure.1.2, isPure_of_isPlainPrimitive hpure.2⟩
      exact ⟨rfl, by simpa [Shape.evaluated, Shape.children] using hboth.imp .inl .inl⟩
    case conditional test consequent alternate =>
      simp only [isPure, Bool.and_eq_true] at hpure
      obtain ⟨⟨htest, hconsequent⟩, halternate⟩ := hpure
      refine ⟨rfl, ?_⟩
      simpa [Shape.evaluated, Shape.children] using ⟨.inl htest, .inl hconsequent, .inl halternate⟩
    case templateLiteral parts =>
      have hparts : ∀ part ∈ parts, isPlainTemplate [part] := by
        simpa [isPure, isPlainTemplate] using hpure
      refine ⟨rfl, fun c hc => .inl ?_⟩
      obtain ⟨part, hpart, hc⟩ := List.mem_flatMap.1 hc
      have hplain := hparts part hpart
      cases part with
      | text => cases hc
      | substitution value =>
        obtain rfl := List.mem_singleton.1 hc
        exact isPure_of_isPrimitive (by simpa [isPlainTemplate] using hplain)
    case sequence elements =>
      rw [isPure, arePure_iff] at hpure
      exact ⟨rfl, fun c hc => .inl (hpure c hc)⟩
    case arrayLiteral elements =>
      rw [isPure, areElementsPure_iff] at hpure
      exact ⟨hpure.1, fun c hc => .inl (hpure.2 c hc)⟩
    case objectLiteral members =>
      rw [isPure, areMembersPure_iff] at hpure
      exact ⟨rfl, fun c hc => .inr (hpure c hc)⟩
    case functionExpression | arrowFunction | thisExpression | bigIntLiteral | booleanLiteral
        | nullLiteral | numberLiteral | regexLiteral | stringLiteral | undefinedLiteral =>
      exact ⟨rfl, List.forall_mem_nil _⟩
    all_goals cases hpure
  · cases shape
    case objectMember content =>
      rcases content with ⟨⟨⟩ | ⟨⟩, ⟨⟩ | ⟨⟩ | ⟨_ | value⟩ | ⟨⟩⟩ | ⟨⟩ | ⟨⟩
      case valued.direct.property.some =>
        have hvalue : isPure value := by simpa [areMembersPure] using hpure
        exact ⟨rfl, List.forall_mem_singleton.2 (.inl hvalue)⟩
      case valued.direct.getter | valued.direct.method | valued.direct.setter =>
        exact ⟨rfl, List.forall_mem_nil _⟩
      all_goals cases hpure
    all_goals cases hpure

/-- A pure part has no effects. -/
theorem IsPurePart.effects_eq_nil {n : Node} (h : IsPurePart n) : n.effects false = [] := by
  induction n using Node.induction with
  | h n ih =>
    obtain ⟨hown, hparts⟩ := h.evaluated
    rw [Node.effects_eq, hown, List.flatMap_eq_nil_iff.2]
    · rfl
    · exact fun c hc => ih c (Shape.evaluated_subset_children false _ hc) (hparts c hc)

theorem effects_of_isPure {n : Node} (h : isPure n) : n.effects false = [] :=
  IsPurePart.effects_eq_nil (.inl h)

/-! ## The rule -/

section

variable {context : Context} {n n' : Node} {elements kept : List Node}

theorem effects_sequence (span : Source.Span) (elements : List Node) :
    Node.effects false ⟨span, .sequence elements⟩ = elements.flatMap (Node.effects false) := by
  rw [Node.effects_eq]
  rfl

theorem effects_expressionStatement (span : Source.Span) (expression : Node) :
    Node.effects false ⟨span, .expressionStatement expression⟩ = expression.effects false := by
  rw [Node.effects_eq]
  exact List.flatMap_singleton ..

theorem effects_emptyStatement (span : Source.Span) :
    Node.effects false ⟨span, .emptyStatement⟩ = [] := by
  rw [Node.effects_eq]
  rfl

/-- What is pure adds nothing to the effects of a row of expressions. -/
theorem effects_filter (elements : List Node) :
    (elements.filter (!isPure ·)).flatMap (Node.effects false) =
      elements.flatMap (Node.effects false) := by
  induction elements with
  | nil => rfl
  | cons e rest ih =>
    by_cases he : isPure e
    · rw [List.filter_cons_of_neg (by simp [he]), ih, List.flatMap_cons, effects_of_isPure he,
        List.nil_append]
    · rw [List.filter_cons_of_pos (by simpa using he), List.flatMap_cons, ih, List.flatMap_cons]

theorem effects_all_pure (h : elements.all isPure) :
    elements.flatMap (Node.effects false) = [] :=
  List.flatMap_eq_nil_iff.2 fun _ he => effects_of_isPure (List.all_eq_true.1 h _ he)

/-- The elements of a sequence that are kept end with the same value and have the same effects. -/
theorem sequenceKept?_effects (h : sequenceKept? elements = some kept) :
    ∃ before last, elements.getLast? = some last ∧ kept = before ++ [last] ∧
      kept.flatMap (Node.effects false) = elements.flatMap (Node.effects false) := by
  rcases List.eq_nil_or_concat' elements with rfl | ⟨before, last, rfl⟩
  · cases h
  · simp only [sequenceKept?, List.getLast?_concat, List.dropLast_concat, Option.bind_eq_bind,
      Option.bind_some] at h
    have hlast : (before ++ [last]).getLast? = some last := List.getLast?_concat
    split at h
    · cases h
    split at h
    case isTrue hbinds =>
      -- all before the last one are pure, and so is the one that stays
      obtain ⟨-, h⟩ := Option.ite_none_left_eq_some.1 h
      cases h
      have hpure : before.all isPure := (Bool.and_eq_true_iff.1 hbinds).1
      have htake : (before.take 1).all isPure :=
        List.all_eq_true.2 fun e he => List.all_eq_true.1 hpure e (List.mem_of_mem_take he)
      refine ⟨before.take 1, last, hlast, rfl, ?_⟩
      rw [List.flatMap_append, List.flatMap_append, effects_all_pure hpure, effects_all_pure htake]
    case isFalse =>
      cases h
      refine ⟨before.filter (!isPure ·), last, hlast, rfl, ?_⟩
      rw [List.flatMap_append, List.flatMap_append, effects_filter]

theorem statementKept_effects (span : Source.Span) (expression : Node) (elements : List Node) :
    Node.effects false ⟨span, statementKept expression elements⟩ =
      elements.flatMap (Node.effects false) := by
  rw [← effects_filter]
  unfold statementKept
  split
  case h_1 hkept => rw [hkept, effects_emptyStatement, List.flatMap_nil]
  case h_2 only hkept => rw [hkept, effects_expressionStatement, List.flatMap_singleton]
  case h_3 => rw [effects_expressionStatement, Node.withShape, effects_sequence]

/-- The value of a sequence is the value of what replaces it: its last element is left alone or as
the last element. -/
def KeepsValue (n n' : Node) : Prop :=
  ∀ span elements, n = ⟨span, .sequence elements⟩ →
    ∃ last, elements.getLast? = some last ∧
      (n' = last ∨ ∃ before, n' = ⟨span, .sequence (before ++ [last])⟩)

/-- Where pure code is dropped from a node, its effects stay and so does its value. -/
theorem dropPure_keeps (h : dropPure context n = some n') :
    n'.effects false = n.effects false ∧ KeepsValue n n' := by
  obtain ⟨span, shape⟩ := n
  unfold dropPure at h
  split at h
  case h_1 elements hshape =>
    cases hshape
    simp only [Option.bind_eq_bind, Option.bind_eq_some_iff] at h
    obtain ⟨kept, hkept, h⟩ := h
    obtain ⟨before, last, hlast, rfl, heffects⟩ := sequenceKept?_effects hkept
    rw [effects_sequence, ← heffects]
    split at h
    case h_1 honly =>
      cases h
      obtain ⟨rfl, hsame⟩ := List.append_inj' (show before ++ [last] = [] ++ [n'] from honly) rfl
      obtain rfl := List.singleton_inj.1 hsame
      refine ⟨(List.flatMap_singleton ..).symm, ?_⟩
      rintro _ _ ⟨⟩
      exact ⟨last, hlast, .inl rfl⟩
    case h_2 =>
      cases h
      refine ⟨effects_sequence .., ?_⟩
      rintro _ _ ⟨⟩
      exact ⟨last, hlast, .inr ⟨before, rfl⟩⟩
  case h_2 expression hshape =>
    cases hshape
    refine ⟨?_, by rintro _ _ ⟨⟩⟩
    rw [effects_expressionStatement]
    split at h
    case isTrue hpure =>
      cases h
      rw [Node.withShape, effects_emptyStatement, effects_of_isPure hpure]
    case isFalse =>
      obtain ⟨span', shape⟩ := expression
      split at h
      case h_1 elements helements =>
        cases helements
        obtain ⟨-, h⟩ := Option.ite_none_right_eq_some.1 h
        cases h
        rw [Node.withShape, statementKept_effects, effects_sequence]
      case h_2 => cases h
  case h_3 => cases h

end

/-! ## In a tree -/

/-- The effects of a tree by what each of them is itself. Below an effect something may change. -/
def effectHeads (n : Node) : List (Source.Span × Shape Unit) :=
  (n.effects false).map Node.head

theorem effectHeads_eq (n : Node) :
    effectHeads n = (if n.shape.isEffect then [n.head] else []) ++
      (n.shape.evaluated false).flatMap effectHeads := by
  unfold effectHeads
  rw [Node.effects_eq, List.map_append, List.map_flatMap]
  congr 1
  split <;> rfl

/-- They depend on what the node is by itself and on those of the children. -/
theorem effectHeads_congr (span : Source.Span) {s : Shape (Node × Node)}
    (h : ∀ p ∈ s.children, effectHeads p.2 = effectHeads p.1) :
    effectHeads ⟨span, s.map Prod.snd⟩ = effectHeads ⟨span, s.map Prod.fst⟩ := by
  have hhead : Node.head ⟨span, s.map Prod.snd⟩ = Node.head ⟨span, s.map Prod.fst⟩ := by
    simp only [Node.head, Shape.map_map]
    rfl
  rw [effectHeads_eq, effectHeads_eq, hhead]
  simp only [Shape.isEffect_map, Shape.evaluated_map, List.flatMap_map]
  congr 1
  refine List.flatMap_congr fun p hp => ?_
  exact h p (Shape.evaluated_subset_children false s hp)

/-- The effects of a tree stay where pure code is dropped somewhere in it. -/
theorem effectHeads_of_fires {root root' : Node} (h : Fires [dropPure] root root') :
    effectHeads root' = effectHeads root := by
  induction h with
  | here context hrule h =>
    obtain rfl := List.mem_singleton.1 hrule
    unfold effectHeads
    rw [(dropPure_keeps h).1]
  | child span s hs h ih =>
    refine effectHeads_congr span ?_
    exact forall_mem_children_of_child (P := fun p => effectHeads p.2 = effectHeads p.1) hs
      (fun _ => rfl) ih

/-- Dropping pure code drops no effect. Where the rule applies, the node has the same effects as
before, and a sequence the same value; and so has any tree in which it is applied to some node, as
far as the effects around that node go. -/
theorem dropPure_keeps_effects :
    (∀ context n n', dropPure context n = some n' →
      n'.effects false = n.effects false ∧ KeepsValue n n') ∧
    ∀ root root', Fires [dropPure] root root' → effectHeads root' = effectHeads root :=
  ⟨fun _ _ _ => dropPure_keeps, fun _ _ => effectHeads_of_fires⟩

/-- The sequence `function(a=b){},c`. -/
def defaultThenName : Node :=
  let parameter : Node := ⟨⟨9, 12⟩, .parameter false ⟨⟨9, 10⟩, .bindingName "a"⟩
    (some ⟨⟨11, 12⟩, .identifier "b"⟩)⟩
  let function : Node := ⟨⟨0, 15⟩, .functionExpression false false none
    ⟨⟨8, 13⟩, .signature [parameter]⟩ ⟨⟨13, 15⟩, .block []⟩⟩
  ⟨⟨0, 17⟩, .sequence [function, ⟨⟨16, 17⟩, .identifier "c"⟩]⟩

/-- Only the name is left of a function and a name. -/
theorem dropPure_keeps_effects_name :
    dropPure ⟨false⟩ defaultThenName = some ⟨⟨16, 17⟩, .identifier "c"⟩ ∧
      Node.effects false ⟨⟨16, 17⟩, .identifier "c"⟩ = defaultThenName.effects false ∧
      effectHeads ⟨⟨16, 17⟩, .identifier "c"⟩ = effectHeads defaultThenName := by
  have hfires : Fires [dropPure] defaultThenName ⟨⟨16, 17⟩, .identifier "c"⟩ :=
    .here ⟨false⟩ List.mem_cons_self rfl
  exact ⟨rfl, (dropPure_keeps_effects.1 ⟨false⟩ _ _ rfl).1, dropPure_keeps_effects.2 _ _ hfires⟩

/-- The default value of a parameter is dropped with its function, and the variable that it reads is
an effect outside all bodies. -/
theorem dropPure_drops_default :
    ¬ ∀ context n n', dropPure context n = some n' → n'.effects true = n.effects true := by
  intro h
  have hlength := congrArg List.length (h ⟨false⟩ defaultThenName _ rfl)
  exact absurd hlength (by decide)

end Behaviour

end ScriptMin
