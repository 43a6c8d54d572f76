import ScriptMin.Grammar.Frame
import ScriptMin.Grammar.Target
import ScriptMin.Proofs.Elsewhere.Basic
import ScriptMin.Proofs.Tree.Map
import ScriptMin.Proofs.Tree.Variables

/-!
# Trees without their places

`Node.bare` drops the spans from a tree, and trees are alike if they are the same without them. The
checks that the grammar makes on names, parameters and targets come out alike on alike trees, since
a span only says where an error is.
-/

namespace ScriptMin

namespace Node

/-- The tree without the places of its nodes. -/
def bare (n : Node) : Node :=
  n.fold fun _ s => ⟨⟨0, 0⟩, s.map (·.2)⟩

theorem bare_eq (n : Node) : n.bare = ⟨⟨0, 0⟩, n.shape.map bare⟩ := by
  rw [bare, fold_eq, Shape.map_map]
  rfl

theorem shape_bare (n : Node) : n.bare.shape = n.shape.map bare := by
  rw [bare_eq]

theorem bare_bare (n : Node) : n.bare.bare = n.bare := by
  induction n using Node.induction with
  | h n ih =>
    rw [bare_eq n.bare, shape_bare, Shape.map_map, bare_eq n]
    exact congrArg _ (Shape.map_congr ih)

/-- The same tree, with its nodes at other places. -/
abbrev Alike (n m : Node) : Prop := n.bare = m.bare

theorem Alike.mk {s s' : Source.Span} {shape shape' : Shape Node}
    (h : shape.map bare = shape'.map bare) : Alike ⟨s, shape⟩ ⟨s', shape'⟩ := by
  unfold Alike
  rw [bare_eq, bare_eq, h]

theorem Alike.shape {n m : Node} (h : n.Alike m) : n.shape.map bare = m.shape.map bare := by
  rw [← shape_bare, ← shape_bare, h]

/-! ## What the checks read of a tree -/

theorem boundNames_bare (n : Node) : n.bare.boundNames.map (·.1) = n.boundNames.map (·.1) := by
  induction n using Node.induction with
  | h n ih =>
    obtain ⟨span, shape⟩ := n
    have hpatterns : ((shape.map bare).patterns.flatMap boundNames).map (·.1) =
        (shape.patterns.flatMap boundNames).map (·.1) := by
      rw [Shape.patterns_map, List.flatMap_map, List.map_flatMap, List.map_flatMap]
      exact List.flatMap_congr fun c hc => ih c (Shape.mem_children_of_mem_patterns hc)
    rw [bare_eq]
    cases shape
    case bindingName => rfl
    all_goals
      rw [boundNames_eq (by simp [Shape.map]), boundNames_eq (by simp)]
      exact hpatterns

theorem Alike.boundNames {n m : Node} (h : n.Alike m) :
    n.boundNames.map (·.1) = m.boundNames.map (·.1) := by
  rw [← boundNames_bare n, ← boundNames_bare m, h]

theorem continuesChain_bare (n : Node) : n.bare.continuesChain = n.continuesChain := by
  induction n using Node.induction with
  | h n ih =>
    obtain ⟨span, shape⟩ := n
    rw [bare_eq]
    cases shape
    case member isOptional parenthesised object name =>
      simp [Shape.map, continuesChain, ih object List.mem_cons_self]
    case index isOptional parenthesised object subscript =>
      simp [Shape.map, continuesChain, ih object List.mem_cons_self]
    case call isOptional parenthesised callee arguments =>
      simp [Shape.map, continuesChain, ih callee List.mem_cons_self]
    all_goals rfl

/-- What is looked for below a node is found in the bare tree if it does not depend on a place or on
the children. -/
theorem any_bare {p : Node → Bool} (h : ∀ n : Node, p n.bare = p n) (n : Node) :
    n.bare.any p = n.any p := by
  induction n using Node.induction with
  | h n ih =>
    have hany (n : Node) : n.any p = (p n || n.shape.children.any (any p)) := by
      rw [any, fold_eq, Shape.children_map, List.any_map]
      rfl
    rw [hany, hany, h, shape_bare, Shape.children_map, List.any_map]
    congr 1
    rw [Bool.eq_iff_iff, List.any_eq_true, List.any_eq_true]
    exact exists_congr fun c => and_congr_right fun hc => by rw [Function.comp_apply, ih c hc]

theorem Alike.any {n m : Node} (h : n.Alike m) {p : Node → Bool}
    (hp : ∀ n : Node, p n.bare = p n) : n.any p = m.any p := by
  rw [← any_bare hp n, ← any_bare hp m, h]

theorem elements_bare (n : Node) : n.bare.elements = n.elements.map bare := by
  obtain ⟨span, shape⟩ := n
  cases shape
  case sequence elements =>
    cases elements
    case nil => rfl
    case cons => simp only [elements, shape_bare, Shape.map, List.map_cons]
  all_goals rfl

theorem Alike.elements {n m : Node} (h : n.Alike m) :
    n.elements.map bare = m.elements.map bare := by
  rw [← elements_bare n, ← elements_bare m, h]

end Node

namespace Grammar

open Node

/-! ## Checks of names -/

/-- Two checks pass, or both fail for the same cause. -/
abbrev ChecksAlike (x y : Except SyntaxError Unit) : Prop := ResultsAlike (fun _ _ => True) x y

theorem checksAlike_yield (generator strict : Bool) (kind : Binding) {a b : Name}
    (h : a.text = b.text) :
    ChecksAlike (checkYield generator strict kind a) (checkYield generator strict kind b) := by
  unfold checkYield
  rw [h]
  refine .ite (fun _ => .ok trivial) fun _ => .ite (fun _ => .error rfl) fun _ => ?_
  refine .ite (fun _ => ?_) fun _ => .ok trivial
  cases kind <;> exact .error rfl

theorem checksAlike_binding (f : Frame) (kind : Binding) {a b : Name} (h : a.text = b.text) :
    ChecksAlike (checkBinding f kind a) (checkBinding f kind b) := by
  refine ResultsAlike.bind (checksAlike_yield _ _ kind h) fun _ _ _ => ?_
  rw [h]
  exact .ite (fun _ => .error rfl) fun _ => .ok trivial

theorem checksAlike_reference (f : Frame) {a b : Name} (h : a.text = b.text) :
    ChecksAlike (checkReference f a) (checkReference f b) :=
  checksAlike_yield _ _ _ h

theorem checksAlike_label (f : Frame) {t u : Token} (h : t.Alike u) :
    ChecksAlike (checkLabel f t) (checkLabel f u) := by
  obtain ⟨s⟩ := h
  exact .ite (fun _ => .ok trivial) fun _ => .ite (fun _ => .error rfl) fun _ =>
    .ite (fun _ => .error rfl) fun _ => .ok trivial

theorem checksAlike_parameterNames (outerStrict strict unique : Bool) {as bs : List Name}
    (h : as.map (·.text) = bs.map (·.text)) (seen : List String) :
    ChecksAlike (checkParameterNames outerStrict strict unique seen as)
      (checkParameterNames outerStrict strict unique seen bs) := by
  induction as generalizing bs seen with
  | nil =>
    cases bs with
    | nil => exact .ok trivial
    | cons => cases h
  | cons a as ih =>
    cases bs with
    | nil => cases h
    | cons b bs =>
      obtain ⟨text, p⟩ := a
      obtain ⟨text', q⟩ := b
      obtain ⟨rfl, htexts⟩ := List.cons.inj h
      have hrest := ih htexts (text :: seen)
      unfold checkParameterNames
      extract_lets rest twice reserved rest' twice' reserved'
      have htwice (u u' : Unit) : ChecksAlike (twice u) (twice' u') :=
        .ite (fun _ => .bind (R := fun _ _ => True) (.error (by rfl)) fun _ _ _ => hrest)
          fun _ => hrest
      have hreserved (u u' : Unit) : ChecksAlike (reserved u) (reserved' u') :=
        .ite (fun _ => .bind (R := fun _ _ => True) (.error (by rfl)) fun _ _ _ => htwice () ())
          fun _ => htwice () ()
      exact .ite (fun _ => .bind (checksAlike_yield _ _ _ rfl) fun _ _ _ => hreserved () ())
        fun _ => hreserved () ()

theorem boundNames_text {n m : Node} (h : n.Alike m) :
    (boundNames n).map (·.text) = (boundNames m).map (·.text) := by
  simpa [boundNames, Function.comp_def] using h.boundNames

/-! ## Parameters -/

theorem isPlainParameter_bare (n : Node) : isPlainParameter n.bare = isPlainParameter n := by
  obtain ⟨span, shape⟩ := n
  cases shape
  case parameter isRest pattern fallback =>
    obtain ⟨span', pattern⟩ := pattern
    cases isRest <;> cases fallback <;> cases pattern <;> rfl
  all_goals rfl

theorem checkParameters_bare (outerStrict strict unique : Bool) (n : Node) :
    ChecksAlike (checkParameters outerStrict strict unique n)
      (checkParameters outerStrict strict unique n.bare) := by
  obtain ⟨span, shape⟩ := n
  unfold checkParameters
  rw [shape_bare]
  cases shape
  case signature parameters =>
    have hplain : (parameters.map bare).all isPlainParameter = parameters.all isPlainParameter := by
      rw [List.all_map, show isPlainParameter ∘ bare = isPlainParameter from
        funext isPlainParameter_bare]
    simp only [Shape.map, hplain]
    refine checksAlike_parameterNames _ _ _ ?_ _
    rw [List.flatMap_map, List.map_flatMap, List.map_flatMap]
    refine List.flatMap_congr fun parameter _ => ?_
    rw [shape_bare]
    obtain ⟨span', shape⟩ := parameter
    cases shape
    case parameter isRest pattern fallback =>
      simp [Shape.map, boundNames, Function.comp_def, boundNames_bare]
    all_goals rfl
  all_goals exact .ok trivial

theorem checksAlike_parameters (outerStrict strict unique : Bool) {n m : Node} (h : n.Alike m) :
    ChecksAlike (checkParameters outerStrict strict unique n)
      (checkParameters outerStrict strict unique m) :=
  (checkParameters_bare outerStrict strict unique n).through
    (h ▸ checkParameters_bare outerStrict strict unique m) fun _ _ _ _ _ => trivial

/-! ## Targets -/

/-- The parts of a pattern in braces, and what takes the rest. -/
def PropertiesAlike (r s : List Node × Option Node) : Prop :=
  r.1.map bare = s.1.map bare ∧ r.2.map bare = s.2.map bare

/-- The parts of a pattern in brackets, and what takes the rest. -/
def ElementsAlike (r s : List (Option (Defaulted Node)) × Option Node) : Prop :=
  r.1.map (·.map (·.map bare)) = s.1.map (·.map (·.map bare)) ∧ r.2.map bare = s.2.map bare

theorem PropertiesAlike.cons {properties properties' : List Node} {rest rest' : Option Node}
    {p p' : Node} (hp : p.Alike p') (h : PropertiesAlike (properties, rest) (properties', rest')) :
    PropertiesAlike (p :: properties, rest) (p' :: properties', rest') :=
  ⟨List.cons_eq_cons.2 ⟨hp, h.1⟩, h.2⟩

theorem ElementsAlike.cons {elements elements' : List (Option (Defaulted Node))}
    {rest rest' : Option Node} {d d' : Defaulted Node} (hd : d.map bare = d'.map bare)
    (h : ElementsAlike (elements, rest) (elements', rest')) :
    ElementsAlike (some d :: elements, rest) (some d' :: elements', rest') :=
  ⟨List.cons_eq_cons.2 ⟨congrArg some hd, h.1⟩, h.2⟩

theorem accessTarget_bare (n : Node) :
    ResultsAlike Node.Alike (accessTarget n) (accessTarget n.bare) := by
  unfold accessTarget
  rw [continuesChain_bare]
  exact .ite (fun _ => .error rfl) fun _ => .ok (bare_bare n).symm

/-- A plain assignment can be told from everything else without the places. -/
theorem bare_ne_assignment {value : Node}
    (h : ∀ span left right, value = ⟨span, .assignment .assign left right⟩ → False)
    (span : Source.Span) (left right : Node) :
    value.bare = ⟨span, .assignment .assign left right⟩ → False := by
  obtain ⟨span', shape⟩ := value
  intro hbare
  have hshape : shape.map bare = .assignment .assign left right :=
    (shape_bare _).symm.trans (congrArg Node.shape hbare)
  cases shape <;> cases hshape
  exact h _ _ _ rfl

/-- The induction is along the functions that turn expressions into targets, literal by literal and
part by part. -/
theorem targets_bare :
    (∀ n, ResultsAlike Node.Alike (target n) (target n.bare)) ∧
    (∀ whole members, ∀ whole', ResultsAlike PropertiesAlike (objectTargets whole members)
      (objectTargets whole' (members.map bare))) ∧
    ∀ whole elements, ∀ whole', ResultsAlike ElementsAlike (arrayTargets whole elements)
      (arrayTargets whole' (elements.map (·.map bare))) := by
  apply target.mutual_induct
  case case1 | case2 =>
    intros
    exact accessTarget_bare _
  case case3 | case4 =>
    intro span name
    exact .ok rfl
  case case5 | case6 =>
    intro span parts rest
    exact .ok (bare_bare _).symm
  case case7 | case8 =>
    intro span parts ih
    rw [bare_eq]
    refine .bind (ih ⟨0, 0⟩) fun r s h => .ok (.mk ?_)
    simp only [Shape.map, h.1, h.2]
  case case9 =>
    intro span shape hmember hindex hidentifier hname harray hobject harray' hobject'
    cases shape
    case member => exact absurd rfl (hmember _ _ _ _)
    case index => exact absurd rfl (hindex _ _ _ _)
    case identifier => exact absurd rfl (hidentifier _)
    case bindingName => exact absurd rfl (hname _)
    case arrayPattern => exact absurd rfl (harray _ _)
    case objectPattern => exact absurd rfl (hobject _ _)
    case arrayLiteral => exact absurd rfl (harray' _)
    case objectLiteral => exact absurd rfl (hobject' _)
    all_goals exact .error rfl
  case case10 | case16 =>
    intro whole whole'
    exact .ok ⟨rfl, rfl⟩
  case case11 =>
    intro whole span name members ih whole'
    rw [List.map_cons, bare_eq]
    exact .bind (ih whole') fun _ _ h => .ok (.cons (.mk rfl) h)
  case case12 =>
    intro whole span value members ih whole'
    rw [List.map_cons, bare_eq]
    refine .bind ih fun rest rest' h => ?_
    rw [List.isEmpty_map]
    exact .ite (fun _ => .ok ⟨rfl, congrArg some h⟩) fun _ => .error rfl
  case case13 =>
    intro whole span key span' left value members ihleft ih whole'
    have hvalue : bare ⟨span', .assignment .assign left value⟩ =
        ⟨⟨0, 0⟩, .assignment .assign left.bare value.bare⟩ := bare_eq _
    rw [List.map_cons, bare_eq]
    simp only [Shape.map, ObjectMember.map, MemberValue.map, Option.map_some, hvalue]
    refine .bind ihleft fun left left' hleft => ?_
    refine .bind (ih whole') fun _ _ h => .ok (.cons (.mk ?_) h)
    simp only [Shape.map, hleft, Key.map_map, Function.comp_def, bare_bare, Option.map_some]
  case case14 =>
    intro whole span key value members hassignment ihvalue ih whole'
    rw [List.map_cons, bare_eq, objectTargets.eq_5 _ _ _ _ _ hassignment]
    simp only [Shape.map, ObjectMember.map, MemberValue.map, Option.map_some]
    rw [objectTargets.eq_5 _ _ _ _ _ (bare_ne_assignment hassignment)]
    refine .bind ihvalue fun value value' hvalue => ?_
    refine .bind (ih whole') fun _ _ h => .ok (.cons (.mk ?_) h)
    simp only [Shape.map, hvalue, Key.map_map, Function.comp_def, bare_bare, Option.map_none]
  case case15 =>
    intro whole span shape members hshorthand hspread hassigned hvalued whole'
    rw [objectTargets.eq_6 _ _ _ _ hshorthand hspread hassigned hvalued]
    cases shape
    case objectMember content =>
      cases content
      case shorthand => exact absurd rfl (hshorthand _)
      case spread => exact absurd rfl (hspread _)
      case valued key value =>
        cases value
        case property initializer =>
          cases initializer
          case none => exact .error rfl
          case some => exact absurd rfl (hvalued _ _)
        all_goals exact .error rfl
    all_goals exact .error rfl
  case case17 =>
    intro whole elements ih whole'
    exact .bind (ih whole') fun _ _ h => .ok ⟨List.cons_eq_cons.2 ⟨rfl, h.1⟩, h.2⟩
  case case18 =>
    intro whole value elements ih whole'
    refine .bind ih fun rest rest' h => ?_
    rw [List.isEmpty_map]
    exact .ite (fun _ => .ok ⟨rfl, congrArg some h⟩) fun _ => .error rfl
  case case19 =>
    intro whole span left value elements ihleft ih whole'
    have hvalue : bare ⟨span, .assignment .assign left value⟩ =
        ⟨⟨0, 0⟩, .assignment .assign left.bare value.bare⟩ := bare_eq _
    rw [List.map_cons, ArrayElement.map, hvalue]
    refine .bind ihleft fun left left' hleft => ?_
    refine .bind (ih whole') fun _ _ h => .ok (.cons ?_ h)
    simp only [Defaulted.map, hleft, Option.map_some, bare_bare]
  case case20 =>
    intro whole value elements hassignment ihvalue ih whole'
    rw [List.map_cons, ArrayElement.map, arrayTargets.eq_5 _ _ _ hassignment,
      arrayTargets.eq_5 _ _ _ (bare_ne_assignment hassignment)]
    refine .bind ihvalue fun value value' hvalue => ?_
    refine .bind (ih whole') fun _ _ h => .ok (.cons ?_ h)
    simp only [Defaulted.map, hvalue, Option.map_none]

theorem assignmentTarget_bare (operator : AssignmentOperator) (n : Node) :
    ResultsAlike Node.Alike (assignmentTarget operator n) (assignmentTarget operator n.bare) := by
  have htarget := targets_bare.1 n
  obtain ⟨span, shape⟩ := n
  unfold assignmentTarget
  rw [shape_bare]
  cases shape
  case identifier | member | index => exact htarget
  case arrayLiteral | objectLiteral => exact .ite (fun _ => htarget) fun _ => .error rfl
  all_goals exact .error rfl

theorem assignmentTarget_alike (operator : AssignmentOperator) {n m : Node} (h : n.Alike m) :
    ResultsAlike Node.Alike (assignmentTarget operator n) (assignmentTarget operator m) :=
  (assignmentTarget_bare operator n).through (h ▸ assignmentTarget_bare operator m)
    fun _ _ _ hn hm => hn.trans hm.symm

theorem checkUpdate_bare (n : Node) : ChecksAlike (checkUpdate n) (checkUpdate n.bare) := by
  have hchain := continuesChain_bare n
  obtain ⟨span, shape⟩ := n
  unfold checkUpdate
  rw [shape_bare, hchain]
  cases shape
  case identifier => exact .ok trivial
  case member | index => exact .ite (fun _ => .error rfl) fun _ => .ok trivial
  all_goals exact .error rfl

theorem checksAlike_update {n m : Node} (h : n.Alike m) :
    ChecksAlike (checkUpdate n) (checkUpdate m) :=
  (checkUpdate_bare n).through (h ▸ checkUpdate_bare m) fun _ _ _ _ _ => trivial

end Grammar

end ScriptMin
