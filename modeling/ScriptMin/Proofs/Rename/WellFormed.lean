import ScriptMin.Proofs.Rename.Reopen
import ScriptMin.Proofs.Tree.WellFormed

/-!
# Renaming keeps trees well formed

A node whose names are closed fits every role that the node fits: only names change, and a shorthand
may be written out. The proof goes from the leaves up, with one lemma for each part that gives its
children roles.
-/

namespace ScriptMin

open Node

namespace Rename

open Scoped

/-- Closed in any environment, a node fits where it did. -/
def Stays (n : Node) : Prop :=
  ∀ e role strict place, n.Fits place → (closed e role strict n).Fits place

section Parts

variable (e : Environment) (strict : Bool)

/-- Children in roles that are given with them. -/
theorem filled_shape {s : Shape Node} (s' : Shape (Role × Node)) (hs : s'.map Prod.snd = s)
    (ih : ∀ c ∈ s.children, Stays c) (h : Filled s.places) :
    Filled (s'.map fun p => closed e p.1 strict p.2).places := by
  subst hs
  simp only [Filled, Shape.places_map, Shape.children_map, List.forall_mem_map, Prod.map,
    id] at ih h ⊢
  exact fun p hp => ih p.2 (Shape.mem_children_of_mem_places hp) e _ strict p.1 (h p hp)

/-- Children that are all in one role. -/
theorem filled_map (role : Role) {s : Shape Node} (ih : ∀ c ∈ s.children, Stays c)
    (h : Filled s.places) : Filled (s.map (closed e role strict)).places := by
  have hs : (s.map (role, ·)).map Prod.snd = s := by
    rw [Shape.map_map]
    exact s.map_id
  have hfilled := filled_shape e strict (s.map (role, ·)) hs ih h
  rwa [Shape.map_map] at hfilled

/-- Children that are values. -/
theorem filled_plainShape {s : Shape Node} (ih : ∀ c ∈ s.children, Stays c) (h : Filled s.places) :
    Filled ((plainShape strict (s.map opened)).close e).places := by
  rw [plainShape, close_shape, Shape.map_map, Shape.map_map]
  exact filled_map e strict .value ih h

theorem filled_option (role : Role) {place : ScriptMin.Role} {o : Option Node}
    (ih : ∀ c ∈ o, Stays c) (h : Filled (place.each o.toList)) :
    Filled (place.each (o.map (closed e role strict)).toList) := by
  cases o with
  | none => exact h
  | some c => exact filled_cons.2 ⟨ih c rfl e role strict place (filled_cons.1 h).1, filled_nil⟩

theorem filled_key {k : Key Node} (ih : ∀ c ∈ k.children, Stays c) (h : Filled k.places) :
    Filled ((key strict (k.map opened)).close e).places := by
  cases k with
  | direct text => exact h
  | computed c =>
    exact filled_cons.2 ⟨ih c List.mem_cons_self e .value strict _ (filled_cons.1 h).1, filled_nil⟩

/-- Parameters and a body. -/
theorem filled_functionParts {place place' : ScriptMin.Role} {parameters body : Node}
    (hparameters : Stays parameters) (hbody : Stays body)
    (h : Filled [(place, parameters), (place', body)]) :
    let parts := (functionParts strict (opened parameters) (opened body)).close e
    Filled [(place, parts.1), (place', parts.2)] := by
  simp only [filled_cons, filled_nil, and_true] at h ⊢
  exact ⟨hparameters _ _ _ _ h.1, hbody _ _ _ _ h.2⟩

theorem filled_memberValue {v : MemberValue Node} (ih : ∀ c ∈ v.children, Stays c)
    (h : Filled v.places) : Filled ((memberValue strict (v.map opened)).close e).places := by
  cases v with
  | getter body =>
    have hbody := ih body (by simp [MemberValue.children])
    exact filled_cons.2 ⟨hbody _ _ _ _ (filled_cons.1 h).1, filled_nil⟩
  | method isAsync generator parameters body =>
    exact filled_functionParts e strict (ih parameters (by simp [MemberValue.children]))
      (ih body (by simp [MemberValue.children])) h
  | property initializer =>
    have hinitializer : ∀ c ∈ initializer, Stays c :=
      fun c hc => ih c (by simpa [MemberValue.children] using hc)
    simp only [memberValue, MemberValue.map, close_map, close_option, Option.map_map]
    exact filled_option e strict .value hinitializer h
  | setter parameter body =>
    have hparameter := ih parameter (by simp [MemberValue.children])
    have hbody := ih body (by simp [MemberValue.children])
    simp only [MemberValue.places, filled_cons, filled_nil, and_true] at h
    exact filled_cons.2 ⟨hparameter _ _ _ _ h.1,
      filled_cons.2 ⟨hbody _ _ _ _ h.2, filled_nil⟩⟩

theorem filled_classMember {m : ClassMember Node} (ih : ∀ c ∈ m.children, Stays c)
    (h : Filled m.places) : Filled ((classMember (m.map opened)).close e).places := by
  obtain ⟨hkey, hvalue⟩ := filled_append.1 h
  exact filled_append.2
    ⟨filled_key e true (fun c hc => ih c (by simp [ClassMember.children, hc])) hkey,
      filled_memberValue e true (fun c hc => ih c (by simp [ClassMember.children, hc])) hvalue⟩

/-- A name, a heritage and members. -/
theorem filled_class (role : Role) {name parent : Option Node} {members : List (ClassMember Node)}
    (ih : ∀ c ∈ (Shape.classDeclaration name parent members).children, Stays c)
    (h : Filled (Shape.classDeclaration name parent members).places) :
    let parts := (classParts (parent.map opened) (members.map (·.map opened))).close e
    Filled (Shape.classDeclaration (name.map (closed e role strict)) parts.1 parts.2).places := by
  simp only [Shape.children, List.forall_mem_append, Option.mem_toList,
    List.forall_mem_flatMap] at ih
  obtain ⟨⟨hname, hparent⟩, hmembers⟩ := ih
  obtain ⟨hfirst, hmemberPlaces⟩ := filled_append.1 h
  obtain ⟨hnamePlaces, hparentPlaces⟩ := filled_append.1 hfirst
  refine filled_append.2
    ⟨filled_append.2 ⟨filled_option e strict role hname hnamePlaces, ?_⟩, ?_⟩
  · simp only [classParts, close_seq, close_map, close_option, Option.map_map]
    exact filled_option e true .value hparent hparentPlaces
  · simp only [classParts, close_seq, close_map, close_list, List.map_map]
    rw [filled_flatMap] at hmemberPlaces ⊢
    rw [List.forall_mem_map]
    exact fun m hm => filled_classMember e (hmembers m hm) (hmemberPlaces m hm)

/-- A shorthand that is written out holds a name. -/
theorem filled_objectMember (span : Source.Span) {m : ObjectMember Node}
    (ih : ∀ c ∈ m.children, Stays c) (h : Filled m.places) :
    Filled ((objectMember span strict (m.map opened)).close e).places := by
  cases m with
  | valued k value =>
    obtain ⟨hkey, hvalue⟩ := filled_append.1 h
    exact filled_append.2
      ⟨filled_key e strict (fun c hc => ih c (by simp [ObjectMember.children, hc])) hkey,
        filled_memberValue e strict (fun c hc => ih c (by simp [ObjectMember.children, hc])) hvalue⟩
  | shorthand name =>
    have hclose : (objectMember span strict (.shorthand name)).close e =
        if e.read name == name then .shorthand name
        else .valued (.direct name) (.property (some ⟨span, .identifier (e.read name)⟩)) := rfl
    rw [ObjectMember.map, hclose]
    split
    · exact filled_nil
    · exact filled_cons.2 ⟨fits_mk rfl filled_nil, filled_nil⟩
  | spread c =>
    exact filled_cons.2 ⟨ih c List.mem_cons_self _ _ _ _ (filled_cons.1 h).1, filled_nil⟩

end Parts

/-! ## Shapes that give their children roles -/

/-- The children of a shape, closed in their roles, stand where they did. -/
def ShapeStays (s : Shape Node) : Prop :=
  ∀ e span role strict, Filled ((openShape span role strict (s.map opened)).close e).places

section Shapes

variable {name fallback parent : Option Node} {target parameters body : Node}

theorem shapeStays_arrayPattern {elements : List (Option (Defaulted Node))} {rest : Option Node}
    (ih : ∀ c ∈ (Shape.arrayPattern elements rest).children, Stays c)
    (h : Filled (Shape.arrayPattern elements rest).places) :
    ShapeStays (.arrayPattern elements rest) := by
  intro e span role strict
  have hfilled := filled_shape e strict (s := .arrayPattern elements rest)
    (.arrayPattern (elements.map (·.map fun d => ⟨(role, d.target), d.fallback.map (.value, ·)⟩))
      (rest.map (role, ·)))
    (by simp [Shape.map, Defaulted.map, Function.comp_def]) ih h
  simpa only [openShape, Shape.map, close_shape, List.map_map, Option.map_map, Function.comp_def,
    inRole, opened_snd, Defaulted.map, closed] using hfilled

theorem shapeStays_patternProperty {k : Key Node} {shorthand : Bool}
    (ih : ∀ c ∈ (Shape.patternProperty k target fallback shorthand).children, Stays c)
    (h : Filled (Shape.patternProperty k target fallback shorthand).places) :
    ShapeStays (.patternProperty k target fallback shorthand) := by
  intro e span role strict
  simp only [Shape.children, List.forall_mem_append, List.forall_mem_singleton,
    Option.mem_toList] at ih
  obtain ⟨⟨hkey, htarget⟩, hfallback⟩ := ih
  obtain ⟨hfirst, hfallbackPlaces⟩ := filled_append.1 h
  obtain ⟨hkeyPlaces, htargetPlaces⟩ := filled_append.1 hfirst
  refine filled_append.2 ⟨filled_append.2 ⟨filled_key e strict hkey hkeyPlaces, ?_⟩, ?_⟩
  · exact filled_cons.2 ⟨htarget _ _ _ _ (filled_cons.1 htargetPlaces).1, filled_nil⟩
  · simp only [close_option, Option.map_map]
    exact filled_option e strict .value hfallback hfallbackPlaces

theorem shapeStays_parameter {isRest : Bool}
    (ih : ∀ c ∈ (Shape.parameter isRest target fallback).children, Stays c)
    (h : Filled (Shape.parameter isRest target fallback).places) :
    ShapeStays (.parameter isRest target fallback) := by
  intro e span role strict
  simp only [Shape.children, List.forall_mem_cons, Option.mem_toList] at ih
  obtain ⟨htarget, hfallback⟩ := filled_cons.1 h
  refine filled_cons.2 ⟨ih.1 _ _ _ _ htarget, ?_⟩
  simp only [Option.map_map]
  exact filled_option e strict .value ih.2 hfallback

theorem shapeStays_variableDeclaration {kind : VariableKind} {declarators : List (Declarator Node)}
    (ih : ∀ c ∈ (Shape.variableDeclaration kind declarators).children, Stays c)
    (h : Filled (Shape.variableDeclaration kind declarators).places) :
    ShapeStays (.variableDeclaration kind declarators) := by
  intro e span role strict
  have hfilled := filled_shape e strict (s := .variableDeclaration kind declarators)
    (.variableDeclaration kind (declarators.map fun d =>
      ⟨(.declaration (variableDeclares kind), d.pattern), d.initializer.map (.value, ·)⟩))
    (by simp [Shape.map, Declarator.map, Function.comp_def]) ih h
  simpa only [openShape, Shape.map, close_shape, List.map_map, Option.map_map, Function.comp_def,
    inRole, opened_snd, Declarator.map, closed] using hfilled

/-- The name of a function, its parameters and its body. -/
theorem stays_function (ih : ∀ c ∈ name.toList ++ [parameters, body], Stays c) :
    (∀ c ∈ name, Stays c) ∧ Stays parameters ∧ Stays body := by
  simpa [or_imp, forall_and] using ih

theorem shapeStays_functionDeclaration {isAsync generator : Bool}
    (ih : ∀ c ∈ (Shape.functionDeclaration isAsync generator name parameters body).children,
      Stays c)
    (h : Filled (Shape.functionDeclaration isAsync generator name parameters body).places) :
    ShapeStays (.functionDeclaration isAsync generator name parameters body) := by
  intro e span role strict
  obtain ⟨hname, hparameters, hbody⟩ := stays_function ih
  obtain ⟨hnamePlaces, hparts⟩ := filled_append.1 h
  refine filled_append.2 ⟨?_, filled_functionParts e strict hparameters hbody hparts⟩
  simp only [close_option, Option.map_map]
  exact filled_option e strict _ hname hnamePlaces

theorem shapeStays_functionExpression {isAsync generator : Bool}
    (ih : ∀ c ∈ (Shape.functionExpression isAsync generator name parameters body).children,
      Stays c)
    (h : Filled (Shape.functionExpression isAsync generator name parameters body).places) :
    ShapeStays (.functionExpression isAsync generator name parameters body) := by
  intro e span role strict
  obtain ⟨hname, hparameters, hbody⟩ := stays_function ih
  obtain ⟨hnamePlaces, hparts⟩ := filled_append.1 h
  cases name with
  | none => exact filled_functionParts e strict hparameters hbody hparts
  | some name =>
    exact filled_cons.2 ⟨hname name rfl _ _ _ _ (filled_cons.1 hnamePlaces).1,
      filled_functionParts _ strict hparameters hbody hparts⟩

theorem shapeStays_classDeclaration {members : List (ClassMember Node)}
    (ih : ∀ c ∈ (Shape.classDeclaration name parent members).children, Stays c)
    (h : Filled (Shape.classDeclaration name parent members).places) :
    ShapeStays (.classDeclaration name parent members) := by
  intro e span role strict
  simp only [openShape, Shape.map, close_seq, close_map, close_option, Option.map_map]
  exact filled_class e strict (.declaration .lexical) ih h

theorem shapeStays_classExpression {members : List (ClassMember Node)}
    (ih : ∀ c ∈ (Shape.classExpression name parent members).children, Stays c)
    (h : Filled (Shape.classExpression name parent members).places) :
    ShapeStays (.classExpression name parent members) := by
  intro e span role strict
  simp only [openShape, Shape.map, close_within, close_seq, close_map, close_option,
    Option.map_map]
  exact filled_class _ strict (.declaration .lexical) ih h

theorem shapeStays_switchStatement {subject : Node} {cases : List Node}
    (ih : ∀ c ∈ (Shape.switchStatement subject cases).children, Stays c)
    (h : Filled (Shape.switchStatement subject cases).places) :
    ShapeStays (.switchStatement subject cases) := by
  intro e span role strict
  obtain ⟨hsubject, hcases⟩ := filled_cons.1 h
  refine filled_cons.2 ⟨ih subject List.mem_cons_self _ _ _ _ hsubject, ?_⟩
  rw [filled_each] at hcases ⊢
  simp only [close_within, close_list, List.forall_mem_map]
  exact fun c hc => ih c (List.mem_cons_of_mem _ hc) _ _ _ _ (hcases c hc)

theorem shapeStays_catchClause {pattern : Option Node}
    (ih : ∀ c ∈ (Shape.catchClause pattern body).children, Stays c)
    (h : Filled (Shape.catchClause pattern body).places) :
    ShapeStays (.catchClause pattern body) := by
  intro e span role strict
  simp only [Shape.children, List.forall_mem_append, List.forall_mem_singleton,
    Option.mem_toList] at ih
  obtain ⟨hpattern, hbody⟩ := filled_append.1 h
  refine filled_append.2 ⟨?_, filled_cons.2 ⟨ih.2 _ _ _ _ (filled_cons.1 hbody).1, filled_nil⟩⟩
  simp only [Option.map_map]
  exact filled_option _ strict (.declaration .lexical) ih.1 hpattern

/-- What an exported list names keeps its names. -/
theorem shapeStays_exportList {names : ModuleNames Node} {source : Option String}
    (h : Filled (Shape.exportList names source).places) :
    ShapeStays (.exportList names source) := by
  intro e span role strict
  have hnames : (names.map opened).map (·.1) = names := by
    rw [ModuleNames.map_map]
    exact names.map_id
  simp only [openShape, Shape.map, close_seqRight, close_pure, hnames]
  exact h

end Shapes

/-! ## Whole trees -/

/-- Closing changes no shape but in what the role asks nothing about. -/
theorem accepts_openShape (place : ScriptMin.Role) (e : Environment) (span : Source.Span)
    (role : Role) (strict : Bool) (s : Shape Node) :
    place.accepts ((openShape span role strict (s.map opened)).close e) = place.accepts s := by
  cases s
  case definitionName name => cases role <;> cases place <;> rfl
  case functionExpression isAsync generator name parameters body =>
    cases name <;> cases place <;> rfl
  case call isOptional parenthesised callee arguments =>
    simp only [openShape, Shape.map]
    split <;> cases place <;> rfl
  case block body =>
    simp only [openShape, Shape.map]
    split <;> cases place <;> rfl
  all_goals cases place <;> rfl

theorem shapeStays {s : Shape Node} (ih : ∀ c ∈ s.children, Stays c) (h : Filled s.places) :
    ShapeStays s := by
  have hplain := fun e strict => filled_plainShape e strict ih h
  cases s
  case bindingName name => intro e span role strict; cases role <;> exact filled_nil
  case definitionName name => intro e span role strict; cases role <;> exact filled_nil
  case identifier name => exact fun _ _ _ _ => filled_nil
  case arrayPattern => exact shapeStays_arrayPattern ih h
  case objectPattern =>
    intro e span role strict
    simp only [openShape, Shape.map, close_shape, List.map_map, Option.map_map]
    exact filled_map e strict role ih h
  case patternProperty => exact shapeStays_patternProperty ih h
  case parameter => exact shapeStays_parameter ih h
  case variableDeclaration => exact shapeStays_variableDeclaration ih h
  case functionDeclaration => exact shapeStays_functionDeclaration ih h
  case functionExpression => exact shapeStays_functionExpression ih h
  case arrowFunction =>
    intro e span role strict
    exact filled_functionParts e strict (ih _ (by simp [Shape.children]))
      (ih _ (by simp [Shape.children])) h
  case classDeclaration => exact shapeStays_classDeclaration ih h
  case classExpression => exact shapeStays_classExpression ih h
  case objectMember => exact fun e span _ strict => filled_objectMember e strict span ih h
  case call =>
    intro e span role strict
    simp only [openShape, Shape.map]
    split <;> exact hplain e strict
  case block =>
    intro e span role strict
    simp only [openShape, Shape.map]
    split <;> exact hplain _ strict
  case switchStatement => exact shapeStays_switchStatement ih h
  case catchClause => exact shapeStays_catchClause ih h
  case importDeclaration =>
    intro e span role strict
    simp only [openShape, Shape.map, close_shape, Option.map_map, Function.comp_def,
      ModuleNames.map_map]
    exact filled_map e strict (.declaration .lexical) ih h
  case exportList => exact shapeStays_exportList h
  -- The other shapes have values for children.
  all_goals exact fun _ _ _ strict => hplain _ strict

/-- A node fits where it did, whatever its names are now. -/
theorem stays (n : Node) : Stays n := by
  induction n using Node.induction with
  | h n ih =>
    intro e role strict place h
    obtain ⟨haccepted, hfilled⟩ := fits_iff.1 h
    rw [fits_iff, shape_closed, accepts_openShape]
    exact ⟨haccepted, shapeStays ih hfilled e n.span role strict⟩

theorem wellFormed_closed {n : Node} (h : n.WellFormed) (e : Environment) (role : Role)
    (strict : Bool) : (closed e role strict n).WellFormed := by
  rw [wellFormed_iff, shape_closed]
  exact shapeStays (fun c _ => stays c) (wellFormed_iff.1 h) e n.span role strict

end Rename

/-- A program stays well formed when its declarations are renamed. -/
theorem Program.wellFormed_rename (o : RenameOptions) {p : Program} (hp : p.root.WellFormed) :
    (p.rename o).root.WellFormed :=
  Rename.wellFormed_closed hp _ .value p.strict

end ScriptMin
