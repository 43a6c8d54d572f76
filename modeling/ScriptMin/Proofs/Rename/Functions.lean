import ScriptMin.Proofs.Rename.Reference
import ScriptMin.Proofs.Rename.Roles
import ScriptMin.Proofs.Strictness.Functions

/-!
# The strictness with which function declarations are renamed

A function declaration belongs to its block in strict code and to the function around it otherwise,
so the renamer binds its name as strict or not. What it goes by are the verdicts on the code around
the declarations: `functionsIn_openNode` goes through a tree, with one lemma for each part that
opens a scope or that changes the strictness. With what is known of the frames, this tells where the
renamer and the reader of programs agree.
-/

namespace ScriptMin

open Grammar

namespace Rename

/-! ## Function declarations among items -/

mutual

/-- The function declarations in an item, each with whether it is bound as strict code. -/
def Item.functions : Item → List (String × Bool)
  | .declares name .function strict => [(name, strict)]
  | .scope _ items => functionsIn items
  | _ => []

/-- The function declarations among items and in the scopes there. -/
def functionsIn : List Item → List (String × Bool)
  | [] => []
  | item :: rest => item.functions ++ functionsIn rest

end

@[simp] theorem functionsIn_nil : functionsIn [] = [] := rfl

@[simp] theorem functionsIn_append (items items' : List Item) :
    functionsIn (items ++ items') = functionsIn items ++ functionsIn items' := by
  induction items with
  | nil => rfl
  | cons item rest ih => simp [functionsIn, ih]

@[simp] theorem functionsIn_scope (kind : ScopeKind) (items : List Item) :
    functionsIn [.scope kind items] = functionsIn items := by
  simp [functionsIn, Item.functions]

theorem functionsIn_flatMap {β : Type} (f : β → List Item) (l : List β) :
    functionsIn (l.flatMap f) = l.flatMap fun b => functionsIn (f b) := by
  induction l with
  | nil => rfl
  | cons b l ih => rw [List.flatMap_cons, functionsIn_append, ih, List.flatMap_cons]

end Rename

open Rename Scoped

/-! ## Function declarations of a tree -/

/-- The name that a function declaration binds, with what the renamer takes for its strictness. -/
def FunctionSite.binds (s : FunctionSite) : List (String × Bool) :=
  s.node.declaredNames.map (·, s.verdict.walked)

/-- The names that the function declarations in some code bind. -/
def Node.functionNames (n : Node) (v : Verdict) : List (String × Bool) :=
  (n.functionSites v).flatMap FunctionSite.binds

/-- The names that the function declarations in some parts bind. -/
def Verdict.functionNames (parts : List (Verdict × Node)) : List (String × Bool) :=
  parts.flatMap fun (v, c) => c.functionNames v

open Verdict (functionNames)

@[simp] theorem Verdict.functionNames_nil : functionNames [] = [] := rfl

@[simp] theorem Verdict.functionNames_append (parts parts' : List (Verdict × Node)) :
    functionNames (parts ++ parts') = functionNames parts ++ functionNames parts' :=
  List.flatMap_append

theorem Verdict.functionNames_flatMap {β : Type} (f : β → List (Verdict × Node)) (l : List β) :
    functionNames (l.flatMap f) = l.flatMap fun b => functionNames (f b) :=
  List.flatMap_assoc

theorem Node.functionNames_eq (n : Node) (v : Verdict) :
    n.functionNames v = (n.functionSite? v).toList.flatMap FunctionSite.binds ++
      Verdict.functionNames (n.shape.verdicts isStrictBody v) := by
  rw [functionNames, functionSites_eq, List.flatMap_append, List.flatMap_assoc]
  rfl

namespace Rename

/-- Nothing is declared as a function by its place there. -/
def Role.IsOther (role : Role) : Prop := role ≠ .declaration .function

theorem Role.isOther_value : Role.value.IsOther := by simp [IsOther]

theorem Role.isOther_body : Role.body.IsOther := by simp [IsOther]

theorem Role.isOther_lexical : (Role.declaration .lexical).IsOther := by simp [IsOther]

theorem Role.isOther_variable (kind : VariableKind) :
    (Role.declaration (variableDeclares kind)).IsOther := by
  cases kind <;> simp [IsOther, variableDeclares]

/-- What a node with open names binds as functions are its function declarations, by their
verdicts. -/
def Binds (n : Node) : Prop :=
  ∀ (role : Role) (v : Verdict), role.IsOther →
    functionsIn (openNode n role v.walked).items = n.functionNames v

/-! ## Names of functions and classes -/

section Definitions

variable {n : Node}

theorem exists_definitionName (h : n.Fits .definition) :
    ∃ name, n.shape = .definitionName name := by
  have haccepted := h.accepted
  obtain ⟨span, shape⟩ := n
  cases shape <;> first | exact ⟨_, rfl⟩ | cases haccepted

/-- A leaf holds no function declarations. -/
theorem functionNames_leaf (h : n.shape.children = []) (v : Verdict) : n.functionNames v = [] := by
  have hverdicts : n.shape.verdicts isStrictBody v = [] := by
    rw [← List.map_eq_nil_iff, Shape.snd_verdicts, h]
  have hsite : n.functionSite? v = none := by
    obtain ⟨span, shape⟩ := n
    cases shape <;> first | rfl | simp [Shape.children] at h
  rw [Node.functionNames_eq, hverdicts, hsite]
  rfl

theorem functionNames_definition (h : n.Fits .definition) (v : Verdict) :
    n.functionNames v = [] := by
  obtain ⟨name, hshape⟩ := exists_definitionName h
  exact functionNames_leaf (congrArg Shape.children hshape) v

/-- The name of a function declaration is bound as a function. -/
theorem functionsIn_functionName (h : n.Fits .definition) (strict : Bool) :
    functionsIn (openNode n (.declaration .function) strict).items =
      n.declaredNames.map (·, strict) := by
  obtain ⟨name, hshape⟩ := exists_definitionName h
  rw [items_openNode, Node.declaredNames_eq, hshape]
  rfl

/-- Other names are not. -/
theorem functionsIn_lexicalName (h : n.Fits .definition) (strict : Bool) :
    functionsIn (openNode n (.declaration .lexical) strict).items = [] := by
  obtain ⟨name, hshape⟩ := exists_definitionName h
  rw [items_openNode, hshape]
  rfl

end Definitions

/-! ## Parts -/

section Parts

variable {role : Role} (hrole : role.IsOther) (v : Verdict)

include hrole in
theorem functionsIn_each {cs : List Node} (ih : ∀ c ∈ cs, Binds c) :
    functionsIn (cs.flatMap fun c => (openNode c role v.walked).items) =
      functionNames (v.each cs) := by
  rw [functionsIn_flatMap, functionNames, Verdict.each, List.flatMap_map]
  exact List.flatMap_congr fun c hc => ih c hc role v hrole

include hrole in
theorem functionsIn_option {o : Option Node} (ih : ∀ c ∈ o, Binds c) :
    functionsIn (option ((o.map opened).map (·.2 role v.walked))).items =
      functionNames (v.each o.toList) := by
  rw [← functionsIn_each hrole v fun c hc => ih c (Option.mem_toList.1 hc), items_option]
  cases o <;> rfl

theorem functionsIn_key {k : Key Node} (ih : ∀ c ∈ k.children, Binds c) :
    functionsIn (key v.walked (k.map opened)).items = functionNames (v.each k.children) := by
  rw [← functionsIn_each Role.isOther_value v ih]
  cases k with
  | direct text => rfl
  | computed c => exact congrArg functionsIn (List.append_nil _).symm

/-- A directive counts for the parameters of a function as for its body. -/
theorem functionsIn_functionParts {parameters body : Node} (hparameters : Binds parameters)
    (hbody : Binds body) :
    functionsIn (functionParts v.walked (opened parameters) (opened body)).items =
      functionNames (v.parts isStrictBody parameters body) := by
  have hhead := hparameters .value (v.parameters (isStrictBody body)) Role.isOther_value
  have htail := hbody .body (v.body (isStrictBody body)) Role.isOther_body
  rw [Verdict.walked_parameters] at hhead
  rw [Verdict.walked_body] at htail
  simp [functionParts, Verdict.parts, functionNames, hhead, htail]

theorem functionsIn_memberValue {value : MemberValue Node} (ih : ∀ c ∈ value.children, Binds c) :
    functionsIn (memberValue v.walked (value.map opened)).items =
      functionNames (value.verdicts isStrictBody v) := by
  -- The directive of an accessor does not count.
  have haccessor : ∀ {body : Node}, Binds body → functionsIn (openNode body .body v.walked).items =
      body.functionNames (v.accessorBody (isStrictBody body)) := by
    intro body hbody
    have hopen := hbody .body (v.accessorBody (isStrictBody body)) Role.isOther_body
    rwa [Verdict.walked_accessorBody] at hopen
  cases value with
  | getter body =>
    have hbody := haccessor (ih body List.mem_cons_self)
    simp [memberValue, MemberValue.map, MemberValue.verdicts, functionNames, hbody]
  | method isAsync generator parameters body =>
    have hparts := functionsIn_functionParts v (ih parameters (by simp [MemberValue.children]))
      (ih body (by simp [MemberValue.children]))
    simpa [memberValue, MemberValue.map, MemberValue.verdicts] using hparts
  | property initializer =>
    have hinitializer : ∀ c ∈ initializer, Binds c :=
      fun c hc => ih c (by simpa [MemberValue.children] using hc)
    exact functionsIn_option Role.isOther_value v hinitializer
  | setter parameter body =>
    have hparameter := ih parameter (by simp [MemberValue.children]) _ v Role.isOther_lexical
    have hbody := haccessor (ih body (by simp [MemberValue.children]))
    simp [memberValue, MemberValue.map, MemberValue.verdicts, functionNames, hparameter, hbody]

theorem functionsIn_classMember {m : ClassMember Node} (ih : ∀ c ∈ m.children, Binds c) :
    functionsIn (classMember (m.map opened)).items =
      functionNames (Verdict.strict.each m.key.children ++
        m.value.verdicts isStrictBody .strict) := by
  obtain ⟨k, isStatic, value⟩ := m
  have hkey := functionsIn_key .strict fun c hc => ih c (List.mem_append_left _ hc)
  have hvalue := functionsIn_memberValue .strict fun c hc => ih c (List.mem_append_right _ hc)
  rw [Verdict.functionNames_append, ← hkey, ← hvalue]
  simp [classMember, ClassMember.map, Verdict.walked]

/-- The heritage and the members of a class are strict code. -/
theorem functionsIn_classParts {parent : Option Node} {members : List (ClassMember Node)}
    (hparent : ∀ c ∈ parent, Binds c) (hmembers : ∀ m ∈ members, ∀ c ∈ m.children, Binds c) :
    functionsIn (classParts (parent.map opened) (members.map (·.map opened))).items =
      functionNames (Verdict.strict.each parent.toList ++ members.flatMap fun m =>
        Verdict.strict.each m.key.children ++ m.value.verdicts isStrictBody .strict) := by
  have hheritage := functionsIn_option Role.isOther_value .strict hparent
  rw [Verdict.functionNames_append, Verdict.functionNames_flatMap, ← hheritage, classParts,
    items_seq, items_map, functionsIn_append, items_list, List.map_map, List.flatMap_map,
    functionsIn_flatMap]
  congr 1
  exact List.flatMap_congr fun m hm => functionsIn_classMember (hmembers m hm)

theorem functionsIn_objectMember (span : Source.Span) {m : ObjectMember Node}
    (ih : ∀ c ∈ m.children, Binds c) :
    functionsIn (objectMember span v.walked (m.map opened)).items =
      functionNames ((Shape.objectMember m).verdicts isStrictBody v) := by
  cases m with
  | valued k value =>
    have hkey := functionsIn_key v fun c hc => ih c (List.mem_append_left _ hc)
    have hvalue := functionsIn_memberValue v fun c hc => ih c (List.mem_append_right _ hc)
    rw [Shape.verdicts, Verdict.functionNames_append, ← hkey, ← hvalue]
    simp [objectMember, ObjectMember.map]
  | shorthand name => rfl
  | spread c =>
    have hspread := ih c List.mem_cons_self _ v Role.isOther_value
    simpa [objectMember, ObjectMember.map, Shape.verdicts, Verdict.each, Shape.children,
      ObjectMember.children, functionNames] using hspread

end Parts

/-! ## Shapes -/

/-- No child of a flat shape is declared as a function, if the shape itself is not. -/
theorem isOther_inRoles {α : Type} {role : Role} (hrole : role.IsOther) (s : Shape α) :
    ∀ p ∈ (s.inRoles role).children, p.1.IsOther := by
  have hvalues : ∀ s : Shape α, ∀ p ∈ (s.map (Role.value, ·)).children, p.1.IsOther := by
    intro s
    rw [Shape.children_map]
    exact List.forall_mem_map.2 fun c hc => Role.isOther_value
  have heach : ∀ {role : Role}, role.IsOther → ∀ o : Option α,
      ∀ p ∈ (o.map (role, ·)).toList, p.1.IsOther := by
    intro role hrole o
    rw [toList_optionMap]
    exact List.forall_mem_map.2 fun c hc => hrole
  cases hs : s
  case arrayPattern elements rest =>
    refine List.forall_mem_append.2 ⟨List.forall_mem_flatMap.2 ?_, heach hrole rest⟩
    refine List.forall_mem_map.2 fun e he => List.forall_mem_flatMap.2 ?_
    rw [toList_optionMap]
    refine List.forall_mem_map.2 fun d hd => ?_
    exact List.forall_mem_cons.2 ⟨hrole, heach Role.isOther_value d.fallback⟩
  case objectPattern properties rest =>
    refine List.forall_mem_append.2 ⟨?_, heach hrole rest⟩
    exact List.forall_mem_map.2 fun c hc => hrole
  case parameter isRest pattern fallback =>
    exact List.forall_mem_cons.2 ⟨Role.isOther_lexical, heach Role.isOther_value fallback⟩
  case variableDeclaration kind declarators =>
    refine List.forall_mem_flatMap.2 (List.forall_mem_map.2 fun d hd => ?_)
    exact List.forall_mem_cons.2
      ⟨Role.isOther_variable kind, heach Role.isOther_value d.initializer⟩
  case catchClause pattern body =>
    refine List.forall_mem_append.2 ⟨heach Role.isOther_lexical pattern, ?_⟩
    exact List.forall_mem_singleton.2 Role.isOther_body
  case importDeclaration defaultName names source =>
    refine List.forall_mem_append.2 ⟨heach Role.isOther_lexical defaultName, ?_⟩
    rw [toList_optionMap, List.flatMap_map]
    refine List.forall_mem_flatMap.2 fun ns hns => ?_
    rw [ModuleNames.children_map]
    exact List.forall_mem_map.2 fun c hc => Role.isOther_lexical
  all_goals
    have hchildren := hvalues s
    rw [hs] at hchildren
    exact hchildren

section Shapes

variable {name parent : Option Node} {parameters body : Node}

/-- What a shape with open names binds as functions are the function declarations below it. -/
def ShapeBinds (s : Shape Node) : Prop :=
  ∀ (span : Source.Span) (role : Role) (v : Verdict), role.IsOther →
    functionsIn (openShape span role v.walked (s.map opened)).items =
      functionNames (s.verdicts isStrictBody v)

/-- Children in their roles. -/
theorem functionsIn_inRoles {role : Role} (hrole : role.IsOther) (v : Verdict) {s : Shape Node}
    (ih : ∀ c ∈ s.children, Binds c) :
    functionsIn (shape ((s.inRoles role).map fun p => openNode p.2 p.1 v.walked)).items =
      functionNames (v.each s.children) := by
  rw [items_shape, Shape.children_map, List.flatMap_map, functionsIn_flatMap]
  calc (s.inRoles role).children.flatMap
          (fun p => functionsIn (openNode p.2 p.1 v.walked).items)
      = (s.inRoles role).children.flatMap (fun p => p.2.functionNames v) :=
        List.flatMap_congr fun p hp =>
          ih p.2 (Shape.mem_children_of_mem_inRoles hp) p.1 v (isOther_inRoles hrole s p hp)
    _ = functionNames (v.each s.children) := by
        conv_rhs => rw [← s.map_inRoles role, Shape.children_map]
        rw [functionNames, Verdict.each, List.map_map, List.flatMap_map]
        rfl

theorem functionsIn_plainShape (v : Verdict) {s : Shape Node} (ih : ∀ c ∈ s.children, Binds c) :
    functionsIn (plainShape v.walked (s.map opened)).items = functionNames (v.each s.children) := by
  rw [← functionsIn_each Role.isOther_value v ih, plainShape, Shape.map_map, items_shape,
    Shape.children_map, List.flatMap_map]
  rfl

/-- A name that is not declared as a function binds none. -/
theorem shapeBinds_name {text : String} :
    ShapeBinds (.bindingName text) ∧ ShapeBinds (.definitionName text) := by
  constructor <;> intro span role v hrole <;> obtain - | how | - := role
  case left.declaration | right.declaration =>
    cases how <;> first | rfl | exact absurd rfl hrole
  all_goals rfl

theorem shapeBinds_patternProperty {k : Key Node} {target : Node} {fallback : Option Node}
    {shorthand : Bool}
    (ih : ∀ c ∈ (Shape.patternProperty k target fallback shorthand).children, Binds c) :
    ShapeBinds (.patternProperty k target fallback shorthand) := by
  intro span role v hrole
  simp only [Shape.children, List.forall_mem_append, List.forall_mem_singleton,
    Option.mem_toList] at ih
  obtain ⟨⟨hkey, htarget⟩, hfallback⟩ := ih
  have hoption := functionsIn_option Role.isOther_value v hfallback
  simp only [openShape, Shape.map, patternProperty, items_seq, items_map, functionsIn_append,
    functionsIn_key v hkey, hoption, opened_snd, htarget role v hrole]
  simp [Shape.verdicts, Shape.children, Verdict.each, functionNames]

theorem shapeBinds_functionExpression {isAsync generator : Bool}
    (hname : ∀ n ∈ name, n.Fits .definition) (hparameters : Binds parameters) (hbody : Binds body) :
    ShapeBinds (.functionExpression isAsync generator name parameters body) := by
  intro span role v hrole
  have hparts := functionsIn_functionParts v hparameters hbody
  cases name with
  | none => simpa [openShape, Shape.map, Shape.verdicts, Verdict.each] using hparts
  | some name =>
    have hnone := functionNames_definition (hname name rfl) v
    simp [openShape, Shape.map, inRole, Shape.verdicts, Verdict.each, hparts,
      functionsIn_lexicalName (hname name rfl), functionNames, hnone]

theorem shapeBinds_arrowFunction {isAsync : Bool} (hparameters : Binds parameters)
    (hbody : Binds body) : ShapeBinds (.arrowFunction isAsync parameters body) := by
  intro span role v hrole
  have hparts := functionsIn_functionParts v hparameters hbody
  simpa [openShape, Shape.map, Shape.verdicts] using hparts

/-- The name of a class is no function, as strict as it may be. -/
theorem functionsIn_className (hname : ∀ n ∈ name, n.Fits .definition) (strict : Bool)
    (v : Verdict) :
    functionsIn (option ((name.map opened).map (inRole (.declaration .lexical) strict))).items =
      functionNames (v.each name.toList) := by
  cases name with
  | none => rfl
  | some name =>
    have hnone := functionNames_definition (hname name rfl) v
    simp [inRole, functionsIn_lexicalName (hname name rfl), Verdict.each, functionNames, hnone]

theorem shapeBinds_class {members : List (ClassMember Node)}
    (hname : ∀ n ∈ name, n.Fits .definition) (hparent : ∀ c ∈ parent, Binds c)
    (hmembers : ∀ m ∈ members, ∀ c ∈ m.children, Binds c) :
    ShapeBinds (.classDeclaration name parent members) ∧
      ShapeBinds (.classExpression name parent members) := by
  have hparts := functionsIn_classParts hparent hmembers
  constructor <;> intro span role v hrole
  · simp only [openShape, Shape.map, items_seq, items_map, functionsIn_append, hparts,
      functionsIn_className hname v.walked .strict]
    simp [Shape.verdicts]
  · simp only [openShape, Shape.map, items_within, functionsIn_scope, items_seq, items_map,
      functionsIn_append, hparts, functionsIn_className hname v.walked .strict]
    simp [Shape.verdicts]

theorem shapeBinds_call {isOptional parenthesised : Bool} {callee : Node} {arguments : List Node}
    (ih : ∀ c ∈ (Shape.call isOptional parenthesised callee arguments).children, Binds c) :
    ShapeBinds (.call isOptional parenthesised callee arguments) := by
  intro span role v hrole
  have hplain := functionsIn_plainShape v ih
  simp only [openShape, Shape.map] at hplain ⊢
  split <;> exact hplain

theorem shapeBinds_block {statements : List Node}
    (ih : ∀ c ∈ (Shape.block statements).children, Binds c) : ShapeBinds (.block statements) := by
  intro span role v hrole
  have hplain := functionsIn_plainShape v ih
  simp only [openShape, Shape.map] at hplain ⊢
  split
  · exact hplain
  · rwa [items_within, functionsIn_scope]

theorem shapeBinds_switchStatement {subject : Node} {cases : List Node}
    (ih : ∀ c ∈ (Shape.switchStatement subject cases).children, Binds c) :
    ShapeBinds (.switchStatement subject cases) := by
  intro span role v hrole
  obtain ⟨hsubject, hcases⟩ := List.forall_mem_cons.1 ih
  have hlist : functionsIn (list ((cases.map opened).map (inRole .value v.walked))).items =
      functionNames (v.each cases) := by
    rw [← functionsIn_each Role.isOther_value v hcases, items_list, List.map_map, List.flatMap_map]
    rfl
  simp only [openShape, Shape.map, items_within, items_seq, items_map, functionsIn_append,
    functionsIn_scope, hlist]
  exact congrArg (· ++ functionNames (v.each cases)) (hsubject .value v Role.isOther_value)

theorem shapeBinds_exportDeclaration {declaration : Node} {isDefault : Bool}
    (ih : ∀ c ∈ (Shape.exportDeclaration declaration isDefault).children, Binds c) :
    ShapeBinds (.exportDeclaration declaration isDefault) := by
  intro span role v hrole
  let s : Shape Node := .exportDeclaration declaration isDefault
  have hitems : (openShape span role v.walked (s.map opened)).items =
      [.exporting true] ++ (plainShape v.walked (s.map opened)).items ++ [.exporting false] := rfl
  rw [hitems, functionsIn_append, functionsIn_append, functionsIn_plainShape v ih]
  exact List.append_nil _

/-- What a list of exports shows are names, which hold no function declarations. -/
theorem shapeBinds_exportList {names : ModuleNames Node} {source : Option String}
    (hplaces : Node.Filled (Shape.exportList names source).places) :
    ShapeBinds (.exportList names source) := by
  intro span role v hrole
  have hnone : functionNames (v.each names.children) = [] := by
    rw [functionNames, Verdict.each, List.flatMap_map, List.flatMap_eq_nil_iff]
    intro c hc
    have hbinding : (Role.binding, c) ∈ (Shape.exportList names source).places :=
      List.mem_map_of_mem hc
    have haccepted := (hplaces _ hbinding).accepted
    refine functionNames_leaf ?_ v
    obtain ⟨cspan, shape⟩ := c
    cases shape <;> first | rfl | cases haccepted
  refine Eq.trans ?_ hnone.symm
  cases names <;> cases source <;> rfl

/-- A function declaration binds its name where it stands. -/
theorem functionsIn_functionDeclaration {isAsync generator : Bool} (span : Source.Span)
    (role : Role) (v : Verdict) (hname : ∀ n ∈ name, n.Fits .definition)
    (hparameters : Binds parameters) (hbody : Binds body) :
    functionsIn (openShape span role v.walked
        ((Shape.functionDeclaration isAsync generator name parameters body).map opened)).items =
      (name.toList.flatMap Node.declaredNames).map (·, v.walked) ++
        functionNames ((Shape.functionDeclaration isAsync generator name parameters body).verdicts
          isStrictBody v) := by
  have hparts := functionsIn_functionParts v hparameters hbody
  cases name with
  | none => simpa [openShape, Shape.map, Shape.verdicts, Verdict.each] using hparts
  | some name =>
    have hnone := functionNames_definition (hname name rfl) v
    simp [openShape, Shape.map, inRole, Shape.verdicts, Verdict.each, hparts,
      functionsIn_functionName (hname name rfl), functionNames, hnone]

end Shapes

/-- The function declarations of a tree with open names are those of the tree, and each is bound as
its verdict says. -/
theorem binds {n : Node} (hn : n.WellFormed) : Binds n := by
  induction n using Node.induction with
  | h n ih =>
    replace ih : ∀ c ∈ n.shape.children, Binds c := fun c hc => ih c hc (hn.child hc)
    have hplaces := Node.wellFormed_iff.1 hn
    intro role v hrole
    rw [items_openNode, Node.functionNames_eq]
    by_cases hfunction : n.shape.isFunctionDeclaration
    case pos =>
      have hbinds : (n.functionSite? v).toList.flatMap FunctionSite.binds =
          n.declaredNames.map (·, v.walked) := by
        simp [Node.functionSite?, hfunction, FunctionSite.binds]
      rw [hbinds, Node.declaredNames_eq]
      cases hs : n.shape <;> rw [hs] at hfunction ih hplaces
      case functionDeclaration =>
        simp only [Shape.children, List.forall_mem_append, List.forall_mem_cons] at ih
        refine functionsIn_functionDeclaration n.span role v
          (fun c hc => hplaces (.definition, c) ?_) ih.2.1 ih.2.2.1
        exact List.mem_append_left _ (List.mem_map_of_mem (Option.mem_toList.2 hc))
      all_goals cases hfunction
    case neg =>
      rw [Node.functionSite?, if_neg hfunction]
      suffices hshape : ShapeBinds n.shape from hshape n.span role v hrole
      cases hs : n.shape <;> rw [hs] at ih hplaces
      case functionDeclaration => exact absurd (congrArg Shape.isFunctionDeclaration hs) hfunction
      case bindingName => exact shapeBinds_name.1
      case definitionName => exact shapeBinds_name.2
      case identifier => exact fun span role v hrole => rfl
      case patternProperty => exact shapeBinds_patternProperty ih
      case functionExpression =>
        simp only [Shape.children, List.forall_mem_append, List.forall_mem_cons] at ih
        refine shapeBinds_functionExpression
          (fun c hc => hplaces (.definition, c) ?_) ih.2.1 ih.2.2.1
        exact List.mem_append_left _ (List.mem_map_of_mem (Option.mem_toList.2 hc))
      case arrowFunction =>
        simp only [Shape.children, List.forall_mem_cons] at ih
        exact shapeBinds_arrowFunction ih.1 ih.2.1
      case classDeclaration name parent members | classExpression name parent members =>
        simp only [Shape.children, List.forall_mem_append, Option.mem_toList,
          List.forall_mem_flatMap] at ih
        have hname : ∀ c ∈ name, c.Fits .definition := by
          refine fun c hc => hplaces (.definition, c) ?_
          refine List.mem_append_left _ (List.mem_append_left _ ?_)
          exact List.mem_map_of_mem (Option.mem_toList.2 hc)
        have hclass := shapeBinds_class hname ih.1.2 ih.2
        first | exact hclass.1 | exact hclass.2
      case objectMember => exact fun span role v hrole => functionsIn_objectMember v span ih
      case call => exact shapeBinds_call ih
      case withStatement => exact fun span role v hrole => functionsIn_plainShape v ih
      case block => exact shapeBinds_block ih
      case forLoop =>
        exact fun span role v hrole => (functionsIn_scope _ _).trans (functionsIn_plainShape v ih)
      case switchStatement => exact shapeBinds_switchStatement ih
      case catchClause =>
        intro span role v hrole
        rw [openShape_catchClause, items_within, functionsIn_scope]
        exact functionsIn_inRoles hrole v ih
      case exportList => exact shapeBinds_exportList hplaces
      case exportDeclaration => exact shapeBinds_exportDeclaration ih
      all_goals
        intro span role v hrole
        rw [openShape_of_flat rfl]
        exact functionsIn_inRoles hrole v ih

end Rename

/-! ## Programs -/

namespace Program

variable {mode : Mode} {source : List Char} {p : Program}

/-- The names of the function declarations of a program, with the verdicts on them. -/
def functionVerdicts (p : Program) : List (List String × Verdict) :=
  p.functionSites.map fun s => (s.node.declaredNames, s.verdict)

end Program

end ScriptMin
