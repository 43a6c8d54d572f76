import ScriptMin.Proofs.Rename.Respelled
import ScriptMin.Proofs.Tree.Interface

/-!
# What a program exports

The renamer sees the exports of a program as marks among what the program does with names. They are
those that the tree has: a list of exports names what it shows, and an exported declaration of the
program exports what it declares, unless another export stands inside it.
-/

namespace ScriptMin

namespace Rename

/-! ## Marks -/

mutual

/-- The marks of exports in an item. -/
def Item.marks : Item → List Item
  | .exports names => [.exports names]
  | .exporting on => [.exporting on]
  | .scope _ items => marks items
  | _ => []

/-- The marks of exports among items and in the scopes there. -/
def marks : List Item → List Item
  | [] => []
  | item :: rest => item.marks ++ marks rest

end

theorem marks_append (items items' : List Item) :
    marks (items ++ items') = marks items ++ marks items' := by
  induction items with
  | nil => rfl
  | cons item rest ih => simp [marks, ih]

@[simp]
theorem marks_scope (kind : ScopeKind) (items : List Item) :
    marks [.scope kind items] = marks items :=
  List.append_nil _

theorem marks_flatMap {β : Type} (f : β → List Item) (l : List β) :
    marks (l.flatMap f) = l.flatMap fun b => marks (f b) := by
  induction l with
  | nil => rfl
  | cons b l ih => rw [List.flatMap_cons, marks_append, ih, List.flatMap_cons]

mutual

theorem Item.exportLists_marks (item : Item) :
    item.marks.flatMap Item.exportLists = item.exportLists := by
  cases item with
  | scope kind items => exact exportLists_marks items
  | exports names => exact List.flatMap_singleton _ _
  | _ => rfl

theorem exportLists_marks (items : List Item) :
    (marks items).flatMap Item.exportLists = exportLists items := by
  cases items with
  | nil => rfl
  | cons item rest =>
    rw [marks, List.flatMap_append, item.exportLists_marks, exportLists_marks rest, exportLists]

end

mutual

theorem Item.holdsExport_marks (item : Item) :
    item.marks.any Item.holdsExport = item.holdsExport := by
  cases item with
  | scope kind items => exact holdsExport_marks items
  | _ => rfl

theorem holdsExport_marks (items : List Item) :
    (marks items).any Item.holdsExport = holdsExport items := by
  cases items with
  | nil => rfl
  | cons item rest =>
    rw [marks, List.any_append, item.holdsExport_marks, holdsExport_marks rest, holdsExport]

end

end Rename

open Rename Scoped

/-- The marks that a node leaves around those of its children. -/
def Shape.marked {α : Type} (s : Shape α) (inner : List Item) : List Item :=
  match s with
  | .exportList (.listed names) none => [.exports (names.map (·.target))]
  | .exportList .. => []
  | .exportDeclaration .. => .exporting true :: inner ++ [.exporting false]
  | _ => inner

/-- The marks of exports in a tree. -/
def Node.exportMarks (n : Node) : List Item :=
  n.fold fun n s => n.shape.marked (s.children.flatMap (·.2))

theorem Node.exportMarks_eq (n : Node) :
    n.exportMarks = n.shape.marked (n.shape.children.flatMap exportMarks) := by
  rw [exportMarks, fold_eq, Shape.children_map, List.flatMap_map]
  rfl

namespace Rename

/-- The marks of a node with open names are those of the node. -/
def Marked (n : Node) : Prop :=
  ∀ role strict, marks (openNode n role strict).items = n.exportMarks

section Parts

variable (strict : Bool)

/-- Children in their roles. -/
theorem marks_inRoles (role : Role) {s : Shape Node} (ih : ∀ c ∈ s.children, Marked c) :
    marks (shape ((s.inRoles role).map fun p => openNode p.2 p.1 strict)).items =
      s.children.flatMap Node.exportMarks := by
  rw [items_shape, Shape.children_map, List.flatMap_map, marks_flatMap]
  calc (s.inRoles role).children.flatMap (fun p => marks (openNode p.2 p.1 strict).items)
      = (s.inRoles role).children.flatMap (fun p => p.2.exportMarks) :=
        List.flatMap_congr fun p hp => ih p.2 (Shape.mem_children_of_mem_inRoles hp) p.1 strict
    _ = s.children.flatMap Node.exportMarks := by
        conv_rhs => rw [← s.map_inRoles role, Shape.children_map, List.flatMap_map]

theorem marks_plainShape {s : Shape Node} (ih : ∀ c ∈ s.children, Marked c) :
    marks (plainShape strict (s.map opened)).items = s.children.flatMap Node.exportMarks := by
  rw [plainShape, Shape.map_map, items_shape, Shape.children_map, List.flatMap_map, marks_flatMap]
  exact List.flatMap_congr fun c hc => ih c hc .value strict

theorem marks_option (role : Role) {o : Option Node} (ih : ∀ c ∈ o, Marked c) :
    marks (option ((o.map opened).map (·.2 role strict))).items =
      o.toList.flatMap Node.exportMarks := by
  cases o with
  | none => rfl
  | some c => simpa using ih c rfl role strict

theorem marks_optionInRole (role : Role) {o : Option Node} (ih : ∀ c ∈ o, Marked c) :
    marks (option ((o.map opened).map (inRole role strict))).items =
      o.toList.flatMap Node.exportMarks :=
  marks_option strict role ih

theorem marks_key {k : Key Node} (ih : ∀ c ∈ k.children, Marked c) :
    marks (key strict (k.map opened)).items = k.children.flatMap Node.exportMarks := by
  cases k with
  | direct text => rfl
  | computed c =>
    exact (ih c List.mem_cons_self .value strict).trans (List.flatMap_singleton _ c).symm

theorem marks_functionParts {parameters body : Node} (hparameters : Marked parameters)
    (hbody : Marked body) :
    marks (functionParts strict (opened parameters) (opened body)).items =
      parameters.exportMarks ++ body.exportMarks := by
  simp [functionParts, marks_append, hparameters _ _, hbody _ _]

theorem marks_memberValue {v : MemberValue Node} (ih : ∀ c ∈ v.children, Marked c) :
    marks (memberValue strict (v.map opened)).items = v.children.flatMap Node.exportMarks := by
  cases v with
  | getter body =>
    have hbody := ih body List.mem_cons_self
    simp [memberValue, MemberValue.map, MemberValue.children, hbody _ _]
  | method isAsync generator parameters body =>
    have hparts := marks_functionParts strict (ih parameters (by simp [MemberValue.children]))
      (ih body (by simp [MemberValue.children]))
    simpa [memberValue, MemberValue.map, MemberValue.children] using hparts
  | property initializer =>
    have hinitializer : ∀ c ∈ initializer, Marked c :=
      fun c hc => ih c (by simpa [MemberValue.children] using hc)
    exact marks_option strict .value hinitializer
  | setter parameter body =>
    have hparameter := ih parameter (by simp [MemberValue.children])
    have hbody := ih body (by simp [MemberValue.children])
    simp [memberValue, MemberValue.map, MemberValue.children, marks_append, hparameter _ _,
      hbody _ _]

theorem marks_classMember {m : ClassMember Node} (ih : ∀ c ∈ m.children, Marked c) :
    marks (classMember (m.map opened)).items = m.children.flatMap Node.exportMarks := by
  have hkey := marks_key true (k := m.key) fun c hc => ih c (List.mem_append_left _ hc)
  have hvalue := marks_memberValue true (v := m.value)
    fun c hc => ih c (List.mem_append_right _ hc)
  simp [classMember, ClassMember.map, ClassMember.children, marks_append, hkey, hvalue]

theorem marks_classParts {parent : Option Node} {members : List (ClassMember Node)}
    (hparent : ∀ c ∈ parent, Marked c) (hmembers : ∀ m ∈ members, ∀ c ∈ m.children, Marked c) :
    marks (classParts (parent.map opened) (members.map (·.map opened))).items =
      parent.toList.flatMap Node.exportMarks ++
        (members.flatMap ClassMember.children).flatMap Node.exportMarks := by
  rw [classParts, items_seq, items_map, marks_append, marks_option true .value hparent, items_list,
    List.map_map, List.flatMap_map, marks_flatMap, List.flatMap_assoc]
  congr 1
  exact List.flatMap_congr fun m hm => marks_classMember (hmembers m hm)

theorem marks_objectMember (span : Source.Span) {m : ObjectMember Node}
    (ih : ∀ c ∈ m.children, Marked c) :
    marks (objectMember span strict (m.map opened)).items =
      m.children.flatMap Node.exportMarks := by
  cases m with
  | valued k value =>
    have hkey := marks_key strict fun c hc => ih c (List.mem_append_left _ hc)
    have hvalue := marks_memberValue strict fun c hc => ih c (List.mem_append_right _ hc)
    simp [objectMember, ObjectMember.map, ObjectMember.children, marks_append, hkey, hvalue]
  | shorthand name => rfl
  | spread c =>
    exact (ih c List.mem_cons_self .value strict).trans (List.flatMap_singleton _ c).symm

end Parts

/-- The marks of a shape with open names are those that it leaves around those of its children. -/
def ShapeMarked (s : Shape Node) : Prop :=
  ∀ span role strict, marks (openShape span role strict (s.map opened)).items =
    s.marked (s.children.flatMap Node.exportMarks)

/-- A shape that is no export leaves no marks of its own. -/
theorem ShapeMarked.of_children {s : Shape Node} (hs : ∀ inner, s.marked inner = inner)
    (h : ∀ span role strict, marks (openShape span role strict (s.map opened)).items =
      s.children.flatMap Node.exportMarks) : ShapeMarked s :=
  fun span role strict => (h span role strict).trans (hs _).symm

section Shapes

variable {name fallback parent : Option Node} {target parameters body : Node}

theorem shapeMarked_patternProperty {k : Key Node} {shorthand : Bool}
    (ih : ∀ c ∈ (Shape.patternProperty k target fallback shorthand).children, Marked c) :
    ShapeMarked (.patternProperty k target fallback shorthand) := by
  refine .of_children (fun _ => rfl) fun span role strict => ?_
  simp only [Shape.children, List.forall_mem_append, List.forall_mem_singleton,
    Option.mem_toList] at ih
  obtain ⟨⟨hkey, htarget⟩, hfallback⟩ := ih
  have hoption := marks_option strict .value hfallback
  simp only [openShape, Shape.map, patternProperty, items_seq, items_map, marks_append,
    marks_key strict hkey, hoption, opened_snd, htarget _ _]
  simp [Shape.children]

theorem shapeMarked_functionDeclaration {isAsync generator : Bool}
    (ih : ∀ c ∈ (Shape.functionDeclaration isAsync generator name parameters body).children,
      Marked c) :
    ShapeMarked (.functionDeclaration isAsync generator name parameters body) := by
  refine .of_children (fun _ => rfl) fun span role strict => ?_
  simp only [Shape.children, List.forall_mem_append, List.forall_mem_cons, Option.mem_toList] at ih
  obtain ⟨hname, hparameters, hbody, -⟩ := ih
  have hoption := marks_optionInRole strict (.declaration .function) hname
  have hparts := marks_functionParts strict hparameters hbody
  simp only [openShape, Shape.map, items_seq, items_map, marks_append, hoption, hparts]
  simp [Shape.children]

theorem shapeMarked_functionExpression {isAsync generator : Bool}
    (ih : ∀ c ∈ (Shape.functionExpression isAsync generator name parameters body).children,
      Marked c) :
    ShapeMarked (.functionExpression isAsync generator name parameters body) := by
  refine .of_children (fun _ => rfl) fun span role strict => ?_
  simp only [Shape.children, List.forall_mem_append, List.forall_mem_cons, Option.mem_toList] at ih
  obtain ⟨hname, hparameters, hbody, -⟩ := ih
  have hparts := marks_functionParts strict hparameters hbody
  cases name with
  | none => simpa [openShape, Shape.map, Shape.children] using hparts
  | some name =>
    simp [openShape, Shape.map, Shape.children, inRole, marks_append, hparts, hname name rfl _ _]

theorem shapeMarked_arrowFunction {isAsync : Bool}
    (ih : ∀ c ∈ (Shape.arrowFunction isAsync parameters body).children, Marked c) :
    ShapeMarked (.arrowFunction isAsync parameters body) := by
  refine .of_children (fun _ => rfl) fun span role strict => ?_
  have hparts := marks_functionParts strict (ih parameters (by simp [Shape.children]))
    (ih body (by simp [Shape.children]))
  simpa [openShape, Shape.map, Shape.children] using hparts

theorem shapeMarked_classDeclaration {members : List (ClassMember Node)}
    (ih : ∀ c ∈ (Shape.classDeclaration name parent members).children, Marked c) :
    ShapeMarked (.classDeclaration name parent members) := by
  refine .of_children (fun _ => rfl) fun span role strict => ?_
  simp only [Shape.children, List.forall_mem_append, Option.mem_toList,
    List.forall_mem_flatMap] at ih
  have hoption := marks_optionInRole strict (.declaration .lexical) ih.1.1
  have hparts := marks_classParts ih.1.2 ih.2
  simp only [openShape, Shape.map, items_seq, items_map, marks_append, hoption, hparts]
  simp [Shape.children]

theorem shapeMarked_classExpression {members : List (ClassMember Node)}
    (ih : ∀ c ∈ (Shape.classExpression name parent members).children, Marked c) :
    ShapeMarked (.classExpression name parent members) := by
  refine .of_children (fun _ => rfl) fun span role strict => ?_
  simp only [Shape.children, List.forall_mem_append, Option.mem_toList,
    List.forall_mem_flatMap] at ih
  have hoption := marks_optionInRole strict (.declaration .lexical) ih.1.1
  have hparts := marks_classParts ih.1.2 ih.2
  simp only [openShape, Shape.map, items_within, items_seq, items_map, marks_scope, marks_append,
    hoption, hparts]
  simp [Shape.children]

theorem shapeMarked_call {isOptional parenthesised : Bool} {callee : Node}
    {arguments : List Node}
    (ih : ∀ c ∈ (Shape.call isOptional parenthesised callee arguments).children, Marked c) :
    ShapeMarked (.call isOptional parenthesised callee arguments) := by
  refine .of_children (fun _ => rfl) fun span role strict => ?_
  have hplain := marks_plainShape strict ih
  simp only [openShape, Shape.map] at hplain ⊢
  split <;> exact hplain

theorem shapeMarked_block {statements : List Node}
    (ih : ∀ c ∈ (Shape.block statements).children, Marked c) :
    ShapeMarked (.block statements) := by
  refine .of_children (fun _ => rfl) fun span role strict => ?_
  have hplain := marks_plainShape strict ih
  simp only [openShape, Shape.map] at hplain ⊢
  split
  · exact hplain
  · exact (List.append_nil _).trans hplain

theorem shapeMarked_switchStatement {subject : Node} {cases : List Node}
    (ih : ∀ c ∈ (Shape.switchStatement subject cases).children, Marked c) :
    ShapeMarked (.switchStatement subject cases) := by
  refine .of_children (fun _ => rfl) fun span role strict => ?_
  obtain ⟨hsubject, hcases⟩ := List.forall_mem_cons.1 ih
  have hlist : marks (list ((cases.map opened).map (inRole .value strict))).items =
      cases.flatMap Node.exportMarks := by
    rw [items_list, List.map_map, List.flatMap_map, marks_flatMap]
    exact List.flatMap_congr fun c hc => hcases c hc .value strict
  simp only [openShape, Shape.map, items_within, items_seq, items_map, marks_scope, marks_append,
    hlist]
  exact congrArg (· ++ cases.flatMap Node.exportMarks) (hsubject .value strict)

theorem shapeMarked_exportDeclaration {declaration : Node} {isDefault : Bool}
    (ih : ∀ c ∈ (Shape.exportDeclaration declaration isDefault).children, Marked c) :
    ShapeMarked (.exportDeclaration declaration isDefault) := by
  intro span role strict
  let s : Shape Node := .exportDeclaration declaration isDefault
  have hitems : (openShape span role strict (s.map opened)).items =
      [.exporting true] ++ (plainShape strict (s.map opened)).items ++ [.exporting false] := rfl
  rw [hitems, marks_append, marks_append, marks_plainShape strict ih]
  rfl

end Shapes

/-- The marks of a tree with open names are those of the tree. -/
theorem marked (n : Node) : Marked n := by
  induction n using Node.induction with
  | h n ih =>
    suffices hshape : ShapeMarked n.shape by
      intro role strict
      rw [items_openNode, Node.exportMarks_eq]
      exact hshape n.span role strict
    cases hs : n.shape <;> rw [hs] at ih
    case bindingName | definitionName => exact fun span role strict => by cases role <;> rfl
    case identifier => exact fun span role strict => rfl
    case patternProperty => exact shapeMarked_patternProperty ih
    case functionDeclaration => exact shapeMarked_functionDeclaration ih
    case functionExpression => exact shapeMarked_functionExpression ih
    case arrowFunction => exact shapeMarked_arrowFunction ih
    case classDeclaration => exact shapeMarked_classDeclaration ih
    case classExpression => exact shapeMarked_classExpression ih
    case objectMember => exact fun span role strict => marks_objectMember strict span ih
    case call => exact shapeMarked_call ih
    case withStatement => exact fun span role strict => marks_plainShape strict ih
    case block => exact shapeMarked_block ih
    case forLoop =>
      exact fun span role strict => (List.append_nil _).trans (marks_plainShape strict ih)
    case switchStatement => exact shapeMarked_switchStatement ih
    case catchClause =>
      intro span role strict
      rw [openShape_catchClause]
      exact (List.append_nil _).trans (marks_inRoles strict role ih)
    case exportList names source =>
      intro span role strict
      cases names <;> cases source <;>
        simp [openShape, Shape.map, Shape.marked, ModuleNames.map, ModuleName.map, marks,
          Item.marks]
    case exportDeclaration => exact shapeMarked_exportDeclaration ih
    all_goals
      intro span role strict
      rw [openShape_of_flat rfl]
      exact marks_inRoles strict role ih

end Rename

/-! ## Lists of exports and exported declarations -/

namespace Node

/-- A list of exports in a tree leaves its mark. -/
theorem exports_mem_exportMarks {root n : Node} (hroot : root.WellFormed) (hn : n ∈ root.nodes)
    {names : List (ModuleName Node)} (hshape : n.shape = .exportList (.listed names) none) :
    Item.exports (names.map (·.target)) ∈ root.exportMarks := by
  induction root using Node.induction with
  | h root ih =>
    rw [nodes_eq] at hn
    rw [exportMarks_eq]
    rcases List.mem_cons.1 hn with rfl | hn
    · rw [hshape]
      exact List.mem_singleton_self _
    · obtain ⟨c, hc, hn⟩ := List.mem_flatMap.1 hn
      have hmark := List.mem_flatMap.2 ⟨c, hc, ih c hc (hroot.child hc) hn⟩
      cases hs : root.shape
      case exportList names' source =>
        -- What a list of exports shows are names, and no lists.
        exfalso
        obtain ⟨place, hplace⟩ := Shape.exists_mem_places hc
        have haccepted := (hroot.fits hplace).accepted
        rw [hs] at hplace
        rw [Role.fst_of_mem_each hplace] at haccepted
        obtain ⟨span, shape⟩ := c
        cases shape <;> cases haccepted
        rw [nodes_eq] at hn
        rw [List.mem_singleton.1 hn] at hshape
        cases hshape
      case exportDeclaration =>
        rw [hs] at hmark
        exact List.mem_append_left _ (List.mem_cons_of_mem _ hmark)
      all_goals
        rw [hs] at hmark
        exact hmark

/-- Code with no exported declaration in it has no marks of one. -/
theorem holdsExport_exportMarks {root : Node}
    (h : ∀ n ∈ root.nodes, ∀ declaration isDefault,
      n.shape ≠ .exportDeclaration declaration isDefault) :
    root.exportMarks.any Item.holdsExport = false := by
  induction root using Node.induction with
  | h root ih =>
    rw [nodes_eq, List.forall_mem_cons] at h
    obtain ⟨hroot, hnodes⟩ := h
    have hinner : (root.shape.children.flatMap exportMarks).any Item.holdsExport = false := by
      rw [List.any_flatMap, List.any_eq_false]
      intro c hc
      rw [ih c hc fun n hn => hnodes n (List.mem_flatMap.2 ⟨c, hc, hn⟩)]
      exact Bool.false_ne_true
    rw [exportMarks_eq]
    cases hs : root.shape
    case exportList names source => cases names <;> cases source <;> rfl
    case exportDeclaration declaration isDefault => exact absurd hs (hroot declaration isDefault)
    all_goals
      rw [hs] at hinner
      exact hinner

end Node

namespace Rename

/-! ## What exported declarations declare -/

/-- The names that items declare outside the scopes among them. -/
def declaresHere : List Item → List String
  | [] => []
  | .declares name _ _ :: rest => name :: declaresHere rest
  | _ :: rest => declaresHere rest

theorem declaresHere_append (items items' : List Item) :
    declaresHere (items ++ items') = declaresHere items ++ declaresHere items' := by
  induction items with
  | nil => rfl
  | cons item rest ih => cases item <;> simp [declaresHere, ih]

theorem declaresHere_flatMap {β : Type} (f : β → List Item) (l : List β) :
    declaresHere (l.flatMap f) = l.flatMap fun b => declaresHere (f b) := by
  induction l with
  | nil => rfl
  | cons b l ih => rw [List.flatMap_cons, declaresHere_append, ih, List.flatMap_cons]

/-- What is declared while a declaration is exported, and holds no other, is exported. -/
theorem exportedDeclarations_append {items : List Item} (h : holdsExport items = false)
    (rest : List Item) :
    exportedDeclarations true (items ++ rest) =
      declaresHere items ++ exportedDeclarations true rest := by
  induction items with
  | nil => rfl
  | cons item items ih =>
    rw [holdsExport, Bool.or_eq_false_iff] at h
    cases item with
    | exporting on => cases h.1
    | scope kind inner =>
      have hinner : holdsExport inner = false := h.1
      simp only [List.cons_append, exportedDeclarations, hinner, Bool.not_false, Bool.and_self,
        ih h.2, declaresHere]
    | declares name how strict =>
      simp only [List.cons_append, exportedDeclarations, if_true, ih h.2, declaresHere]
    | _ => simpa only [List.cons_append, exportedDeclarations, declaresHere] using ih h.2

/-- What stands before it does not end an exported declaration. -/
theorem subset_exportedDeclarations (isExporting : Bool) (before rest : List Item) :
    exportedDeclarations true rest ⊆
      exportedDeclarations isExporting (before ++ .exporting true :: rest) := by
  induction before generalizing isExporting with
  | nil => exact List.Subset.refl _
  | cons item before ih =>
    cases item with
    | declares name how strict =>
      simp only [List.cons_append, exportedDeclarations]
      split
      · exact fun x hx => List.mem_cons_of_mem _ (ih isExporting hx)
      · exact ih isExporting
    | _ => exact ih _

/-- Where a node declares what it holds: as a declaration, or in the place of one. -/
def Role.Declares (role : Role) (n : Node) : Prop :=
  (∃ how, role = .declaration how) ∨
    (n.shape matches .variableStatement _ | .variableDeclaration .. | .functionDeclaration .. |
      .classDeclaration ..)

/-- What a child of a flat shape declares is declared there. -/
theorem declaresHere_of_flat {s : Shape Node} (h : s.isFlat) {span : Source.Span}
    {role role' : Role} {strict : Bool} {c : Node} (hc : (role', c) ∈ (s.inRoles role).children)
    {name : String} (hname : name ∈ declaresHere (openNode c role' strict).items) :
    name ∈ declaresHere (openShape span role strict (s.map opened)).items := by
  rw [openShape_of_flat h, items_shape, Shape.children_map, List.flatMap_map, declaresHere_flatMap]
  exact List.mem_flatMap.2 ⟨(role', c), hc, hname⟩

/-- The parts in which a declaration declares its names declare them where it stands. -/
theorem declares_of_mem_declaring {n : Node} (hn : n.WellFormed) {role : Role}
    (hrole : role.Declares n) (strict : Bool) {c : Node} (hc : c ∈ n.shape.declaring) :
    ∃ role' : Role, role'.Declares c ∧
      declaresHere (openNode c role' strict).items ⊆
        declaresHere (openNode n role strict).items := by
  have hpattern : ∀ c how, Role.Declares (.declaration how) c := fun _ how => .inl ⟨how, rfl⟩
  simp only [items_openNode n]
  cases hs : n.shape <;> rw [hs] at hc
  case arrayPattern elements rest =>
    obtain ⟨how, rfl⟩ := hrole.resolve_right (by simp [hs])
    refine ⟨_, hpattern c how, fun name => declaresHere_of_flat rfl ?_⟩
    simp only [Shape.declaring, Shape.patterns, List.mem_append, List.mem_flatMap,
      List.mem_map] at hc
    simp only [Shape.inRoles, Shape.children, toList_optionMap, List.mem_append,
      List.mem_flatMap, List.mem_map]
    rcases hc with ⟨e, he, d, hd, rfl⟩ | hc
    · refine .inl ⟨_, ⟨e, he, rfl⟩, ⟨(.declaration how, d.target), d.fallback.map (.value, ·)⟩,
        ?_, List.mem_cons_self⟩
      rw [toList_optionMap]
      exact List.mem_map_of_mem hd
    · exact .inr ⟨c, hc, rfl⟩
  case objectPattern properties rest =>
    obtain ⟨how, rfl⟩ := hrole.resolve_right (by simp [hs])
    refine ⟨_, hpattern c how, fun name => declaresHere_of_flat rfl ?_⟩
    simpa [Shape.declaring, Shape.patterns, Shape.inRoles, Shape.children, toList_optionMap]
      using hc
  case patternProperty k target fallback shorthand =>
    obtain ⟨how, rfl⟩ := hrole.resolve_right (by simp [hs])
    obtain rfl := List.mem_singleton.1 hc
    refine ⟨_, hpattern c how, fun name hname => ?_⟩
    simp only [openShape, Shape.map, patternProperty, items_seq, items_map, declaresHere_append,
      List.mem_append]
    exact .inl (.inr hname)
  case variableStatement declaration =>
    obtain rfl := List.mem_singleton.1 hc
    have hvariables : Role.Declares .value c := by
      have haccepted := (hn.fits (p := (.variables, c)) (by simp [hs, Shape.places])).accepted
      obtain ⟨span, shape⟩ := c
      cases shape <;> cases haccepted
      exact .inr rfl
    exact ⟨_, hvariables, fun name => declaresHere_of_flat rfl List.mem_cons_self⟩
  case variableDeclaration kind declarators =>
    obtain ⟨d, hd, rfl⟩ := List.mem_map.1 hc
    refine ⟨_, hpattern d.pattern (variableDeclares kind), fun name =>
      declaresHere_of_flat rfl ?_⟩
    simp only [Shape.inRoles, Shape.children, List.flatMap_map]
    exact List.mem_flatMap.2 ⟨d, hd, List.mem_cons_self⟩
  case functionDeclaration isAsync generator definition parameters body =>
    obtain rfl := Option.mem_toList.1 hc
    refine ⟨_, hpattern c .function, fun name hname => ?_⟩
    simp only [openShape, Shape.map, items_seq, items_map, declaresHere_append, List.mem_append]
    exact .inl hname
  case classDeclaration definition parent members =>
    obtain rfl := Option.mem_toList.1 hc
    refine ⟨_, hpattern c .lexical, fun name hname => ?_⟩
    simp only [openShape, Shape.map, items_seq, items_map, declaresHere_append, List.mem_append]
    exact .inl hname
  all_goals cases hc

/-- A declaration declares its names where it stands, and not in a scope inside. -/
theorem declaredNames_subset_declaresHere {n : Node} (hn : n.WellFormed) {role : Role}
    (hrole : role.Declares n) (strict : Bool) :
    n.declaredNames ⊆ declaresHere (openNode n role strict).items := by
  induction n using Node.induction generalizing role with
  | h n ih =>
    intro name hname
    rw [Node.declaredNames_eq] at hname
    rcases List.mem_append.1 hname with hname | hname
    · rw [items_openNode]
      cases hs : n.shape <;> rw [hs] at hname
      case bindingName | definitionName =>
        obtain ⟨how, rfl⟩ := hrole.resolve_right (by simp [hs])
        exact hname
      all_goals cases hname
    · obtain ⟨c, hc, hname⟩ := List.mem_flatMap.1 hname
      obtain ⟨place, -, hplace⟩ := Shape.exists_role_of_mem_declaring hc
      have hmem := Shape.mem_children_of_mem_places hplace
      obtain ⟨role', hrole', hsubset⟩ := declares_of_mem_declaring hn hrole strict hc
      exact hsubset (ih c hmem (hn.child hmem) hrole' hname)

end Rename

end ScriptMin
