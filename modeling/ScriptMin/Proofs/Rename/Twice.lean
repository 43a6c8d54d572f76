import ScriptMin.Proofs.Rename.Respelled
import ScriptMin.Proofs.Rename.Settled

/-!
# Renaming twice

A program that has been renamed does not change when it is renamed again. Its names stay, as
`Settled` shows of what it does with them. So does the rest of the tree, part by part, for what
closing adds to the names, that a shorthand is written out where it names no longer what it binds,
has been done.
-/

namespace ScriptMin.Rename

open Scoped Source

/-! ## Parts whose names stay -/

theorem length_renamedItems (e : Environment) (items : List Item) :
    (renamedItems e items).length = items.length := by
  induction items with
  | nil => rfl
  | cons item rest ih => simp [renamedItems, ih]

theorem renamedItems_append_eq {e : Environment} {items items' : List Item}
    (h : renamedItems e (items ++ items') = items ++ items') :
    renamedItems e items = items ∧ renamedItems e items' = items' := by
  rw [renamedItems_append] at h
  exact List.append_inj h (length_renamedItems e items)

theorem renamedItems_flatMap_eq {β : Type} {e : Environment} {l : List β} {f : β → List Item}
    (h : renamedItems e (l.flatMap f) = l.flatMap f) {b : β} (hb : b ∈ l) :
    renamedItems e (f b) = f b := by
  induction l with
  | nil => cases hb
  | cons a l ih =>
    rw [List.flatMap_cons] at h
    obtain ⟨hfirst, hrest⟩ := renamedItems_append_eq h
    rcases List.mem_cons.1 hb with rfl | hb
    · exact hfirst
    · exact ih hrest hb

/-- Where none of its names changes, a piece of syntax with open names closes to `x`. -/
def Scoped.StaysAs {α : Type} (a : Scoped α) (x : α) : Prop :=
  ∀ e : Environment, renamedItems e a.items = a.items → a.close e = x

namespace Scoped.StaysAs

variable {α β γ : Type}

theorem pure (x : α) : (Pure.pure x : Scoped α).StaysAs x := fun _ _ => rfl

theorem map {a : Scoped α} {x : α} (h : a.StaysAs x) (f : α → β) : (f <$> a).StaysAs (f x) :=
  fun e he => congrArg f (h e he)

theorem seq {f : Scoped (α → β)} {a : Scoped α} {g : α → β} {x : α} (hf : f.StaysAs g)
    (ha : a.StaysAs x) : (f <*> a).StaysAs (g x) := by
  intro e he
  obtain ⟨hfirst, hrest⟩ := renamedItems_append_eq he
  rw [close_seq, hf e hfirst, ha e hrest]

theorem seqRight {a : Scoped α} {b : Scoped β} {y : β} (hb : b.StaysAs y) :
    (a *> b).StaysAs y := by
  intro e he
  rw [close_seqRight]
  exact hb e (renamedItems_append_eq he).2

theorem seqLeft {a : Scoped α} {b : Scoped β} {x : α} (ha : a.StaysAs x) :
    (a <* b).StaysAs x := by
  intro e he
  rw [close_seqLeft]
  exact ha e (renamedItems_append_eq he).1

theorem reads (name : String) : (reads name).StaysAs name := by
  intro e he
  simpa [renamedItems, Item.renamed] using he

theorem declares (how : Declares) (strict : Bool) (name : String) :
    (declares how strict name).StaysAs name := by
  intro e he
  simpa [renamedItems, Item.renamed] using he

theorem within {a : Scoped α} {x : α} (h : a.StaysAs x) (kind : ScopeKind) :
    (within kind a).StaysAs x := by
  intro e he
  simp only [items_within, renamedItems_scope, List.cons.injEq, Item.scope.injEq, true_and,
    and_true] at he
  exact h _ he

theorem option {o : Option γ} {f : γ → Scoped α} {g : γ → α}
    (h : ∀ c ∈ o, (f c).StaysAs (g c)) : (option (o.map f)).StaysAs (o.map g) := by
  cases o with
  | none => exact pure none
  | some c => exact (h c rfl).map some

theorem list {l : List γ} {f : γ → Scoped α} {g : γ → α}
    (h : ∀ c ∈ l, (f c).StaysAs (g c)) : (list (l.map f)).StaysAs (l.map g) := by
  intro e he
  rw [items_list, List.flatMap_map] at he
  rw [close_list, List.map_map]
  exact List.map_congr_left fun c hc => h c hc e (renamedItems_flatMap_eq he hc)

theorem shape {s : Shape γ} {f : γ → Scoped α} {g : γ → α}
    (h : ∀ c ∈ s.children, (f c).StaysAs (g c)) : (shape (s.map f)).StaysAs (s.map g) := by
  intro e he
  rw [items_shape, Shape.children_map, List.flatMap_map] at he
  rw [close_shape, Shape.map_map]
  exact Shape.map_congr fun c hc => h c hc e (renamedItems_flatMap_eq he hc)

end Scoped.StaysAs

/-! ## Trees whose names stay -/

/-- A node stays as it is where none of its names changes. -/
def StaysSame (n : Node) : Prop := ∀ role strict, (openNode n role strict).StaysAs n

section Parts

variable (strict : Bool)

theorem staysAs_option (role : Role) {o : Option Node} (ih : ∀ c ∈ o, StaysSame c) :
    (option ((o.map opened).map (·.2 role strict))).StaysAs o := by
  have h := StaysAs.option (f := fun c => openNode c role strict) (g := id)
    fun c hc => ih c hc role strict
  rw [Option.map_id, id] at h
  rw [Option.map_map]
  exact h

theorem staysAs_key {k : Key Node} (ih : ∀ c ∈ k.children, StaysSame c) :
    (key strict (k.map opened)).StaysAs k := by
  cases k with
  | direct text => exact .pure _
  | computed c => exact (ih c List.mem_cons_self .value strict).map _

theorem staysAs_functionParts {parameters body : Node} (hparameters : StaysSame parameters)
    (hbody : StaysSame body) :
    (functionParts strict (opened parameters) (opened body)).StaysAs (parameters, body) :=
  (((hparameters _ _).map Prod.mk).seq (hbody _ _)).within .closure

theorem staysAs_memberValue {v : MemberValue Node} (ih : ∀ c ∈ v.children, StaysSame c) :
    (memberValue strict (v.map opened)).StaysAs v := by
  cases v with
  | getter body => exact ((ih body List.mem_cons_self _ _).within .closure).map _
  | method isAsync generator parameters body =>
    exact (staysAs_functionParts strict (ih parameters (by simp [MemberValue.children]))
      (ih body (by simp [MemberValue.children]))).map _
  | property initializer =>
    have hinitializer : ∀ c ∈ initializer, StaysSame c :=
      fun c hc => ih c (by simpa [MemberValue.children] using hc)
    exact (staysAs_option strict .value hinitializer).map _
  | setter parameter body =>
    have hparameter := ih parameter (by simp [MemberValue.children])
    have hbody := ih body (by simp [MemberValue.children])
    exact (((hparameter _ _).map MemberValue.setter).seq (hbody _ _)).within .closure

theorem staysAs_classMember {m : ClassMember Node} (ih : ∀ c ∈ m.children, StaysSame c) :
    (classMember (m.map opened)).StaysAs m := by
  have hkey := staysAs_key true (k := m.key) fun c hc => ih c (List.mem_append_left _ hc)
  have hvalue := staysAs_memberValue true (v := m.value)
    fun c hc => ih c (List.mem_append_right _ hc)
  exact (hkey.map fun k v => (⟨k, m.isStatic, v⟩ : ClassMember Node)).seq hvalue

theorem staysAs_classParts {parent : Option Node} {members : List (ClassMember Node)}
    (hparent : ∀ c ∈ parent, StaysSame c)
    (hmembers : ∀ m ∈ members, ∀ c ∈ m.children, StaysSame c) :
    (classParts (parent.map opened) (members.map (·.map opened))).StaysAs (parent, members) := by
  have hlist := StaysAs.list (f := fun m => classMember (m.map opened)) (g := id)
    fun m hm => staysAs_classMember (hmembers m hm)
  rw [List.map_id] at hlist
  have hparts := ((staysAs_option true .value hparent).map Prod.mk).seq hlist
  unfold classParts
  rw [List.map_map]
  exact hparts

theorem staysAs_objectMember (span : Span) {m : ObjectMember Node}
    (ih : ∀ c ∈ m.children, StaysSame c) :
    (objectMember span strict (m.map opened)).StaysAs m := by
  cases m with
  | valued k value =>
    have hkey := staysAs_key strict fun c hc => ih c (List.mem_append_left _ hc)
    have hvalue := staysAs_memberValue strict fun c hc => ih c (List.mem_append_right _ hc)
    exact (hkey.map ObjectMember.valued).seq hvalue
  | shorthand name =>
    have hname := (StaysAs.reads name).map fun name' =>
      (if name' == name then .shorthand name
        else .valued (.direct name) (.property (some ⟨span, .identifier name'⟩)) :
          ObjectMember Node)
    rw [beq_self_eq_true, if_pos rfl] at hname
    exact hname
  | spread c => exact (ih c List.mem_cons_self .value strict).map _

/-- A property of a pattern stays as it is if it is no shorthand that has to be written out. -/
theorem staysAs_patternProperty (role : Role) {k : Key Node} {target : Node}
    {fallback : Option Node} {shorthand : Bool}
    (ih : ∀ c ∈ (Shape.patternProperty k target fallback shorthand).children, StaysSame c)
    (hshorthand : shorthand = true → staysShorthand k target = true) :
    (patternProperty role strict (k.map opened) (opened target) (fallback.map opened)
      shorthand).StaysAs (.patternProperty k target fallback shorthand) := by
  simp only [Shape.children, List.forall_mem_append, List.forall_mem_singleton,
    Option.mem_toList] at ih
  obtain ⟨⟨hkey, htarget⟩, hfallback⟩ := ih
  have hparts := (((staysAs_key strict hkey).map fun k target fallback =>
    Shape.patternProperty k target fallback (shorthand && staysShorthand k target)).seq
      (htarget role strict)).seq (staysAs_option strict .value hfallback)
  have hflag : (shorthand && staysShorthand k target) = shorthand := by
    cases shorthand with
    | false => rfl
    | true => exact hshorthand rfl
  rw [hflag] at hparts
  exact hparts

end Parts

/-- The shape of a node stays as it is where none of its names changes. -/
def ShapeStaysSame (s : Shape Node) : Prop :=
  ∀ span role strict, (openShape span role strict (s.map opened)).StaysAs s

section Shapes

/-- Children that are values. -/
theorem staysAs_plainShape (strict : Bool) {s : Shape Node} (ih : ∀ c ∈ s.children, StaysSame c) :
    (plainShape strict (s.map opened)).StaysAs s := by
  have h := StaysAs.shape (f := fun c => openNode c .value strict) (g := id)
    fun c hc => ih c hc .value strict
  rw [Shape.map_id] at h
  rw [plainShape, Shape.map_map]
  exact h

/-- Children in their roles. -/
theorem staysAs_inRoles (role : Role) (strict : Bool) {s : Shape Node}
    (ih : ∀ c ∈ s.children, StaysSame c) :
    (shape ((s.inRoles role).map fun p => openNode p.2 p.1 strict)).StaysAs s := by
  have h := StaysAs.shape (s := s.inRoles role) (f := fun p => openNode p.2 p.1 strict)
    (g := (·.2)) fun p hp => ih p.2 (Shape.mem_children_of_mem_inRoles hp) p.1 strict
  rwa [s.map_inRoles] at h

theorem shapeStaysSame_flat {s : Shape Node} (hs : s.isFlat)
    (ih : ∀ c ∈ s.children, StaysSame c) : ShapeStaysSame s := by
  intro span role strict
  rw [openShape_of_flat hs]
  exact staysAs_inRoles role strict ih

variable {name fallback parent : Option Node} {target parameters body : Node}

theorem shapeStaysSame_functionDeclaration {isAsync generator : Bool}
    (ih : ∀ c ∈ (Shape.functionDeclaration isAsync generator name parameters body).children,
      StaysSame c) :
    ShapeStaysSame (.functionDeclaration isAsync generator name parameters body) := by
  intro span role strict
  simp only [Shape.children, List.forall_mem_append, List.forall_mem_cons, Option.mem_toList] at ih
  obtain ⟨hname, hparameters, hbody, -⟩ := ih
  exact ((staysAs_option strict _ hname).map fun name (parts : Node × Node) =>
    Shape.functionDeclaration isAsync generator name parts.1 parts.2).seq
      (staysAs_functionParts strict hparameters hbody)

theorem shapeStaysSame_functionExpression {isAsync generator : Bool}
    (ih : ∀ c ∈ (Shape.functionExpression isAsync generator name parameters body).children,
      StaysSame c) :
    ShapeStaysSame (.functionExpression isAsync generator name parameters body) := by
  intro span role strict
  simp only [Shape.children, List.forall_mem_append, List.forall_mem_cons, Option.mem_toList] at ih
  obtain ⟨hname, hparameters, hbody, -⟩ := ih
  have hparts := staysAs_functionParts strict hparameters hbody
  cases name with
  | none =>
    exact hparts.map fun parts => Shape.functionExpression isAsync generator none parts.1 parts.2
  | some name =>
    exact (((hname name rfl _ strict).map fun name (parts : Node × Node) =>
      Shape.functionExpression isAsync generator (some name) parts.1 parts.2).seq hparts).within _

theorem shapeStaysSame_classDeclaration {members : List (ClassMember Node)}
    (ih : ∀ c ∈ (Shape.classDeclaration name parent members).children, StaysSame c) :
    ShapeStaysSame (.classDeclaration name parent members) := by
  intro span role strict
  simp only [Shape.children, List.forall_mem_append, Option.mem_toList,
    List.forall_mem_flatMap] at ih
  exact ((staysAs_option strict _ ih.1.1).map fun name (parts : Option Node × _) =>
    Shape.classDeclaration name parts.1 parts.2).seq (staysAs_classParts ih.1.2 ih.2)

theorem shapeStaysSame_classExpression {members : List (ClassMember Node)}
    (ih : ∀ c ∈ (Shape.classExpression name parent members).children, StaysSame c) :
    ShapeStaysSame (.classExpression name parent members) := by
  intro span role strict
  simp only [Shape.children, List.forall_mem_append, Option.mem_toList,
    List.forall_mem_flatMap] at ih
  exact (((staysAs_option strict _ ih.1.1).map fun name (parts : Option Node × _) =>
    Shape.classExpression name parts.1 parts.2).seq (staysAs_classParts ih.1.2 ih.2)).within _

theorem shapeStaysSame_arrowFunction {isAsync : Bool}
    (ih : ∀ c ∈ (Shape.arrowFunction isAsync parameters body).children, StaysSame c) :
    ShapeStaysSame (.arrowFunction isAsync parameters body) := by
  intro span role strict
  have hparts := staysAs_functionParts strict (ih parameters (by simp [Shape.children]))
    (ih body (by simp [Shape.children]))
  exact hparts.map fun parts => Shape.arrowFunction isAsync parts.1 parts.2

theorem shapeStaysSame_call {isOptional parenthesised : Bool} {callee : Node}
    {arguments : List Node}
    (ih : ∀ c ∈ (Shape.call isOptional parenthesised callee arguments).children, StaysSame c) :
    ShapeStaysSame (.call isOptional parenthesised callee arguments) := by
  intro span role strict
  simp only [openShape, Shape.map]
  split
  · exact (staysAs_plainShape strict ih).seqRight
  · exact staysAs_plainShape strict ih

theorem shapeStaysSame_block {statements : List Node}
    (ih : ∀ c ∈ (Shape.block statements).children, StaysSame c) :
    ShapeStaysSame (.block statements) := by
  intro span role strict
  simp only [openShape, Shape.map]
  split
  · exact staysAs_plainShape strict ih
  · exact (staysAs_plainShape strict ih).within _

theorem shapeStaysSame_switchStatement {subject : Node} {cases : List Node}
    (ih : ∀ c ∈ (Shape.switchStatement subject cases).children, StaysSame c) :
    ShapeStaysSame (.switchStatement subject cases) := by
  intro span role strict
  obtain ⟨hsubject, hcases⟩ := List.forall_mem_cons.1 ih
  have hlist := StaysAs.list (f := fun c => openNode c .value strict) (g := id)
    fun c hc => hcases c hc .value strict
  rw [List.map_id] at hlist
  simp only [openShape, Shape.map, List.map_map]
  exact ((hsubject .value strict).map Shape.switchStatement).seq (hlist.within .block)

theorem shapeStaysSame_catchClause {pattern : Option Node}
    (ih : ∀ c ∈ (Shape.catchClause pattern body).children, StaysSame c) :
    ShapeStaysSame (.catchClause pattern body) := by
  intro span role strict
  rw [openShape_catchClause]
  exact (staysAs_inRoles role strict ih).within .block

end Shapes

/-! ## Respelled trees -/

end Rename

/-- A tree that some tree has been respelled to. -/
def Node.IsRespelled (n : Node) : Prop := ∃ n₀ : Node, n₀.RespelledAs (fun _ _ => True) n

namespace Node.IsRespelled

open Rename Source

variable {n : Node}

/-- A name stands for itself. -/
theorem identifier (span : Span) (name : String) :
    IsRespelled ⟨span, .identifier name⟩ :=
  ⟨⟨span, .identifier name⟩, respelledAs_iff.2 ⟨rfl, name, trivial, rfl⟩⟩

/-- Children of shapes that are alike are respelled. -/
theorem of_alike {s s' : Shape Node}
    (h : (s.map fun c => (c, c.RespelledAs fun _ _ => True)).Alike (·.2) s') {c' : Node}
    (hc : c' ∈ s'.children) : c'.IsRespelled := by
  have hchildren := h.children
  rw [Shape.children_map, List.forall₂_map_left_iff] at hchildren
  obtain ⟨c, -, hrel⟩ := exists_of_forall₂ hchildren hc
  exact ⟨c, hrel⟩

/-- All children of a respelled node are respelled, but for those of a list of exports, which is
kept. -/
theorem child (h : n.IsRespelled) (hlist : ∀ names source, n.shape ≠ .exportList names source)
    {c : Node} (hc : c ∈ n.shape.children) : c.IsRespelled := by
  obtain ⟨n₀, hrel⟩ := h
  replace hrel := (respelledAs_iff.1 hrel).2
  cases hs : n₀.shape <;> rw [hs] at hrel
  case bindingName | definitionName | identifier =>
    obtain ⟨name', -, heq⟩ := hrel
    rw [heq] at hc
    cases hc
  case objectMember m =>
    cases m with
    | shorthand name =>
      obtain ⟨name', -, heq⟩ := hrel
      rw [heq] at hc
      split at hc
      · cases hc
      · rw [List.mem_singleton.1 hc]
        exact identifier _ _
    | valued k value => exact of_alike (s := .objectMember (.valued k value)) hrel hc
    | spread c => exact of_alike (s := .objectMember (.spread c)) hrel hc
  case patternProperty k target fallback shorthand =>
    obtain ⟨k', target', fallback', heq, halike⟩ := hrel
    rw [heq] at hc
    exact of_alike (s := .patternProperty k target fallback shorthand) halike hc
  case exportList => exact absurd hrel (hlist _ _)
  all_goals exact of_alike hrel hc

/-- A shorthand in a respelled pattern still names what it binds. -/
theorem staysShorthand (h : n.IsRespelled) {k : Key Node} {target : Node}
    {fallback : Option Node} (hn : n.shape = .patternProperty k target fallback true) :
    Rename.staysShorthand k target = true := by
  obtain ⟨n₀, hrel⟩ := h
  replace hrel := (respelledAs_iff.1 hrel).2
  rw [hn] at hrel
  cases hs : n₀.shape <;> rw [hs] at hrel
  case patternProperty =>
    obtain ⟨k', target', fallback', heq, -⟩ := hrel
    injection heq with hk ht _ hflag
    rw [hk, ht]
    exact (Bool.and_eq_true_iff.1 hflag.symm).2
  case bindingName | definitionName | identifier =>
    obtain ⟨name', -, heq⟩ := hrel
    cases heq
  case objectMember m =>
    cases m with
    | shorthand name =>
      obtain ⟨name', -, heq⟩ := hrel
      cases heq
    | valued => cases hrel.frame
    | spread => cases hrel.frame
  case exportList => cases hrel
  all_goals cases hrel.frame

end Node.IsRespelled

namespace Rename

open Scoped

/-- A respelled tree stays as it is where none of its names changes. -/
theorem staysSame (n : Node) : n.IsRespelled → StaysSame n := by
  induction n using Node.induction with
  | h n ih =>
    intro hn
    suffices hshape : ShapeStaysSame n.shape by
      intro role strict
      have hsame : n.withShape n.shape = n := by
        obtain ⟨span, shape⟩ := n
        rfl
      have h := (hshape n.span role strict).map n.withShape
      rwa [hsame, ← openNode_eq] at h
    replace ih := fun hlist c hc => ih c hc (hn.child hlist hc)
    cases hs : n.shape <;> simp only [hs] at ih
    case exportList names source =>
      intro span role strict
      have hnames : (names.map opened).map (·.1) = names := by
        rw [ModuleNames.map_map]
        exact names.map_id
      simp only [openShape, Shape.map, hnames]
      exact StaysAs.seqRight (.pure _)
    all_goals replace ih := ih (by simp)
    case bindingName name =>
      intro span role strict
      cases role with
      | declaration how => exact (StaysAs.declares how strict name).map _
      | value => exact (StaysAs.reads name).map _
      | body => exact (StaysAs.reads name).map _
    case definitionName name =>
      intro span role strict
      cases role with
      | declaration how => exact (StaysAs.declares how strict name).map _
      | value => exact staysAs_plainShape strict ih
      | body => exact staysAs_plainShape strict ih
    case identifier name => exact fun span role strict => (StaysAs.reads name).map _
    case patternProperty k target fallback shorthand =>
      exact fun span role strict => staysAs_patternProperty strict role ih fun hshorthand =>
        hn.staysShorthand (hshorthand ▸ hs)
    case functionDeclaration => exact shapeStaysSame_functionDeclaration ih
    case functionExpression => exact shapeStaysSame_functionExpression ih
    case arrowFunction => exact shapeStaysSame_arrowFunction ih
    case classDeclaration => exact shapeStaysSame_classDeclaration ih
    case classExpression => exact shapeStaysSame_classExpression ih
    case objectMember =>
      exact fun span role strict => (staysAs_objectMember strict span ih).map _
    case call => exact shapeStaysSame_call ih
    case withStatement => exact fun span role strict => (staysAs_plainShape strict ih).seqRight
    case block => exact shapeStaysSame_block ih
    case forLoop => exact fun span role strict => (staysAs_plainShape strict ih).within .block
    case switchStatement => exact shapeStaysSame_switchStatement ih
    case catchClause => exact shapeStaysSame_catchClause ih
    case exportDeclaration =>
      exact fun span role strict => (staysAs_plainShape strict ih).seqRight.seqLeft
    all_goals exact shapeStaysSame_flat rfl ih

/-- Names that may be spelled in any way are. -/
theorem respells_anyhow (reserved : List String) : Respells reserved fun _ _ => True where
  refl _ := trivial
  table _ _ _ _ _ _ _ _ := trivial

end Rename

open Rename

theorem Program.isRespelled_rename (o : RenameOptions) (p : Program) :
    (p.rename o).root.IsRespelled := by
  have hgives : (Environment.ofProgram o.reserved o.topLevel p.items).Gives o.reserved
      fun _ _ => True := ⟨rfl, fun _ _ _ _ _ => trivial⟩
  exact ⟨p.root, respelled_closed (respells_anyhow o.reserved) p.root _ hgives .value p.strict⟩

/-- Renaming a program a second time changes nothing: no name, no shorthand and no place. -/
theorem Program.rename_rename (o : RenameOptions) (p : Program) :
    (p.rename o).rename o = p.rename o := by
  let p' := p.rename o
  let e := Environment.ofProgram o.reserved o.topLevel p'.items
  have hitems : renamedItems e p'.items = p'.items := by
    simp only [e, p', Program.items_rename]
    exact renamedItems_ofProgram_renamedItems o.reserved o.topLevel p.items
  have hroot : closed e .value p'.strict p'.root = p'.root :=
    staysSame p'.root (p.isRespelled_rename o) .value p'.strict e hitems
  calc p'.rename o
      = { p' with root := closed e .value p'.strict p'.root } := rfl
    _ = p' := by rw [hroot]

end ScriptMin
