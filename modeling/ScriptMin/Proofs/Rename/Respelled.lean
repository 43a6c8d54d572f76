import ScriptMin.Proofs.Rename.Roles

/-!
# Renaming changes the spelling of names and nothing else

A tree respelled is the same tree with other names in the places of variables, functions and
classes. Only a shorthand says the name of a variable and a key at once, so it is written out when
the two come to differ. `respelled_closed` shows that closing a tree with open names respells it:
labels, the names of members, keys, literals and what is imported or exported by name stay as they
are.
-/

namespace ScriptMin

open Source

/-! ## Shapes that differ in their children -/

section Alike

variable {α β γ : Type}

theorem forall₂_flatMap {r : α → β → Prop} {f : γ → List α} {g : γ → List β} {l : List γ}
    (h : ∀ c ∈ l, List.Forall₂ r (f c) (g c)) : List.Forall₂ r (l.flatMap f) (l.flatMap g) := by
  induction l with
  | nil => exact .nil
  | cons c l ih =>
    exact List.rel_append (h c List.mem_cons_self) (ih fun d hd => h d (List.mem_cons_of_mem _ hd))

theorem exists_of_forall₂ {r : α → β → Prop} {l : List α} {l' : List β} (h : List.Forall₂ r l l')
    {b : β} (hb : b ∈ l') : ∃ a ∈ l, r a b := by
  induction h with
  | nil => cases hb
  | @cons a b' _ _ hab _ ih =>
    rcases List.mem_cons.1 hb with rfl | hb
    · exact ⟨a, List.mem_cons_self, hab⟩
    · obtain ⟨a, ha, hab⟩ := ih hb
      exact ⟨a, List.mem_cons_of_mem _ ha, hab⟩

/-- Shapes that are the same but for their children, which are related one by one. -/
structure Shape.Alike (r : α → β → Prop) (s : Shape α) (s' : Shape β) : Prop where
  frame : s'.map (fun _ => ()) = s.map fun _ => ()
  children : List.Forall₂ r s.children s'.children

/-- A shape whose children were made of others in one way is like the shape whose children were made
of them in another. -/
theorem Shape.alike_of_maps {r : α → β → Prop} {f : γ → α} {g : γ → β} (s : Shape γ)
    (h : ∀ c ∈ s.children, r (f c) (g c)) : (s.map f).Alike r (s.map g) where
  frame := by
    rw [Shape.map_map, Shape.map_map]
    rfl
  children := by
    rw [Shape.children_map, Shape.children_map, List.forall₂_map_left_iff,
      List.forall₂_map_right_iff, List.forall₂_same]
    exact h

theorem Shape.alike_map {r : α → β → Prop} {f : α → β} (s : Shape α)
    (h : ∀ c ∈ s.children, r c (f c)) : s.Alike r (s.map f) := by
  have halike := s.alike_of_maps (f := id) h
  rwa [s.map_id] at halike

end Alike

/-! ## Respelled trees -/

/-- A child beside what it means that a node is the child respelled. -/
abbrev Respelling := Node × (Node → Prop)

/-- What a shape becomes when its names change as `spells` says. The names that an export shows
belong to other modules. -/
def Shape.Respelled (spells : String → String → Prop) (span : Span) (s : Shape Respelling)
    (s' : Shape Node) : Prop :=
  match s with
  | .bindingName name => ∃ name', spells name name' ∧ s' = .bindingName name'
  | .definitionName name => ∃ name', spells name name' ∧ s' = .definitionName name'
  | .identifier name => ∃ name', spells name name' ∧ s' = .identifier name'
  | .objectMember (.shorthand name) =>
    ∃ name', spells name name' ∧ s' = .objectMember
      (if name' = name then .shorthand name
        else .valued (.direct name) (.property (some ⟨span, .identifier name'⟩)))
  | .patternProperty k target fallback shorthand =>
    ∃ k' target' fallback',
      s' = .patternProperty k' target' fallback' (shorthand && Rename.staysShorthand k' target') ∧
        Shape.Alike (·.2) (.patternProperty k target fallback shorthand)
          (.patternProperty k' target' fallback' shorthand)
  | .exportList names source => s' = .exportList (names.map (·.1)) source
  | s => s.Alike (·.2) s'

/-- The second tree is the first with names changed as `spells` says. -/
def Node.RespelledAs (spells : String → String → Prop) (n : Node) : Node → Prop :=
  n.fold fun n s n' => n'.span = n.span ∧ s.Respelled spells n.span n'.shape

theorem Node.respelledAs_iff {spells : String → String → Prop} {n n' : Node} :
    n.RespelledAs spells n' ↔ n'.span = n.span ∧
      (n.shape.map fun c => (c, c.RespelledAs spells)).Respelled spells n.span n'.shape := by
  unfold RespelledAs
  rw [fold_eq]

namespace Rename

open Scoped

variable {spells : String → String → Prop}

/-- The names that an environment gives are spelled as `spells` says. -/
def Environment.Spells (spells : String → String → Prop) (e : Environment) : Prop :=
  ∀ scope ∈ e.scopes, ∀ x z, scope.2.lookup x = some z → spells x z

namespace Environment

variable {e : Environment}

theorem Spells.read (h : e.Spells spells) (hrefl : ∀ x, spells x x) (x : String) :
    spells x (e.read x) := by
  obtain ⟨reserved, scopes⟩ := e
  induction scopes with
  | nil => exact hrefl x
  | cons scope scopes ih =>
    obtain ⟨kind, t⟩ := scope
    rw [read_cons]
    cases ht : t.lookup x with
    | none => exact ih fun s hs => h s (List.mem_cons_of_mem _ hs)
    | some z => exact h _ List.mem_cons_self x z ht

theorem Spells.declared (h : e.Spells spells) (hrefl : ∀ x, spells x x) (x : String)
    (how : Declares) (strict : Bool) : spells x (e.declared x how strict) := by
  have hlookup : ∀ o : Option (ScopeKind × Table), (∀ scope, o = some scope → scope ∈ e.scopes) →
      spells x ((o.bind fun scope => scope.2.lookup x).getD x) := by
    intro o ho
    rcases o with - | ⟨kind, t⟩
    · exact hrefl x
    · cases ht : t.lookup x with
      | none => simpa [ht] using hrefl x
      | some z => simpa [ht] using h _ (ho _ rfl) x z ht
  unfold Environment.declared
  refine hlookup _ fun scope hscope => ?_
  split at hscope
  · exact List.mem_of_find?_eq_some hscope
  · exact List.mem_of_mem_head? hscope

end Environment

/-- How the names are spelled that scopes with the reserved names may give. -/
structure Respells (reserved : List String) (spells : String → String → Prop) : Prop where
  refl : ∀ x, spells x x
  /-- A scope gives new names in this way. -/
  table : ∀ (e : Environment) (kind : ScopeKind) (items : List Item) (kept : List String),
    e.reserved = reserved → ∀ x z, (scopeTable e kind items kept).lookup x = some z → spells x z

/-- An environment with these reserved names, spelled as `spells` says. -/
structure Environment.Gives (reserved : List String) (spells : String → String → Prop)
    (e : Environment) : Prop where
  reserved_eq : e.reserved = reserved
  spelled : e.Spells spells

theorem Environment.Gives.inside {reserved : List String} {e : Environment}
    (h : e.Gives reserved spells) (hspells : Respells reserved spells) (kind : ScopeKind)
    (items : List Item) : (e.inside kind items).Gives reserved spells where
  reserved_eq := h.reserved_eq
  spelled scope hscope := by
    rcases List.mem_cons.1 hscope with rfl | hscope
    · exact hspells.table e kind items [] h.reserved_eq
    · exact h.spelled scope hscope

/-! ## Parts whose children are respelled -/

/-- Closing respells the node, in whatever environment gives such names. -/
def Respell (reserved : List String) (spells : String → String → Prop) (n : Node) : Prop :=
  ∀ e : Environment, e.Gives reserved spells → ∀ role strict,
    n.RespelledAs spells (closed e role strict n)

section Parts

variable {reserved : List String} {e : Environment} (hspells : Respells reserved spells)
  (he : e.Gives reserved spells) (strict : Bool)

include he

theorem respelled_option (role : Role) {o : Option Node}
    (ih : ∀ c ∈ o, Respell reserved spells c) :
    List.Forall₂ (·.RespelledAs spells ·) o.toList (o.map (closed e role strict)).toList := by
  cases o with
  | none => exact .nil
  | some c => exact .cons (ih c rfl e he role strict) .nil

theorem respelled_key {k : Key Node} (ih : ∀ c ∈ k.children, Respell reserved spells c) :
    let k' := (key strict (k.map opened)).close e
    k'.map (fun _ => ()) = k.map (fun _ => ()) ∧
      List.Forall₂ (·.RespelledAs spells ·) k.children k'.children := by
  cases k with
  | direct text => exact ⟨rfl, .nil⟩
  | computed c => exact ⟨rfl, .cons (ih c List.mem_cons_self e he .value strict) .nil⟩

include hspells

theorem respelled_functionParts {parameters body : Node}
    (hparameters : Respell reserved spells parameters) (hbody : Respell reserved spells body) :
    let parts := (functionParts strict (opened parameters) (opened body)).close e
    parameters.RespelledAs spells parts.1 ∧ body.RespelledAs spells parts.2 :=
  ⟨hparameters _ (he.inside hspells _ _) _ _, hbody _ (he.inside hspells _ _) _ _⟩

theorem respelled_memberValue {v : MemberValue Node}
    (ih : ∀ c ∈ v.children, Respell reserved spells c) :
    let v' := (memberValue strict (v.map opened)).close e
    v'.map (fun _ => ()) = v.map (fun _ => ()) ∧
      List.Forall₂ (·.RespelledAs spells ·) v.children v'.children := by
  cases v with
  | getter body =>
    exact ⟨rfl, .cons (ih body List.mem_cons_self _ (he.inside hspells _ _) _ _) .nil⟩
  | method isAsync generator parameters body =>
    have hparts := respelled_functionParts hspells he strict
      (ih parameters (by simp [MemberValue.children])) (ih body (by simp [MemberValue.children]))
    exact ⟨rfl, .cons hparts.1 (.cons hparts.2 .nil)⟩
  | property initializer =>
    have hinitializer : ∀ c ∈ initializer, Respell reserved spells c :=
      fun c hc => ih c (by simpa [MemberValue.children] using hc)
    simp only [memberValue, MemberValue.map, close_map, close_option, Option.map_map]
    exact ⟨trivial, respelled_option he strict .value hinitializer⟩
  | setter parameter body =>
    have hparameter := ih parameter (by simp [MemberValue.children])
    have hbody := ih body (by simp [MemberValue.children])
    exact ⟨rfl, .cons (hparameter _ (he.inside hspells _ _) _ _)
      (.cons (hbody _ (he.inside hspells _ _) _ _) .nil)⟩

theorem respelled_classMember {m : ClassMember Node}
    (ih : ∀ c ∈ m.children, Respell reserved spells c) :
    let m' := (classMember (m.map opened)).close e
    m'.map (fun _ => ()) = m.map (fun _ => ()) ∧
      List.Forall₂ (·.RespelledAs spells ·) m.children m'.children := by
  have hkey := respelled_key he true (k := m.key)
    fun c hc => ih c (List.mem_append_left _ hc)
  have hvalue := respelled_memberValue hspells he true (v := m.value)
    fun c hc => ih c (List.mem_append_right _ hc)
  refine ⟨?_, List.rel_append hkey.2 hvalue.2⟩
  simp only [ClassMember.map, classMember, close_seq, close_map, hkey.1, hvalue.1]

/-- A name, a heritage and members. -/
theorem respelled_class (role : Role) {name parent : Option Node}
    {members : List (ClassMember Node)}
    (ih : ∀ c ∈ (Shape.classDeclaration name parent members).children,
      Respell reserved spells c) :
    let parts := (classParts (parent.map opened) (members.map (·.map opened))).close e
    (Shape.classDeclaration name parent members).Alike (·.RespelledAs spells ·)
      (.classDeclaration (name.map (closed e role strict)) parts.1 parts.2) := by
  simp only [Shape.children, List.forall_mem_append, Option.mem_toList,
    List.forall_mem_flatMap] at ih
  obtain ⟨⟨hname, hparent⟩, hmembers⟩ := ih
  have hmember := fun m hm => respelled_classMember hspells he (hmembers m hm)
  simp only [classParts, close_seq, close_map, close_option, close_list, List.map_map,
    Option.map_map]
  constructor
  case frame =>
    simp only [Shape.map, List.map_map, Option.map_map]
    refine congrArg (Shape.classDeclaration _ _) (List.map_congr_left fun m hm => ?_)
    exact (hmember m hm).1
  case children =>
    refine List.rel_append (List.rel_append ?_ ?_) ?_
    · exact respelled_option he strict role hname
    · exact respelled_option he true .value hparent
    · rw [List.flatMap_map]
      exact forall₂_flatMap fun m hm => (hmember m hm).2

end Parts

/-! ## Shapes -/

/-- The shape of a node, closed, is the shape respelled. -/
def ShapeRespell (reserved : List String) (spells : String → String → Prop) (s : Shape Node) :
    Prop :=
  ∀ e : Environment, e.Gives reserved spells → ∀ span role strict,
    (s.map fun c => (c, c.RespelledAs spells)).Respelled spells span
      ((openShape span role strict (s.map opened)).close e)

/-- Shapes are alike through what their children mean. -/
theorem alike_respelling {s : Shape Node} {s' : Shape Node}
    (h : s.Alike (·.RespelledAs spells ·) s') :
    (s.map fun c => (c, c.RespelledAs spells)).Alike (·.2) s' where
  frame := by rw [h.frame, Shape.map_map]
  children := by
    rw [Shape.children_map, List.forall₂_map_left_iff]
    exact h.children

section Shapes

variable {reserved : List String}

/-- Children that are values. -/
theorem alike_plainShape {e : Environment} (he : e.Gives reserved spells) (strict : Bool)
    {s : Shape Node} (ih : ∀ c ∈ s.children, Respell reserved spells c) :
    s.Alike (·.RespelledAs spells ·) ((plainShape strict (s.map opened)).close e) := by
  rw [plainShape, close_shape, Shape.map_map, Shape.map_map]
  exact s.alike_map fun c hc => ih c hc e he .value strict

/-- Children in their roles. -/
theorem alike_inRoles {e : Environment} (he : e.Gives reserved spells) (role : Role)
    (strict : Bool) {s : Shape Node} (ih : ∀ c ∈ s.children, Respell reserved spells c) :
    s.Alike (·.RespelledAs spells ·)
      ((s.inRoles role).map fun p => closed e p.1 strict p.2) := by
  have halike := (s.inRoles role).alike_of_maps (r := (·.RespelledAs spells ·)) (f := (·.2))
    fun p hp => ih p.2 (Shape.mem_children_of_mem_inRoles hp) e he p.1 strict
  rwa [s.map_inRoles] at halike

theorem shapeRespell_flat {s : Shape Node} (hs : s.isFlat)
    (ih : ∀ c ∈ s.children, Respell reserved spells c) : ShapeRespell reserved spells s := by
  intro e he span role strict
  have halike := alike_respelling (alike_inRoles he role strict ih)
  rw [openShape_of_flat hs, close_shape, Shape.map_map]
  cases s <;> first | exact halike | cases hs

variable {name fallback parent : Option Node} {target parameters body : Node}

theorem shapeRespell_patternProperty {k : Key Node} {shorthand : Bool}
    (ih : ∀ c ∈ (Shape.patternProperty k target fallback shorthand).children,
      Respell reserved spells c) :
    ShapeRespell reserved spells (.patternProperty k target fallback shorthand) := by
  intro e he span role strict
  simp only [Shape.children, List.forall_mem_append, List.forall_mem_singleton,
    Option.mem_toList] at ih
  obtain ⟨⟨hkey, htarget⟩, hfallback⟩ := ih
  have hkey' := respelled_key he strict hkey
  let k' := (key strict (k.map opened)).close e
  let fallback' := fallback.map (closed e .value strict)
  have halike : (Shape.patternProperty k target fallback shorthand).Alike
      (·.RespelledAs spells ·)
      (.patternProperty k' (closed e role strict target) fallback' shorthand) := by
    constructor
    case frame => simp only [Shape.map, k', hkey'.1, fallback', Option.map_map]
    case children =>
      refine List.rel_append (List.rel_append hkey'.2 ?_) ?_
      · exact .cons (htarget e he role strict) .nil
      · exact respelled_option he strict .value hfallback
  refine ⟨k', closed e role strict target, fallback', ?_, alike_respelling halike⟩
  simp only [openShape, Shape.map, patternProperty, close_seq, close_map, close_option,
    Option.map_map]
  rfl

section Inside

variable (hspells : Respells reserved spells)

include hspells

theorem shapeRespell_functionDeclaration {isAsync generator : Bool}
    (ih : ∀ c ∈ (Shape.functionDeclaration isAsync generator name parameters body).children,
      Respell reserved spells c) :
    ShapeRespell reserved spells
      (.functionDeclaration isAsync generator name parameters body) := by
  intro e he span role strict
  simp only [Shape.children, List.forall_mem_append, List.forall_mem_cons, Option.mem_toList] at ih
  obtain ⟨hname, hparameters, hbody, -⟩ := ih
  have hparts := respelled_functionParts hspells he strict hparameters hbody
  let parts := (functionParts strict (opened parameters) (opened body)).close e
  have halike : (Shape.functionDeclaration isAsync generator name parameters body).Alike
      (·.RespelledAs spells ·) (.functionDeclaration isAsync generator
        (name.map (closed e (.declaration .function) strict)) parts.1 parts.2) := by
    constructor
    case frame => simp only [Shape.map, Option.map_map]
    case children =>
      exact List.rel_append (respelled_option he strict _ hname)
        (.cons hparts.1 (.cons hparts.2 .nil))
  simp only [openShape, Shape.map, close_seq, close_map, close_option, Option.map_map]
  exact alike_respelling halike

/-- The name of a function expression has a scope of its own. -/
theorem shapeRespell_functionExpression {isAsync generator : Bool}
    (ih : ∀ c ∈ (Shape.functionExpression isAsync generator name parameters body).children,
      Respell reserved spells c) :
    ShapeRespell reserved spells
      (.functionExpression isAsync generator name parameters body) := by
  intro e he span role strict
  simp only [Shape.children, List.forall_mem_append, List.forall_mem_cons, Option.mem_toList] at ih
  obtain ⟨hname, hparameters, hbody, -⟩ := ih
  cases name with
  | none =>
    have hparts := respelled_functionParts hspells he strict hparameters hbody
    let parts := (functionParts strict (opened parameters) (opened body)).close e
    have halike : (Shape.functionExpression isAsync generator none parameters body).Alike
        (·.RespelledAs spells ·)
        (.functionExpression isAsync generator none parts.1 parts.2) :=
      ⟨rfl, .cons hparts.1 (.cons hparts.2 .nil)⟩
    exact alike_respelling halike
  | some name =>
    let items := (openNode name (.declaration .lexical) strict).items ++
      (functionParts strict (opened parameters) (opened body)).items
    have hinside := he.inside hspells .block items
    have hparts := respelled_functionParts hspells hinside strict hparameters hbody
    let name' := closed (e.inside .block items) (.declaration .lexical) strict name
    let parts := (functionParts strict (opened parameters) (opened body)).close
      (e.inside .block items)
    have halike : (Shape.functionExpression isAsync generator (some name) parameters body).Alike
        (·.RespelledAs spells ·)
        (.functionExpression isAsync generator (some name') parts.1 parts.2) :=
      ⟨rfl, .cons (hname name rfl _ hinside _ strict) (.cons hparts.1 (.cons hparts.2 .nil))⟩
    exact alike_respelling halike

theorem shapeRespell_classDeclaration {members : List (ClassMember Node)}
    (ih : ∀ c ∈ (Shape.classDeclaration name parent members).children,
      Respell reserved spells c) :
    ShapeRespell reserved spells (.classDeclaration name parent members) := by
  intro e he span role strict
  simp only [openShape, Shape.map, close_seq, close_map, close_option, Option.map_map]
  exact alike_respelling (respelled_class hspells he strict (.declaration .lexical) ih)

theorem shapeRespell_classExpression {members : List (ClassMember Node)}
    (ih : ∀ c ∈ (Shape.classExpression name parent members).children,
      Respell reserved spells c) :
    ShapeRespell reserved spells (.classExpression name parent members) := by
  intro e he span role strict
  have halike : ∀ items, (Shape.classExpression name parent members).Alike
      (·.RespelledAs spells ·) (.classExpression
        (name.map (closed (e.inside .block items) (.declaration .lexical) strict))
        ((classParts (parent.map opened) (members.map (·.map opened))).close
          (e.inside .block items)).1
        ((classParts (parent.map opened) (members.map (·.map opened))).close
          (e.inside .block items)).2) := by
    intro items
    have hclass := respelled_class hspells (he.inside hspells .block items) strict
      (.declaration .lexical) ih
    constructor
    case frame =>
      simpa only [Shape.map, Shape.classDeclaration.injEq, Shape.classExpression.injEq]
        using hclass.frame
    case children => exact hclass.children
  simp only [openShape, Shape.map, close_within, close_seq, close_map, close_option,
    Option.map_map]
  exact alike_respelling (halike _)

theorem shapeRespell_arrowFunction {isAsync : Bool}
    (ih : ∀ c ∈ (Shape.arrowFunction isAsync parameters body).children,
      Respell reserved spells c) :
    ShapeRespell reserved spells (.arrowFunction isAsync parameters body) := by
  intro e he span role strict
  have hparts := respelled_functionParts hspells he strict
    (ih parameters (by simp [Shape.children])) (ih body (by simp [Shape.children]))
  let parts := (functionParts strict (opened parameters) (opened body)).close e
  have halike : (Shape.arrowFunction isAsync parameters body).Alike (·.RespelledAs spells ·)
      (.arrowFunction isAsync parts.1 parts.2) :=
    ⟨rfl, .cons hparts.1 (.cons hparts.2 .nil)⟩
  exact alike_respelling halike

theorem shapeRespell_objectMember {m : ObjectMember Node}
    (ih : ∀ c ∈ (Shape.objectMember m).children, Respell reserved spells c) :
    ShapeRespell reserved spells (.objectMember m) := by
  intro e he span role strict
  cases m with
  | valued k value =>
    have hkey := respelled_key he strict fun c hc => ih c (List.mem_append_left _ hc)
    have hvalue := respelled_memberValue hspells he strict
      fun c hc => ih c (List.mem_append_right _ hc)
    have halike : (Shape.objectMember (.valued k value)).Alike (·.RespelledAs spells ·)
        (.objectMember (.valued ((key strict (k.map opened)).close e)
          ((memberValue strict (value.map opened)).close e))) := by
      constructor
      case frame => simp only [Shape.map, ObjectMember.map, hkey.1, hvalue.1]
      case children => exact List.rel_append hkey.2 hvalue.2
    exact alike_respelling halike
  | shorthand name =>
    refine ⟨e.read name, he.spelled.read hspells.refl name, ?_⟩
    have hclose : (openShape span role strict
        ((Shape.objectMember (.shorthand name)).map opened)).close e =
          .objectMember (if e.read name == name then .shorthand name
            else .valued (.direct name) (.property (some ⟨span, .identifier (e.read name)⟩))) :=
      rfl
    simp only [hclose, beq_iff_eq]
  | spread c =>
    have halike : (Shape.objectMember (.spread c)).Alike (·.RespelledAs spells ·)
        (.objectMember (.spread (closed e .value strict c))) :=
      ⟨rfl, .cons (ih c List.mem_cons_self e he .value strict) .nil⟩
    exact alike_respelling halike

theorem shapeRespell_switchStatement {subject : Node} {cases : List Node}
    (ih : ∀ c ∈ (Shape.switchStatement subject cases).children, Respell reserved spells c) :
    ShapeRespell reserved spells (.switchStatement subject cases) := by
  intro e he span role strict
  obtain ⟨hsubject, hcases⟩ := List.forall_mem_cons.1 ih
  have halike : ∀ items, (Shape.switchStatement subject cases).Alike (·.RespelledAs spells ·)
      (.switchStatement (closed e .value strict subject)
        (cases.map (closed (e.inside .block items) .value strict))) := by
    intro items
    constructor
    case frame => simp only [Shape.map, List.map_map]
    case children =>
      refine .cons (hsubject e he _ strict) ?_
      rw [List.forall₂_map_right_iff, List.forall₂_same]
      exact fun c hc => hcases c hc _ (he.inside hspells _ items) .value strict
  simp only [openShape, Shape.map, close_seq, close_map, close_within, close_list, List.map_map]
  exact alike_respelling (halike _)

theorem shapeRespell_catchClause {pattern : Option Node}
    (ih : ∀ c ∈ (Shape.catchClause pattern body).children, Respell reserved spells c) :
    ShapeRespell reserved spells (.catchClause pattern body) := by
  intro e he span role strict
  rw [openShape_catchClause, close_within, close_shape, Shape.map_map]
  exact alike_respelling (alike_inRoles (he.inside hspells _ _) role strict ih)

/-- Every tree, closed, is respelled. -/
theorem respelled_closed (n : Node) : Respell reserved spells n := by
  induction n using Node.induction with
  | h n ih =>
    suffices hshape : ShapeRespell reserved spells n.shape by
      intro e he role strict
      rw [Node.respelledAs_iff, span_closed, shape_closed]
      exact ⟨rfl, hshape e he n.span role strict⟩
    cases hs : n.shape <;> rw [hs] at ih
    case bindingName name =>
      intro e he span role strict
      cases role with
      | declaration how => exact ⟨_, he.spelled.declared hspells.refl name how strict, rfl⟩
      | value => exact ⟨_, he.spelled.read hspells.refl name, rfl⟩
      | body => exact ⟨_, he.spelled.read hspells.refl name, rfl⟩
    case definitionName name =>
      intro e he span role strict
      cases role with
      | declaration how => exact ⟨_, he.spelled.declared hspells.refl name how strict, rfl⟩
      | value => exact ⟨_, hspells.refl name, rfl⟩
      | body => exact ⟨_, hspells.refl name, rfl⟩
    case identifier name =>
      exact fun e he span role strict => ⟨_, he.spelled.read hspells.refl name, rfl⟩
    case patternProperty => exact shapeRespell_patternProperty ih
    case functionDeclaration => exact shapeRespell_functionDeclaration hspells ih
    case functionExpression => exact shapeRespell_functionExpression hspells ih
    case arrowFunction => exact shapeRespell_arrowFunction hspells ih
    case classDeclaration => exact shapeRespell_classDeclaration hspells ih
    case classExpression => exact shapeRespell_classExpression hspells ih
    case objectMember => exact shapeRespell_objectMember hspells ih
    case switchStatement => exact shapeRespell_switchStatement hspells ih
    case catchClause => exact shapeRespell_catchClause hspells ih
    case forLoop =>
      exact fun e he span role strict =>
        alike_respelling (alike_plainShape (he.inside hspells _ _) strict ih)
    case block =>
      intro e he span role strict
      by_cases hrole : role = .body
      · simp only [openShape, if_pos hrole]
        exact alike_respelling (alike_plainShape he strict ih)
      · simp only [openShape, if_neg hrole]
        exact alike_respelling (alike_plainShape (he.inside hspells _ _) strict ih)
    case call =>
      intro e he span role strict
      simp only [openShape, Shape.map]
      split
      all_goals exact alike_respelling (alike_plainShape he strict ih)
    case exportList names source =>
      intro e he span role strict
      simp only [Shape.map, openShape, close_seqRight, close_pure, Shape.Respelled,
        ModuleNames.map_map]
      rfl
    case withStatement =>
      exact fun e he span role strict => alike_respelling (alike_plainShape he strict ih)
    case exportDeclaration =>
      exact fun e he span role strict => alike_respelling (alike_plainShape he strict ih)
    all_goals exact shapeRespell_flat rfl ih

end Inside

end Shapes

end Rename

end ScriptMin
