import ScriptMin.Proofs.Rename.Place
import ScriptMin.Proofs.Tree.Induction
import ScriptMin.Rename.Walk

/-!
# Opening the names of a renamed tree

Closing a tree with open names in an environment gives a tree with new names. Opened again, that
tree does with the new names what the tree did with the old ones: `items_rename` says so of whole
programs. The proof goes from the leaves of the tree up, with one lemma for each part that opens a
scope or gives its children roles.
-/

namespace ScriptMin.Rename

open Scoped

/-! ## Parts with open names -/

namespace Scoped

variable {α β : Type}

@[simp] theorem items_pure (a : α) : (pure a : Scoped α).items = [] := rfl

@[simp] theorem close_pure (a : α) (e : Environment) : (pure a : Scoped α).close e = a := rfl

@[simp] theorem items_map (f : α → β) (a : Scoped α) : (f <$> a).items = a.items := rfl

@[simp] theorem close_map (f : α → β) (a : Scoped α) (e : Environment) :
    (f <$> a).close e = f (a.close e) := rfl

@[simp] theorem items_seq (f : Scoped (α → β)) (a : Scoped α) :
    (f <*> a).items = f.items ++ a.items := rfl

@[simp] theorem close_seq (f : Scoped (α → β)) (a : Scoped α) (e : Environment) :
    (f <*> a).close e = f.close e (a.close e) := rfl

@[simp] theorem items_seqRight (a : Scoped α) (b : Scoped β) :
    (a *> b).items = a.items ++ b.items := rfl

@[simp] theorem close_seqRight (a : Scoped α) (b : Scoped β) (e : Environment) :
    (a *> b).close e = b.close e := rfl

@[simp] theorem items_seqLeft (a : Scoped α) (b : Scoped β) :
    (a <* b).items = a.items ++ b.items := rfl

@[simp] theorem close_seqLeft (a : Scoped α) (b : Scoped β) (e : Environment) :
    (a <* b).close e = a.close e := rfl

@[simp] theorem items_item (i : Item) : (item i).items = [i] := rfl

@[simp] theorem items_reads (name : String) : (reads name).items = [.reads name] := rfl

@[simp] theorem close_reads (name : String) (e : Environment) :
    (reads name).close e = e.read name := rfl

@[simp] theorem items_declares (how : Declares) (strict : Bool) (name : String) :
    (declares how strict name).items = [.declares name how strict] := rfl

@[simp] theorem close_declares (how : Declares) (strict : Bool) (name : String) (e : Environment) :
    (declares how strict name).close e = e.declared name how strict := rfl

@[simp] theorem items_within (kind : ScopeKind) (a : Scoped α) :
    (within kind a).items = [.scope kind a.items] := rfl

@[simp] theorem close_within (kind : ScopeKind) (a : Scoped α) (e : Environment) :
    (within kind a).close e = a.close (e.inside kind a.items) := rfl

@[simp] theorem items_shape (s : Shape (Scoped α)) :
    (shape s).items = s.children.flatMap (·.items) := rfl

@[simp] theorem close_shape (s : Shape (Scoped α)) (e : Environment) :
    (shape s).close e = s.map (·.close e) := rfl

@[simp] theorem items_option (o : Option (Scoped α)) :
    (option o).items = o.toList.flatMap (·.items) := by
  cases o <;> simp [option]

@[simp] theorem close_option (o : Option (Scoped α)) (e : Environment) :
    (option o).close e = o.map (·.close e) := by
  cases o <;> rfl

@[simp] theorem items_list (l : List (Scoped α)) : (list l).items = l.flatMap (·.items) := by
  induction l with
  | nil => rfl
  | cons a rest ih => simp [list, ih]

@[simp] theorem close_list (l : List (Scoped α)) (e : Environment) :
    (list l).close e = l.map (·.close e) := by
  induction l with
  | nil => rfl
  | cons a rest ih => simp [list, ih]

end Scoped

/-- A node beside itself with open names. -/
def opened (n : Node) : Child := (n, openNode n)

@[simp] theorem opened_fst (n : Node) : (opened n).1 = n := rfl

@[simp] theorem opened_snd (n : Node) : (opened n).2 = openNode n := rfl

theorem openNode_eq (n : Node) (role : Role) (strict : Bool) :
    openNode n role strict =
      n.withShape <$> openShape n.span role strict (n.shape.map opened) := by
  rw [openNode, Node.fold_eq]
  rfl

theorem items_openNode (n : Node) (role : Role) (strict : Bool) :
    (openNode n role strict).items =
      (openShape n.span role strict (n.shape.map opened)).items := by
  rw [openNode_eq, items_map]

theorem close_openNode (n : Node) (role : Role) (strict : Bool) (e : Environment) :
    (openNode n role strict).close e =
      n.withShape ((openShape n.span role strict (n.shape.map opened)).close e) := by
  rw [openNode_eq, close_map]

/-- The tree that a node with open names becomes. -/
def closed (e : Environment) (role : Role) (strict : Bool) (n : Node) : Node :=
  (openNode n role strict).close e

theorem closed_eq (e : Environment) (role : Role) (strict : Bool) (n : Node) :
    closed e role strict n =
      n.withShape ((openShape n.span role strict (n.shape.map opened)).close e) := by
  rw [closed, close_openNode]

/-! ## What closing leaves as it is -/

theorem shape_closed (e : Environment) (role : Role) (strict : Bool) (n : Node) :
    (closed e role strict n).shape =
      (openShape n.span role strict (n.shape.map opened)).close e := by
  rw [closed_eq]
  rfl

theorem span_closed (e : Environment) (role : Role) (strict : Bool) (n : Node) :
    (closed e role strict n).span = n.span := by
  rw [closed_eq]
  rfl

/-- Closing makes no directive and loses none. -/
theorem closed_directive_iff (e : Environment) (role : Role) (strict : Bool) (n : Node)
    (raw : String) :
    (closed e role strict n).shape = .directive raw ↔ n.shape = .directive raw := by
  rw [shape_closed]
  cases n.shape <;> simp [openShape, Shape.map, plainShape, patternProperty]
  all_goals split <;> simp [Shape.map]

theorem match_directive_closed {β : Type} (e : Environment) (role : Role) (strict : Bool)
    (f : String → β) (b : β) (n : Node) :
    (match (closed e role strict n).shape with | .directive raw => f raw | _ => b) =
      match n.shape with | .directive raw => f raw | _ => b := by
  have h := closed_directive_iff e role strict n
  split
  next raw hraw => rw [(h raw).1 hraw]
  next hne =>
    split
    next raw hraw => exact absurd ((h raw).2 hraw) (hne raw)
    next => rfl

/-- A block stays a block, with its statements closed. -/
theorem shape_closed_block (e : Environment) (role : Role) (strict : Bool) {n : Node}
    {body : List Node} (h : n.shape = .block body) :
    ∃ e', (closed e role strict n).shape = .block (body.map (closed e' .value strict)) := by
  rw [shape_closed, h]
  by_cases hrole : role = .body
  · refine ⟨e, ?_⟩
    simp only [openShape, if_pos hrole, plainShape, close_shape, Shape.map, List.map_map]
    rfl
  · refine ⟨e.inside .block (plainShape strict ((Shape.block body).map opened)).items, ?_⟩
    simp only [openShape, if_neg hrole, plainShape, close_within, close_shape, Shape.map,
      List.map_map]
    rfl

/-- What is no block does not become one. -/
theorem closed_block_iff (e : Environment) (role : Role) (strict : Bool) (n : Node) :
    (∃ body, (closed e role strict n).shape = .block body) ↔ ∃ body, n.shape = .block body := by
  rw [shape_closed]
  cases n.shape <;> simp [openShape, Shape.map, plainShape, patternProperty]
  all_goals split <;> simp [Shape.map]

/-- Whether a body is strict does not depend on names. -/
theorem isStrictBody_closed (e : Environment) (role : Role) (strict : Bool) (n : Node) :
    isStrictBody (closed e role strict n) = isStrictBody n := by
  by_cases hblock : ∃ body, n.shape = .block body
  · obtain ⟨body, h⟩ := hblock
    obtain ⟨e', he⟩ := shape_closed_block e role strict h
    unfold isStrictBody
    rw [he, h]
    simp only [List.takeWhile_map, List.any_map]
    congr 1
    · congr 1
      funext c
      exact match_directive_closed e' .value strict _ _ c
    · funext c
      exact match_directive_closed e' .value strict _ _ c
  · have hblock' := mt (closed_block_iff e role strict n).1 hblock
    unfold isStrictBody
    split
    · exact absurd ⟨_, ‹_›⟩ hblock'
    · split
      · exact absurd ⟨_, ‹_›⟩ hblock
      · rfl

/-! ## Environments that admit items -/

/-- An environment in which the items can be closed: it changes no name if any may be read, and makes
no further call of the evaluator. -/
structure Environment.Admits (e : Environment) (items : List Item) : Prop where
  steady : mayReadAny items = true → e.Steady
  keepsEval : ∀ x, e.read x = "eval" → x = "eval"

theorem mayReadAny_append (items items' : List Item) :
    mayReadAny (items ++ items') = (mayReadAny items || mayReadAny items') := by
  induction items with
  | nil => rfl
  | cons item rest ih => simp [mayReadAny, ih, Bool.or_assoc]

namespace Environment.Admits

variable {e : Environment} {items items' : List Item}

theorem left (h : e.Admits (items ++ items')) : e.Admits items :=
  ⟨fun hany => h.steady (by simp [mayReadAny_append, hany]), h.keepsEval⟩

theorem right (h : e.Admits (items ++ items')) : e.Admits items' :=
  ⟨fun hany => h.steady (by simp [mayReadAny_append, hany]), h.keepsEval⟩

theorem inside {kind : ScopeKind} (h : e.Admits [.scope kind items]) :
    (e.inside kind items).Admits items := by
  have hf := fits_inside e kind items
  have hs : mayReadAny items = true → e.Steady :=
    fun hany => h.steady (by simp [mayReadAny, Item.mayReadAny, hany])
  refine ⟨steady_cons hf hs, fun x hx => ?_⟩
  rw [Environment.inside, Environment.read_cons] at hx
  cases ht : (scopeTable e kind items []).lookup x with
  | none => exact h.keepsEval x (by simpa [ht] using hx)
  | some z => exact hf.keepsEval x (by simpa [ht] using hx)

end Environment.Admits

/-! ## Parts that open again -/

/-- A node, closed and opened again, does with the new names what it did. -/
def Reopens (n : Node) : Prop :=
  ∀ e role strict, e.Admits (openNode n role strict).items →
    (openNode (closed e role strict n) role strict).items =
      renamedItems e (openNode n role strict).items

theorem Reopens.flatMap {α : Type} {e : Environment} {l : List α} {f g : α → List Item}
    (h : ∀ a ∈ l, e.Admits (f a) → g a = renamedItems e (f a)) (hl : e.Admits (l.flatMap f)) :
    l.flatMap g = renamedItems e (l.flatMap f) := by
  induction l with
  | nil => rfl
  | cons a l ih =>
    rw [List.flatMap_cons] at hl ⊢
    rw [List.flatMap_cons, renamedItems_append, h a List.mem_cons_self hl.left,
      ih (fun b hb => h b (List.mem_cons_of_mem _ hb)) hl.right]

/-- A scope, closed by its own table and opened again. -/
theorem renamedItems_scope (e : Environment) (kind : ScopeKind) (items : List Item) :
    renamedItems e [.scope kind items] =
      [.scope kind (renamedItems (e.inside kind items) items)] := rfl

section Parts

variable {e : Environment} {strict : Bool}

/-- Children in roles that are given with them, in no scope of their own. -/
theorem reopens_shape (e : Environment) (strict : Bool) {s : Shape (Role × Node)} (ih : ∀ p ∈ s.children, Reopens p.2)
    (h : e.Admits (shape (s.map fun p => openNode p.2 p.1 strict)).items) :
    (shape (s.map fun p => openNode (closed e p.1 strict p.2) p.1 strict)).items =
      renamedItems e (shape (s.map fun p => openNode p.2 p.1 strict)).items := by
  simp only [items_shape, Shape.children_map, List.flatMap_map] at h ⊢
  exact Reopens.flatMap (fun p hp hadmits => ih p hp e p.1 strict hadmits) h

/-- Children that are values, in no scope of their own. -/
theorem reopens_plainShape (e : Environment) (strict : Bool) {s : Shape Node} (ih : ∀ c ∈ s.children, Reopens c)
    (h : e.Admits (plainShape strict (s.map opened)).items) :
    (plainShape strict (((plainShape strict (s.map opened)).close e).map opened)).items =
      renamedItems e (plainShape strict (s.map opened)).items := by
  unfold plainShape at h ⊢
  simp only [items_shape, close_shape, Shape.children_map, List.flatMap_map] at h ⊢
  exact Reopens.flatMap (fun c hc hadmits => ih c hc e .value strict hadmits) h

theorem reopens_option (e : Environment) (strict : Bool) (role : Role) {o : Option Node} (ih : ∀ c ∈ o, Reopens c)
    (h : e.Admits (option ((o.map opened).map (·.2 role strict))).items) :
    (option (((o.map (closed e role strict)).map opened).map (·.2 role strict))).items =
      renamedItems e (option ((o.map opened).map (·.2 role strict))).items := by
  cases o with
  | none => rfl
  | some c => exact ih c rfl e role strict (by simpa using h)

theorem reopens_key {k : Key Node} (ih : ∀ c ∈ k.children, Reopens c)
    (h : e.Admits (key strict (k.map opened)).items) :
    (key strict (((key strict (k.map opened)).close e).map opened)).items =
      renamedItems e (key strict (k.map opened)).items := by
  cases k with
  | direct text => rfl
  | computed c => exact ih c List.mem_cons_self e .value strict h

/-- The body of a function decides on the strictness of its parts, and still does when closed. -/
theorem reopens_functionParts {parameters body : Node} (hp : Reopens parameters)
    (hb : Reopens body)
    (h : e.Admits (functionParts strict (opened parameters) (opened body)).items) :
    (functionParts strict
        (opened ((functionParts strict (opened parameters) (opened body)).close e).1)
        (opened ((functionParts strict (opened parameters) (opened body)).close e).2)).items =
      renamedItems e (functionParts strict (opened parameters) (opened body)).items := by
  have hstrict := isStrictBody_closed
  unfold closed at hstrict
  unfold functionParts at h ⊢
  simp only [items_within, close_within, close_seq, close_map, items_seq, items_map, opened,
    hstrict] at h ⊢
  rw [renamedItems_scope, renamedItems_append]
  have hin := h.inside
  congr 2
  congr 1
  · exact hp _ _ _ hin.left
  · exact hb _ _ _ hin.right

theorem reopens_memberValue {v : MemberValue Node} (ih : ∀ c ∈ v.children, Reopens c)
    (h : e.Admits (memberValue strict (v.map opened)).items) :
    (memberValue strict (((memberValue strict (v.map opened)).close e).map opened)).items =
      renamedItems e (memberValue strict (v.map opened)).items := by
  cases v with
  | getter body =>
    have hb := ih body (by simp [MemberValue.children])
    simp only [memberValue, MemberValue.map, items_map, close_map, items_within, close_within,
      opened] at h ⊢
    rw [renamedItems_scope, ← hb _ _ _ h.inside]
    rfl
  | method isAsync generator parameters body =>
    exact reopens_functionParts (ih parameters (by simp [MemberValue.children]))
      (ih body (by simp [MemberValue.children])) h
  | property initializer =>
    have hi : ∀ c ∈ initializer, Reopens c := fun c hc =>
      ih c (by simpa [MemberValue.children] using hc)
    have := reopens_option e strict .value hi h
    simp only [memberValue, MemberValue.map, items_map, close_map, close_option,
      Option.map_map] at this ⊢
    exact this
  | setter parameter body =>
    have hp := ih parameter (by simp [MemberValue.children])
    have hb := ih body (by simp [MemberValue.children])
    simp only [memberValue, MemberValue.map, items_map, close_map, items_within, close_within,
      items_seq, close_seq, opened] at h ⊢
    rw [renamedItems_scope, renamedItems_append, ← hp _ _ _ h.inside.left,
      ← hb _ _ _ h.inside.right]
    rfl

theorem reopens_classMember {m : ClassMember Node} (ih : ∀ c ∈ m.children, Reopens c)
    (h : e.Admits (classMember (m.map opened)).items) :
    (classMember (((classMember (m.map opened)).close e).map opened)).items =
      renamedItems e (classMember (m.map opened)).items := by
  simp only [classMember, ClassMember.map, items_seq, close_seq, items_map, close_map] at h ⊢
  rw [renamedItems_append,
    reopens_key (fun c hc => ih c (by simp [ClassMember.children, hc])) h.left,
    reopens_memberValue (fun c hc => ih c (by simp [ClassMember.children, hc])) h.right]

theorem reopens_classParts {parent : Option Node} {members : List (ClassMember Node)}
    (hp : ∀ c ∈ parent, Reopens c) (hm : ∀ m ∈ members, ∀ c ∈ m.children, Reopens c)
    (h : e.Admits (classParts (parent.map opened) (members.map (·.map opened))).items) :
    let parts := (classParts (parent.map opened) (members.map (·.map opened))).close e
    (classParts (parts.1.map opened) (parts.2.map (·.map opened))).items =
      renamedItems e (classParts (parent.map opened) (members.map (·.map opened))).items := by
  simp only [classParts, items_seq, close_seq, items_map, close_map, close_option, close_list,
    items_list, List.map_map, List.flatMap_map] at h ⊢
  rw [renamedItems_append]
  congr 1
  · have := reopens_option e true .value hp h.left
    simp only [Option.map_map] at this ⊢
    exact this
  · exact Reopens.flatMap (fun m hmem hadmits => reopens_classMember (hm m hmem) hadmits) h.right

theorem reopens_objectMember {span : Source.Span} {m : ObjectMember Node}
    (ih : ∀ c ∈ m.children, Reopens c)
    (h : e.Admits (objectMember span strict (m.map opened)).items) :
    (objectMember span strict
        (((objectMember span strict (m.map opened)).close e).map opened)).items =
      renamedItems e (objectMember span strict (m.map opened)).items := by
  cases m with
  | valued k value =>
    simp only [objectMember, ObjectMember.map, items_seq, close_seq, items_map, close_map] at h ⊢
    rw [renamedItems_append,
      reopens_key (fun c hc => ih c (by simp [ObjectMember.children, hc])) h.left,
      reopens_memberValue (fun c hc => ih c (by simp [ObjectMember.children, hc])) h.right]
  | shorthand name =>
    -- A shorthand that is written out reads the same variable.
    have hclose : (objectMember span strict (.shorthand name)).close e =
        if e.read name == name then .shorthand name
        else .valued (.direct name) (.property (some ⟨span, .identifier (e.read name)⟩)) := rfl
    rw [ObjectMember.map, hclose]
    by_cases heq : e.read name = name
    · rw [if_pos (by simpa using heq)]
      simp [objectMember, ObjectMember.map, renamedItems, Item.renamed, heq]
    · rw [if_neg (by simpa using heq)]
      simp [objectMember, ObjectMember.map, Key.map, MemberValue.map, key, memberValue, opened,
        items_openNode, openShape, Shape.map, renamedItems, Item.renamed]
  | spread c => exact ih c List.mem_cons_self e .value strict h

theorem reopens_patternProperty {role : Role} {k : Key Node} {target : Node}
    {fallback : Option Node} {shorthand : Bool} (hk : ∀ c ∈ k.children, Reopens c)
    (ht : Reopens target) (hf : ∀ c ∈ fallback, Reopens c)
    (h : e.Admits (patternProperty role strict (k.map opened) (opened target)
      (fallback.map opened) shorthand).items) (shorthand' : Bool) :
    (patternProperty role strict (((key strict (k.map opened)).close e).map opened)
        (opened (closed e role strict target))
        ((fallback.map (closed e .value strict)).map opened) shorthand').items =
      renamedItems e (patternProperty role strict (k.map opened) (opened target)
        (fallback.map opened) shorthand).items := by
  simp only [patternProperty, items_seq, items_map] at h ⊢
  rw [renamedItems_append, renamedItems_append, reopens_key hk h.left.left,
    reopens_option _ _ _ hf h.right]
  congr 2
  exact ht e role strict h.left.right

end Parts

/-! ## Whole trees -/

/-- Closing renames a variable that is read, and makes nothing else one. -/
theorem closed_identifier_iff (e : Environment) (role : Role) (strict : Bool) (n : Node)
    (name' : String) :
    (closed e role strict n).shape = .identifier name' ↔
      ∃ name, n.shape = .identifier name ∧ e.read name = name' := by
  rw [shape_closed]
  cases n.shape <;> simp [openShape, Shape.map, plainShape, patternProperty]
  all_goals split <;> simp [Shape.map]

theorem isDirectEval_iff (n : Node) : isDirectEval n = true ↔ n.shape = .identifier "eval" := by
  unfold isDirectEval
  split <;> simp_all

/-- A call of the evaluator stays one, and no other call becomes one. -/
theorem isDirectEval_closed {e : Environment} (role : Role) (strict : Bool) {n : Node}
    (hkeeps : ∀ x, e.read x = "eval" → x = "eval")
    (hsteady : isDirectEval n = true → e.Steady) :
    isDirectEval (closed e role strict n) = isDirectEval n := by
  rw [Bool.eq_iff_iff, isDirectEval_iff, closed_identifier_iff]
  constructor
  · rintro ⟨name, hn, hread⟩
    rw [isDirectEval_iff, hn, hkeeps name hread]
  · intro hn
    have hn' := (isDirectEval_iff n).1 hn
    exact ⟨"eval", hn', Environment.read_of_steady (hsteady hn) _⟩

/-! ## Whole trees -/

/-- The shape of a node, closed and opened again, does with the new names what it did. -/
def ShapeReopens (s : Shape Node) : Prop :=
  ∀ e span role strict, e.Admits (openShape span role strict (s.map opened)).items →
    (openShape span role strict
        (((openShape span role strict (s.map opened)).close e).map opened)).items =
      renamedItems e (openShape span role strict (s.map opened)).items

theorem Reopens.of_shape {n : Node} (h : ShapeReopens n.shape) : Reopens n := by
  intro e role strict hadmits
  rw [items_openNode] at hadmits
  rw [items_openNode, items_openNode, span_closed, shape_closed]
  exact h e n.span role strict hadmits

theorem shapeReopens_arrayPattern {elements : List (Option (Defaulted Node))} {rest : Option Node}
    (ih : ∀ c ∈ (Shape.arrayPattern elements rest).children, Reopens c) :
    ShapeReopens (.arrayPattern elements rest) := by
  intro e span role strict h
  let s : Shape (Role × Node) :=
    .arrayPattern (elements.map (·.map fun d => ⟨(role, d.target), d.fallback.map (.value, ·)⟩))
      (rest.map (role, ·))
  have hs : s.map (·.2) = .arrayPattern elements rest := by
    simp [s, Shape.map, Defaulted.map, Function.comp_def]
  have := reopens_shape e strict (s := s) fun p hp => ih p.2 <| by
    rw [← hs, Shape.children_map]
    exact List.mem_map_of_mem hp
  simp only [s, openShape, Shape.map, close_shape, List.map_map, Option.map_map,
    Function.comp_def, inRole, opened_snd, Defaulted.map] at h this ⊢
  exact this h

theorem shapeReopens_objectPattern {properties : List Node} {rest : Option Node}
    (ih : ∀ c ∈ (Shape.objectPattern properties rest).children, Reopens c) :
    ShapeReopens (.objectPattern properties rest) := by
  intro e span role strict h
  have := reopens_shape e strict
    (s := .objectPattern (properties.map (role, ·)) (rest.map (role, ·))) fun p hp => ih p.2 <| by
      simp only [Shape.children, List.mem_append, List.mem_map, Option.mem_toList,
        Option.map_eq_some_iff] at hp ⊢
      exact hp.imp (by rintro ⟨c, hc, rfl⟩; exact hc) (by rintro ⟨c, hc, rfl⟩; exact hc)
  simp only [openShape, Shape.map, close_shape, List.map_map, Option.map_map,
    Function.comp_def, inRole, opened_snd] at h this ⊢
  exact this h

theorem shapeReopens_patternProperty {k : Key Node} {target : Node} {fallback : Option Node}
    {shorthand : Bool}
    (ih : ∀ c ∈ (Shape.patternProperty k target fallback shorthand).children, Reopens c) :
    ShapeReopens (.patternProperty k target fallback shorthand) := by
  intro e span role strict h
  have := reopens_patternProperty (fun c hc => ih c (by simp [Shape.children, hc]))
    (ih target (by simp [Shape.children]))
    (fun c hc => ih c (by simpa [Shape.children] using .inr (.inr hc))) h
  simp only [openShape, Shape.map, patternProperty, close_seq, close_map, close_option,
    Option.map_map] at this ⊢
  exact this _

theorem shapeReopens_parameter {isRest : Bool} {pattern : Node} {fallback : Option Node}
    (ih : ∀ c ∈ (Shape.parameter isRest pattern fallback).children, Reopens c) :
    ShapeReopens (.parameter isRest pattern fallback) := by
  intro e span role strict h
  have := reopens_shape e strict
    (s := .parameter isRest (.declaration .lexical, pattern) (fallback.map (.value, ·)))
    fun p hp => ih p.2 <| by
      simp only [Shape.children, List.mem_cons, Option.mem_toList, Option.map_eq_some_iff] at hp ⊢
      exact hp.imp (by rintro rfl; rfl) (by rintro ⟨c, hc, rfl⟩; exact hc)
  simp only [openShape, Shape.map, close_shape, Option.map_map, Function.comp_def, inRole,
    opened_snd] at h this ⊢
  exact this h

theorem shapeReopens_variableDeclaration {kind : VariableKind} {declarators : List (Declarator Node)}
    (ih : ∀ c ∈ (Shape.variableDeclaration kind declarators).children, Reopens c) :
    ShapeReopens (.variableDeclaration kind declarators) := by
  intro e span role strict h
  let s : Shape (Role × Node) := .variableDeclaration kind (declarators.map fun d =>
    ⟨(.declaration (variableDeclares kind), d.pattern), d.initializer.map (.value, ·)⟩)
  have hs : s.map (·.2) = .variableDeclaration kind declarators := by
    simp [s, Shape.map, Declarator.map, Function.comp_def]
  have := reopens_shape e strict (s := s) fun p hp => ih p.2 <| by
    rw [← hs, Shape.children_map]
    exact List.mem_map_of_mem hp
  simp only [s, openShape, Shape.map, close_shape, List.map_map, Option.map_map,
    Function.comp_def, inRole, opened_snd, Declarator.map] at h this ⊢
  exact this h

theorem shapeReopens_functionDeclaration {isAsync generator : Bool} {name : Option Node}
    {parameters body : Node}
    (ih : ∀ c ∈ (Shape.functionDeclaration isAsync generator name parameters body).children,
      Reopens c) :
    ShapeReopens (.functionDeclaration isAsync generator name parameters body) := by
  intro e span role strict h
  simp only [openShape, Shape.map, items_seq, close_seq, items_map, close_map, close_option,
    Option.map_map] at h ⊢
  rw [renamedItems_append, reopens_functionParts (ih _ (by simp [Shape.children]))
    (ih _ (by simp [Shape.children])) h.right]
  congr 1
  have := reopens_option e strict (.declaration .function) (o := name)
    fun c hc => ih c (by simpa [Shape.children] using .inl hc)
  simp only [Option.map_map] at this
  exact this h.left

theorem shapeReopens_functionExpression {isAsync generator : Bool} {name : Option Node}
    {parameters body : Node}
    (ih : ∀ c ∈ (Shape.functionExpression isAsync generator name parameters body).children,
      Reopens c) :
    ShapeReopens (.functionExpression isAsync generator name parameters body) := by
  intro e span role strict h
  have hparameters := ih parameters (by simp [Shape.children])
  have hbody := ih body (by simp [Shape.children])
  cases name with
  | none => exact reopens_functionParts hparameters hbody h
  | some name =>
    -- The name has a scope of its own around that of the parameters.
    simp only [openShape, Shape.map, Option.map_some, items_seq, close_seq, items_map, close_map,
      items_within, close_within] at h ⊢
    rw [renamedItems_scope, renamedItems_append,
      reopens_functionParts hparameters hbody h.inside.right]
    congr 3
    exact ih name (by simp [Shape.children]) _ _ _ h.inside.left

theorem shapeReopens_classDeclaration {name parent : Option Node}
    {members : List (ClassMember Node)}
    (ih : ∀ c ∈ (Shape.classDeclaration name parent members).children, Reopens c) :
    ShapeReopens (.classDeclaration name parent members) := by
  intro e span role strict h
  simp only [openShape, Shape.map, items_seq, close_seq, items_map, close_map, close_option,
    Option.map_map] at h ⊢
  rw [renamedItems_append, reopens_classParts
    (fun c hc => ih c (by simpa [Shape.children] using .inr (.inl hc)))
    (fun m hm c hc => ih c (by simpa [Shape.children] using .inr (.inr ⟨m, hm, hc⟩))) h.right]
  congr 1
  have := reopens_option e strict (.declaration .lexical) (o := name)
    fun c hc => ih c (by simpa [Shape.children] using .inl hc)
  simp only [Option.map_map] at this
  exact this h.left

theorem shapeReopens_classExpression {name parent : Option Node}
    {members : List (ClassMember Node)}
    (ih : ∀ c ∈ (Shape.classExpression name parent members).children, Reopens c) :
    ShapeReopens (.classExpression name parent members) := by
  intro e span role strict h
  simp only [openShape, Shape.map, items_seq, close_seq, items_map, close_map, close_option,
    Option.map_map, items_within, close_within] at h ⊢
  rw [renamedItems_scope, renamedItems_append, reopens_classParts
    (fun c hc => ih c (by simpa [Shape.children] using .inr (.inl hc)))
    (fun m hm c hc => ih c (by simpa [Shape.children] using .inr (.inr ⟨m, hm, hc⟩)))
    h.inside.right]
  congr 3
  have := fun e => reopens_option e strict (.declaration .lexical) (o := name)
    fun c hc => ih c (by simpa [Shape.children] using .inl hc)
  simp only [Option.map_map] at this
  exact this _ h.inside.left

/-- A call of the evaluator stays one in an environment that admits it. -/
theorem shapeReopens_call {isOptional parenthesised : Bool} {callee : Node}
    {arguments : List Node}
    (ih : ∀ c ∈ (Shape.call isOptional parenthesised callee arguments).children, Reopens c) :
    ShapeReopens (.call isOptional parenthesised callee arguments) := by
  intro e span role strict h
  have hopen : ∀ (c : Node) (l : List Node),
      openShape span role strict ((Shape.call isOptional parenthesised c l).map opened) =
        if isDirectEval c then
          item .readsAny *> plainShape strict ((Shape.call isOptional parenthesised c l).map opened)
        else plainShape strict ((Shape.call isOptional parenthesised c l).map opened) :=
    fun _ _ => rfl
  have hclose : (plainShape strict
      ((Shape.call isOptional parenthesised callee arguments).map opened)).close e =
        .call isOptional parenthesised (closed e .value strict callee)
          (arguments.map (closed e .value strict)) := by
    simp only [plainShape, close_shape, Shape.map, List.map_map]
    rfl
  have hplain := reopens_plainShape e strict ih
  have heval := isDirectEval_closed .value strict (n := callee) h.keepsEval
    fun hcall => h.steady (by rw [hopen, if_pos hcall]; rfl)
  rw [hopen] at h ⊢
  by_cases hcall : isDirectEval callee = true
  · rw [if_pos hcall] at h ⊢
    rw [hclose] at hplain
    rw [close_seqRight, hclose, hopen, if_pos (heval.trans hcall)]
    exact congrArg (Item.readsAny :: ·) (hplain h.right)
  · rw [if_neg hcall] at h ⊢
    rw [hclose] at hplain
    rw [hclose, hopen, if_neg (by rwa [heval])]
    exact hplain h

theorem shapeReopens_block {body : List Node}
    (ih : ∀ c ∈ (Shape.block body).children, Reopens c) : ShapeReopens (.block body) := by
  intro e span role strict h
  by_cases hrole : role = .body
  · simp only [openShape, Shape.map, if_pos hrole] at h ⊢
    exact reopens_plainShape _ _ ih h
  · simp only [openShape, Shape.map, if_neg hrole, items_within, close_within] at h ⊢
    exact congrArg (fun items => [Item.scope .block items]) (reopens_plainShape _ _ ih h.inside)

theorem shapeReopens_switchStatement {subject : Node} {cases : List Node}
    (ih : ∀ c ∈ (Shape.switchStatement subject cases).children, Reopens c) :
    ShapeReopens (.switchStatement subject cases) := by
  intro e span role strict h
  simp only [openShape, Shape.map, items_seq, close_seq, items_map, close_map, items_within,
    close_within, items_list, close_list, List.map_map, List.flatMap_map] at h ⊢
  rw [renamedItems_append, renamedItems_scope]
  congr 2
  · exact ih subject List.mem_cons_self e .value strict h.left
  · congr 1
    exact Reopens.flatMap
      (fun c hc hadmits => ih c (List.mem_cons_of_mem _ hc) _ .value strict hadmits) h.right.inside

theorem shapeReopens_catchClause {pattern : Option Node} {body : Node}
    (ih : ∀ c ∈ (Shape.catchClause pattern body).children, Reopens c) :
    ShapeReopens (.catchClause pattern body) := by
  intro e span role strict h
  let s : Shape (Role × Node) :=
    .catchClause (pattern.map (.declaration .lexical, ·)) (.body, body)
  have hs : s.map (·.2) = .catchClause pattern body := by
    simp [s, Shape.map, Function.comp_def]
  have := fun e => reopens_shape e strict (s := s) fun p hp => ih p.2 <| by
    rw [← hs, Shape.children_map]
    exact List.mem_map_of_mem hp
  simp only [s, openShape, Shape.map, close_within, items_within, close_shape, Option.map_map,
    Function.comp_def, inRole, opened_snd] at h this ⊢
  exact congrArg (fun items => [Item.scope .block items]) (this _ h.inside)

theorem shapeReopens_importDeclaration {defaultName : Option Node}
    {names : Option (ModuleNames Node)} {source : String}
    (ih : ∀ c ∈ (Shape.importDeclaration defaultName names source).children, Reopens c) :
    ShapeReopens (.importDeclaration defaultName names source) := by
  intro e span role strict h
  let s : Shape (Role × Node) := .importDeclaration
    (defaultName.map (.declaration .lexical, ·))
    (names.map (·.map (.declaration .lexical, ·))) source
  have hs : s.map (·.2) = .importDeclaration defaultName names source := by
    rcases names with - | ⟨- | asName⟩ | names <;>
      simp [s, Shape.map, ModuleNames.map, ModuleName.map, Function.comp_def]
  have := reopens_shape e strict (s := s) fun p hp => ih p.2 <| by
    rw [← hs, Shape.children_map]
    exact List.mem_map_of_mem hp
  rcases names with - | ⟨- | asName⟩ | names <;>
    simp only [s, openShape, Shape.map, close_shape, Option.map_map, Option.map_some,
      Option.map_none, Function.comp_def, inRole, opened_snd, ModuleNames.map, ModuleName.map,
      List.map_map] at h this ⊢
  all_goals exact this h

/-- The names of an exported list are those of its targets, which closing leaves as they are. -/
theorem shapeReopens_exportList {names : ModuleNames Node} {source : Option String} :
    ShapeReopens (.exportList names source) := by
  intro e span role strict h
  cases names <;> cases source <;>
    simp [openShape, Shape.map, ModuleNames.map, ModuleName.map, renamedItems, Item.renamed,
      Function.comp_def]

theorem shapeReopens_exportDeclaration {declaration : Node} {isDefault : Bool}
    (ih : ∀ c ∈ (Shape.exportDeclaration declaration isDefault).children, Reopens c) :
    ShapeReopens (.exportDeclaration declaration isDefault) := by
  intro e span role strict h
  have hitems : ∀ c : Node,
      (openShape span role strict ((Shape.exportDeclaration c isDefault).map opened)).items =
        [Item.exporting true] ++ (plainShape strict ((Shape.exportDeclaration c isDefault).map
          opened)).items ++ [Item.exporting false] := fun _ => rfl
  rw [hitems] at h ⊢
  rw [renamedItems_append, renamedItems_append, ← reopens_plainShape _ _ ih h.left.right]
  rfl

theorem shapeReopens_withStatement {object body : Node}
    (ih : ∀ c ∈ (Shape.withStatement object body).children, Reopens c) :
    ShapeReopens (.withStatement object body) := by
  intro e span role strict h
  exact congrArg (Item.readsAny :: ·) (reopens_plainShape _ _ ih h.right)

theorem shapeReopens_forLoop {head : ForHead Node} {body : Node}
    (ih : ∀ c ∈ (Shape.forLoop head body).children, Reopens c) :
    ShapeReopens (.forLoop head body) := by
  intro e span role strict h
  exact congrArg (fun items => [Item.scope .block items]) (reopens_plainShape _ _ ih h.inside)

theorem shapeReopens_arrowFunction {isAsync : Bool} {parameters body : Node}
    (ih : ∀ c ∈ (Shape.arrowFunction isAsync parameters body).children, Reopens c) :
    ShapeReopens (.arrowFunction isAsync parameters body) := by
  intro e span role strict h
  exact reopens_functionParts (ih _ (by simp [Shape.children])) (ih _ (by simp [Shape.children])) h

theorem shapeReopens_objectMember {content : ObjectMember Node}
    (ih : ∀ c ∈ (Shape.objectMember content).children, Reopens c) :
    ShapeReopens (.objectMember content) := by
  intro e span role strict h
  exact reopens_objectMember ih h

/-- Every tree, closed and opened again, does with the new names what it did. -/
theorem reopens (n : Node) : Reopens n := by
  induction n using Node.induction with
  | h n ih =>
    refine Reopens.of_shape ?_
    cases hs : n.shape <;> rw [hs] at ih
    case bindingName name => intro e span role strict _; cases role <;> rfl
    case definitionName name => intro e span role strict _; cases role <;> rfl
    case identifier name => intro e span role strict _; rfl
    case arrayPattern => exact shapeReopens_arrayPattern ih
    case objectPattern => exact shapeReopens_objectPattern ih
    case patternProperty => exact shapeReopens_patternProperty ih
    case parameter => exact shapeReopens_parameter ih
    case variableDeclaration => exact shapeReopens_variableDeclaration ih
    case functionDeclaration => exact shapeReopens_functionDeclaration ih
    case functionExpression => exact shapeReopens_functionExpression ih
    case arrowFunction => exact shapeReopens_arrowFunction ih
    case classDeclaration => exact shapeReopens_classDeclaration ih
    case classExpression => exact shapeReopens_classExpression ih
    case objectMember => exact shapeReopens_objectMember ih
    case call => exact shapeReopens_call ih
    case withStatement => exact shapeReopens_withStatement ih
    case block => exact shapeReopens_block ih
    case forLoop => exact shapeReopens_forLoop ih
    case switchStatement => exact shapeReopens_switchStatement ih
    case catchClause => exact shapeReopens_catchClause ih
    case importDeclaration => exact shapeReopens_importDeclaration ih
    case exportList => exact shapeReopens_exportList
    case exportDeclaration => exact shapeReopens_exportDeclaration ih
    -- The other shapes have values for children and open no scope.
    all_goals exact fun e span role strict h => reopens_plainShape _ _ ih h

end ScriptMin.Rename
