import ScriptMin.Proofs.Layout.Parts
import ScriptMin.Proofs.Rewrite.Kept

/-!
# Nodes over children that are written in no more text

If each child of a node can be exchanged for another one, so can the node. Where a node ends in a
statement that it holds, the semicolon behind it is that of this statement.
-/

namespace ScriptMin

open Layout Node

namespace Layout

/-! ## Rows of statements and of cases -/

theorem shrinks_row_all (closed : Bool) {ps : List (Node × Node)} (h : AllTighten ps) :
    Shrinks (row closed none (ps.map Prod.fst)) (row closed none (ps.map Prod.snd)) :=
  @shrinks_row closed none none ps h [] [] (.refl _) (.refl _)

theorem shrinks_statements {ps : List (Node × Node)} (h : AllTighten ps) :
    Shrinks (statements (ps.map first)) (statements (ps.map second)) := by
  have hrow := shrinks_row_all false h
  rw [← shrinks_compacted_iff] at hrow ⊢
  rwa [statements, statements, map_first, map_second, compacted_statementsAfter,
    compacted_statementsAfter]

theorem compacted_block (body : List Node) :
    compacted (block (body.map Node.child)) =
      mark .openBrace ++ compacted (row false none body) ++ mark .closeBrace := by
  unfold block braced
  rw [compacted_space, compacted_append, compacted_append, compacted_when, compacted_append,
    compacted_indented, statements, compacted_statementsAfter]
  cases hany : (body.map Node.child).any (!·.1.isEmptyStatement)
  · have hempty : body.all Node.isEmptyStatement := by simpa [Node.child] using hany
    rw [row_of_all_isEmpty hempty]
    rfl
  · simp only [when, if_true, compacted_newline, compacted_nil, List.append_nil, compacted_mark]

theorem shrinks_block {ps : List (Node × Node)} (h : AllTighten ps) :
    Shrinks (block (ps.map first)) (block (ps.map second)) := by
  have hrow := shrinks_row_all false h
  rw [← shrinks_compacted_iff] at hrow ⊢
  rw [map_first, map_second, compacted_block, compacted_block]
  exact hrow.between _ _

theorem shrinks_switchCases {ps : List (Node × Node)} (h : AllTighten ps) {l l' : Layout}
    {needs needs' : Bool} (hl : Shrinks l l')
    (hnext : Shrinks (l ++ when needs (mark .semicolon)) (l' ++ when needs' (mark .semicolon))) :
    Shrinks (l ++ switchCases needs (ps.map first)) (l' ++ switchCases needs' (ps.map second)) := by
  induction ps generalizing l l' needs needs' with
  | nil => exact hl.ahead []
  | cons p rest ih =>
    have hcompacted (l : Layout) (needs : Bool) (f : Node × Node → Node) :
        compacted (l ++ switchCases needs ((p :: rest).map fun p => (f p).child)) =
          compacted (l ++ when needs (mark .semicolon) ++ (f p).child.plain ++
            switchCases (caseNeedsSemicolon (f p)) (rest.map fun p => (f p).child)) := by
      simp only [List.map_cons, switchCases, compacted_append, compacted_newline, compacted_when,
        compacted_semicolon_compact, compacted_mark, compacted_nil, List.append_assoc, Node.child]
      rfl
    rw [← shrinks_compacted_iff]
    unfold first second at *
    rw [hcompacted l needs Prod.fst, hcompacted l' needs' Prod.snd, shrinks_compacted_iff]
    refine ih h.tail (hnext.append h.head.plain) ?_
    have hcase := hnext.append (h.head.followed .case)
    simpa only [List.append_assoc, Follower.mark] using hcase

/-! ## Statements that end in another one -/

/-- The statement that a shape ends in. -/
def lastStatement? {α : Type} : Shape α → Option α
  | .whileLoop _ body | .forLoop _ body | .withStatement _ body | .labelledStatement _ body
  | .exportDeclaration body _ | .ifStatement _ body none | .ifStatement _ _ (some body) => some body
  | _ => none

/-- A node that ends as a statement in it does. -/
structure EndsIn (n c : Node) : Prop where
  ending : n.ending = c.ending
  noCase : caseNeedsSemicolon n = false

theorem endsIn_of_lastStatement? {n c : Node} (h : lastStatement? n.shape = some c) :
    EndsIn n c := by
  obtain ⟨span, shape⟩ := n
  cases shape
  case ifStatement test consequent alternate =>
    cases alternate <;> cases h <;> exact ⟨rfl, rfl⟩
  case whileLoop | forLoop | withStatement | labelledStatement | exportDeclaration =>
    cases h
    exact ⟨rfl, rfl⟩
  all_goals cases h

theorem lastStatement?_map {α β : Type} (f : α → β) (s : Shape α) :
    lastStatement? (s.map f) = (lastStatement? s).map f := by
  cases s
  case ifStatement test consequent alternate => cases alternate <;> rfl
  all_goals rfl

section Bodies

variable {span span' : Source.Span} {inHead : Bool}

theorem text_first (s : Shape (Node × Node)) :
    Node.text ⟨span, s.map Prod.fst⟩ inHead = ofShape inHead (s.map first) := by
  rw [Node.text_eq, Shape.map_map]
  rfl

theorem text_second (s : Shape (Node × Node)) :
    Node.text ⟨span, s.map Prod.snd⟩ inHead = ofShape inHead (s.map second) := by
  rw [Node.text_eq, Shape.map_map]
  rfl

/-- What follows a node follows the statement at its end. Nothing follows that like a case. -/
theorem shrinks_last {n n' c c' : Node} {l l' x x' : Layout} (hn : EndsIn n c) (hn' : EndsIn n' c')
    (hl : Shrinks l l')
    (hx : ∀ follower : Follower, follower ≠ .case →
      Shrinks (x ++ follower.mark c) (x' ++ follower.mark c'))
    (follower : Follower) :
    Shrinks (l ++ x ++ follower.mark n) (l' ++ x' ++ follower.mark n') := by
  rw [List.append_assoc, List.append_assoc]
  refine hl.append ?_
  cases follower with
  | inside => exact hx .inside (by simp)
  | statement =>
    simp only [Follower.mark, hn.ending, hn'.ending]
    exact hx .statement (by simp)
  | rowEnd =>
    simp only [Follower.mark, hn.ending, hn'.ending]
    exact hx .rowEnd (by simp)
  | case =>
    simp only [Follower.mark, hn.noCase, hn'.noCase]
    exact hx .inside (by simp)

theorem shrinks_lastChild {s : Shape (Node × Node)} {c : Node × Node} {l l' x x' : Layout}
    (hc : lastStatement? s = some c) (hs : ofShape inHead (s.map first) = l ++ x)
    (hs' : ofShape inHead (s.map second) = l' ++ x') (hl : Shrinks l l')
    (hx : ∀ follower : Follower, Shrinks (x ++ follower.mark c.1) (x' ++ follower.mark c.2))
    (follower : Follower) :
    Shrinks
      (Node.text ⟨span, s.map Prod.fst⟩ inHead ++ follower.mark ⟨span, s.map Prod.fst⟩)
      (Node.text ⟨span', s.map Prod.snd⟩ inHead ++ follower.mark ⟨span', s.map Prod.snd⟩) := by
  have hends (span : Source.Span) (f : Node × Node → Node) : EndsIn ⟨span, s.map f⟩ (f c) :=
    endsIn_of_lastStatement? (by rw [lastStatement?_map, hc]; rfl)
  rw [text_first, text_second, hs, hs']
  exact shrinks_last (hends span Prod.fst) (hends span' Prod.snd) hl (fun follower _ => hx follower)
    follower

/-- A statement that ends in another one, with what follows it. -/
theorem shrinks_followed {s : Shape (Node × Node)} (h : AllTighten s.children)
    (hs : (lastStatement? s).isSome) (follower : Follower) :
    Shrinks
      (Node.text ⟨span, s.map Prod.fst⟩ inHead ++ follower.mark ⟨span, s.map Prod.fst⟩)
      (Node.text ⟨span', s.map Prod.snd⟩ inHead ++ follower.mark ⟨span', s.map Prod.snd⟩) := by
  cases s <;> first | cases hs | skip
  case exportDeclaration declaration isDefault =>
    exact shrinks_lastChild rfl rfl rfl (.refl _) h.head.followed follower
  case forLoop head body =>
    have hhead := (shrinks_parenthesised (shrinks_forHead h.left)).spaced
    cases head with
    | stepped init condition post =>
      exact shrinks_lastChild rfl rfl rfl (hhead.behind (word .forWord)) h.right.head.body follower
    | each isOf awaits target subject =>
      cases awaits with
      | true =>
        exact shrinks_lastChild rfl rfl rfl (hhead.behind (word .forWord ++ word .awaitWord))
          h.right.head.body follower
      | false =>
        exact shrinks_lastChild rfl rfl rfl (hhead.behind (word .forWord)) h.right.head.body
          follower
  case ifStatement test consequent alternate =>
    have htest := h.left.head.wrapped.spaced.behind (word .ifWord)
    cases alternate with
    | none =>
      refine shrinks_lastChild rfl ?_ ?_ htest h.left.tail.head.body follower <;>
        exact List.append_nil _
    | some c =>
      have hthen := htest.append (h.left.tail.head.body .statement)
      refine shrinks_lastChild rfl ?_ ?_ (hthen.ahead (.space :: word .elseWord)) h.right.head.body
        follower
      all_goals
        unfold ofShape
        simp [Shape.map, optional]
        rfl
  case labelledStatement label statement =>
    exact shrinks_lastChild rfl rfl rfl (.refl _) h.head.body follower
  case whileLoop condition body =>
    exact shrinks_lastChild rfl rfl rfl (h.head.wrapped.spaced.behind (word .whileWord))
      h.tail.head.body follower
  case withStatement object body =>
    exact shrinks_lastChild rfl rfl rfl (h.head.wrapped.spaced.behind (word .withWord))
      h.tail.head.body follower

end Bodies

/-! ## Shapes -/

theorem caseNeedsSemicolon_switchCase (span : Source.Span) (test : Option Node) (body : List Node) :
    row true none body =
      row false none body ++ Follower.case.mark ⟨span, .switchCase test body⟩ := by
  rw [row_true, Option.or_none]
  simp only [Follower.mark, caseNeedsSemicolon]
  congr 2
  cases body.reverse.find? (!·.isEmptyStatement) <;> simp

/-- What a case starts with. -/
def caseTest (test : Option Child) : Layout :=
  match test with
  | some c => word .caseWord ++ .space :: c.plain
  | none => word .defaultWord

theorem shrinks_caseTest {test : Option (Node × Node)} (h : AllTighten test.toList) :
    Shrinks (caseTest (test.map first)) (caseTest (test.map second)) := by
  cases test with
  | none => exact .refl _
  | some c => exact h.head.plain.spaced.behind (word .caseWord)

theorem shrinks_arguments {ps : List (Node × Node)} (h : AllTighten ps) :
    Shrinks (arguments (ps.map first)) (arguments (ps.map second)) :=
  shrinks_parenthesised (shrinks_children h Tightens.plain)

theorem shrinks_arrayElement {x : ArrayElement (Node × Node)} (h : AllTighten x.children) :
    Shrinks (arrayElement (x.map first)) (arrayElement (x.map second)) := by
  cases x with
  | item c => exact h.head.single
  | spread c => exact h.head.single.behind _
  | hole => exact .refl _

theorem isHole_map (f g : Node × Node → Child) (x : ArrayElement (Node × Node)) :
    isHole (x.map f) = isHole (x.map g) := by
  cases x <;> rfl

theorem shrinks_arrayLiteral (inHead : Bool) {elements : List (ArrayElement (Node × Node))}
    (h : AllTighten (elements.flatMap ArrayElement.children)) :
    Shrinks (ofShape inHead (.arrayLiteral (elements.map (·.map first))))
      (ofShape inHead (.arrayLiteral (elements.map (·.map second)))) := by
  have hholes : ((elements.map (·.map first)).getLast?.any isHole) =
      ((elements.map (·.map second)).getLast?.any isHole) := by
    rw [List.getLast?_map, List.getLast?_map]
    cases elements.getLast? <;> simp [isHole_map first second]
  unfold ofShape
  simp only [hholes, List.map_map]
  refine Shrinks.between (Shrinks.ahead (shrinks_list fun x hx => ?_) _) _ _
  exact shrinks_arrayElement (h.part hx)

theorem shrinks_list_append {α : Type} {xs : List α} {ys : List (Node × Node)}
    {f g : α → Layout} {k : Child → Layout} (hxs : ∀ x ∈ xs, Shrinks (f x) (g x))
    (hys : AllTighten ys)
    (hk : ∀ {n n' : Node}, Tightens n n' → Shrinks (k n.child) (k n'.child)) :
    Shrinks (list (xs.map f ++ (ys.map first).map k))
      (list (xs.map g ++ (ys.map second).map k)) := by
  have hsum (f : α → Layout) (c : Node × Node → Child) :
      xs.map f ++ (ys.map c).map k =
        (xs.map Sum.inl ++ ys.map Sum.inr).map (Sum.elim f (k ∘ c)) := by
    simp [List.map_map, Function.comp_def]
  rw [hsum f first, hsum g second]
  refine shrinks_list fun z hz => ?_
  obtain ⟨x, hx, rfl⟩ | ⟨y, hy, rfl⟩ := (List.mem_append.1 hz).imp List.mem_map.1 List.mem_map.1
  · exact hxs x hx
  · exact hk (hys y hy)

theorem shrinks_arrayPattern (inHead : Bool) {elements : List (Option (Defaulted (Node × Node)))}
    {rest : Option (Node × Node)}
    (h : AllTighten ((elements.flatMap fun e => e.toList.flatMap Defaulted.children) ++
      rest.toList)) :
    Shrinks (ofShape inHead (.arrayPattern (elements.map (·.map (·.map first))) (rest.map first)))
      (ofShape inHead
        (.arrayPattern (elements.map (·.map (·.map second))) (rest.map second))) := by
  -- The holes at the end stay holes.
  have hholes (f : Node × Node → Child) :
      ((elements.map (·.map (·.map f))).getLast?.any Option.isNone) =
        (elements.getLast?.any Option.isNone) := by
    rw [List.getLast?_map]
    cases elements.getLast? <;> simp
  unfold ofShape
  simp only [hholes, Option.isNone_map, toList_optionMap, List.map_map (l := elements)]
  refine Shrinks.between (Shrinks.ahead ?_ _) _ _
  refine shrinks_list_append (fun d hd => ?_) h.right fun h => h.plain.behind _
  cases d with
  | none => exact .refl _
  | some d =>
    have hd : AllTighten d.children := (h.left.part hd).part List.mem_cons_self
    exact hd.head.plain.append (shrinks_fallback hd.tail)

theorem shrinks_objectPattern (inHead : Bool) {properties : List (Node × Node)}
    {rest : Option (Node × Node)} (h : AllTighten (properties ++ rest.toList)) :
    Shrinks (ofShape inHead (.objectPattern (properties.map first) (rest.map first)))
      (ofShape inHead (.objectPattern (properties.map second) (rest.map second))) := by
  unfold ofShape
  simp only [toList_optionMap, List.map_map (l := properties)]
  refine Shrinks.between ?_ _ _
  exact shrinks_list_append (fun p hp => (h.left p hp).plain) h.right fun h => h.plain.behind _

theorem shrinks_importDeclaration (inHead : Bool) {name : Option (Node × Node)}
    {names : Option (ModuleNames (Node × Node))} (source : String)
    (h : AllTighten (name.toList ++ names.toList.flatMap ModuleNames.children)) :
    Shrinks
      (ofShape inHead (.importDeclaration (name.map first) (names.map (·.map first)) source))
      (ofShape inHead
        (.importDeclaration (name.map second) (names.map (·.map second)) source)) := by
  have hname := (shrinks_optional h.left Tightens.plain).behind (word .importWord)
  have hnames : Shrinks ((names.map (·.map first) |>.map moduleNames).getD [])
      ((names.map (·.map second) |>.map moduleNames).getD []) := by
    cases names with
    | none => exact .refl _
    | some names => exact shrinks_moduleNames (h.right.part List.mem_cons_self)
  unfold ofShape
  simp only [Option.isSome_map]
  exact (((hname.ahead _).append hnames).ahead _).ahead _

theorem shrinks_ofShape (inHead : Bool) {s : Shape (Node × Node)} (h : AllTighten s.children) :
    Shrinks (ofShape inHead (s.map first)) (ofShape inHead (s.map second)) := by
  by_cases hlast : (lastStatement? s).isSome
  · have hfollowed := @shrinks_followed ⟨0, 0⟩ ⟨0, 0⟩ inHead s h hlast .inside
    rwa [text_first, text_second, Follower.mark, Follower.mark, List.append_nil,
      List.append_nil] at hfollowed
  cases s with
  | arrayPattern elements rest => exact shrinks_arrayPattern inHead h
  | objectPattern properties rest => exact shrinks_objectPattern inHead h
  | patternProperty k target value shorthand =>
    exact Shrinks.append (Shrinks.append (.ite rfl (((shrinks_key h.left.left).ahead _).ahead _)
      (.refl _)) h.left.right.head.plain) (shrinks_fallback h.right)
  | signature parameters => exact shrinks_children h Tightens.plain
  | parameter isRest pattern value =>
    exact (h.head.plain.behind _).append (shrinks_fallback h.tail)
  | functionDeclaration isAsync generator name parameters body
  | functionExpression isAsync generator name parameters body =>
    exact shrinks_function isAsync generator h
  | arrowFunction isAsync parameters body =>
    have hsingle : isSingleName parameters.2 = isSingleName parameters.1 :=
      congrArg Edge.isSingleName h.head.edge
    exact (((Shrinks.ite hsingle h.head.plain h.head.wrapped).behind _).ahead _).append
      (shrinks_arrowBody h.tail.head)
  | classDeclaration name parent members | classExpression name parent members =>
    exact shrinks_classLayout h
  | variableDeclaration kind declarators =>
    simp only [Shape.map, ofShape, List.map_map]
    exact (shrinks_list fun d hd => shrinks_declarator inHead (h.part hd)).behind _
  | binary op left right => exact shrinks_binary op h
  | assignment op target value => exact ((h.head.under _).ahead _).append h.tail.head.single
  | unary op operand => exact (h.head.under _).behind _
  | postfixed op operand => exact (h.head.under _).ahead _
  | conditional test consequent alternate =>
    exact ((((h.head.under _).ahead _).append h.tail.head.single).ahead _).append
      h.tail.tail.head.single
  | sequence elements => exact shrinks_children h Tightens.single
  | call isOptional parenthesised callee cs =>
    exact ((h.head.under _).ahead _).append (shrinks_arguments h.tail)
  | index isOptional parenthesised object subscript =>
    exact ((h.head.under _).ahead _).append (h.tail.head.plain.between _ _)
  | member isOptional parenthesised object name =>
    have hpoint : takesPoint object.2 = takesPoint object.1 :=
      congrArg Edge.takesPoint h.head.edge
    simp only [Shape.map, ofShape, first, second, Node.child, hpoint]
    exact (((h.head.under _).ahead _).ahead _).ahead _
  | construct callee cs =>
    have hcall : callee.2.containsCall = callee.1.containsCall :=
      congrArg Edge.containsCall h.head.edge
    exact ((Shrinks.ite hcall h.head.wrapped (h.head.under _)).behind _).append
      (shrinks_arguments h.tail)
  | argument isSpread value => exact h.head.single.behind _
  | importCall specifier => exact (shrinks_parenthesised h.head.single).behind _
  | yieldExpression delegates operand =>
    exact (shrinks_optional (f := fun c => .space :: c.single) h fun h =>
      h.single.spaced).behind _
  | arrayLiteral elements => exact shrinks_arrayLiteral inHead h
  | objectLiteral members => exact (shrinks_children h Tightens.plain).between _ _
  | objectMember content => exact shrinks_objectMember h
  | templateLiteral parts => exact shrinks_template h
  | taggedTemplate tag parts => exact (h.left.head.under _).append (shrinks_template h.right)
  | block body => exact shrinks_block h
  | doWhileLoop body condition =>
    have hbody := (h.head.body .statement).between (word .doWord)
      (.space :: word .whileWord)
    have := hbody.append (h.tail.head.wrapped.spaced)
    simp only [List.append_assoc] at this
    simp only [Shape.map, ofShape, List.append_assoc]
    exact this
  | exportDefault expression =>
    have hstart : expression.2.startsLikeDeclaration = expression.1.startsLikeDeclaration :=
      congrArg (fun e : Edge => e.start.declaration) h.head.edge
    exact (Shrinks.ite hstart h.head.wrapped h.head.single).behind _
  | exportList names source => exact ((shrinks_moduleNames h).behind _).ahead _
  | expressionStatement expression =>
    have hstart : expression.2.startsLikeStatement = expression.1.startsLikeStatement :=
      congrArg (fun e : Edge => e.start.statement) h.head.edge
    exact .ite hstart h.head.wrapped h.head.plain
  | importDeclaration name names source => exact shrinks_importDeclaration inHead source h
  | returnStatement value =>
    exact (shrinks_optional (f := fun c => .space :: c.plain) h fun h =>
      h.plain.spaced).behind _
  | switchStatement subject cases =>
    have hcases : Shrinks (switchCases false (cases.map first))
        (switchCases false (cases.map second)) :=
      shrinks_switchCases h.tail (.refl []) (.refl [])
    have hbraced := ((hcases.ahead [.newline]).between (mark .openBrace) (mark .closeBrace)).spaced
    have hsubject := h.head.wrapped.spaced.behind (word .switchWord)
    simp only [Shape.map, ofShape]
    exact hsubject.append hbraced
  | switchCase test body =>
    exact ((shrinks_caseTest h.left).ahead _).append
      ((shrinks_statements h.right).between [.indent] [.dedent])
  | throwStatement value => exact h.head.plain.spaced.behind _
  | tryStatement body handler finalizer =>
    have hhandler := shrinks_optional (f := fun c => .space :: c.plain) h.left.right fun h =>
      h.plain.spaced
    have hfinalizer := shrinks_optional (f := fun c => .space :: word .finallyWord ++ c.plain)
      h.right fun h => (h.plain.behind (word .finallyWord)).spaced
    exact ((h.left.left.head.plain.behind (word .tryWord)).append hhandler).append hfinalizer
  | catchClause pattern body =>
    have hpattern := shrinks_optional (f := fun c => .space :: c.wrapped) h.left fun h =>
      h.wrapped.spaced
    exact (hpattern.behind (word .catchWord)).append h.right.head.plain
  | variableStatement declaration => exact h.head.plain
  | program body => exact shrinks_statements h
  | whileLoop | forLoop | withStatement | labelledStatement | exportDeclaration =>
    exact absurd rfl hlast
  | ifStatement test consequent alternate => cases alternate <;> exact absurd rfl hlast
  | bindingName | definitionName | identifier | importMeta | newTarget | superExpression
  | thisExpression | bigIntLiteral | booleanLiteral | nullLiteral | numberLiteral | regexLiteral
  | stringLiteral | undefinedLiteral | breakStatement | continueStatement | debuggerStatement
  | directive | emptyStatement => exact .refl _

end Layout

namespace Tightens

theorem containsIn_eq (n : Node) :
    n.containsIn = ((n.shape matches .binary .inOperator _ _) ||
      n.shape.children.any Node.containsIn) := by
  unfold Node.containsIn Node.any
  rw [Node.fold_eq, Shape.children_map, List.any_map]
  rfl

variable {span span' : Source.Span} {s : Shape (Node × Node)}

theorem containsIn_of_children (h : AllTighten s.children)
    (hin : Node.containsIn ⟨span', s.map Prod.snd⟩) : Node.containsIn ⟨span, s.map Prod.fst⟩ := by
  rw [containsIn_eq, Bool.or_eq_true, Shape.children_map, List.any_map, List.any_eq_true] at hin ⊢
  refine hin.imp (fun hin => ?_) fun ⟨p, hp, hin⟩ => ⟨p, hp, (h p hp).containsIn hin⟩
  cases s with
  | binary op left right => cases op <;> exact hin
  | _ => exact hin

/-- A node that ends in no other statement is followed by the same mark with other children, if it
is no case before another one. -/
theorem mark_of_children (hs : lastStatement? s = none) (follower : Follower) :
    follower.mark ⟨span', s.map Prod.snd⟩ = follower.mark ⟨span, s.map Prod.fst⟩ ∨
      follower = .case ∧ ∃ test body, s = .switchCase test body := by
  cases s with
  | ifStatement test consequent alternate => cases alternate <;> cases hs
  | whileLoop | forLoop | withStatement | labelledStatement | exportDeclaration => cases hs
  | switchCase test body =>
    cases follower with
    | case => exact .inr ⟨rfl, test, body, rfl⟩
    | inside | statement | rowEnd => exact .inl rfl
  | _ => exact .inl (by cases follower <;> rfl)

theorem plain_eq_text {n : Node} (h : n.closesChain = false) : n.child.plain = n.text false := by
  unfold Child.plain
  rw [Node.under_eq]
  have hcloses : n.edge.closesChain = false := h
  simp [hcloses]

theorem plain_of_text {n n' : Node} (hedge : n'.edge = n.edge)
    (htext : Shrinks (n.text false) (n'.text false)) : Shrinks n.child.plain n'.child.plain := by
  unfold Child.plain
  rw [Node.under_eq, Node.under_eq, hedge]
  exact .ite rfl (shrinks_parenthesised htext) htext

/-- Nodes that are followed by the same marks. -/
theorem of_text {n n' : Node} (hedge : n'.edge = n.edge) (hin : n'.containsIn → n.containsIn)
    (hempty : n.isEmptyStatement → n'.isEmptyStatement)
    (htext : ∀ inHead, Shrinks (n.text inHead) (n'.text inHead))
    (hmark : ∀ follower : Follower, follower.mark n' = follower.mark n) : Tightens n n' where
  edge := hedge
  containsIn := hin
  isEmpty := hempty
  text := htext
  followed follower := by
    rw [hmark]
    exact (plain_of_text hedge (htext false)).ahead _

/-- The text of a case with the mark before another one. -/
theorem compacted_switchCase (test : Option Node) (body : List Node) :
    compacted ((Node.child ⟨span, .switchCase test body⟩).plain ++
        Follower.case.mark ⟨span, .switchCase test body⟩) =
      compacted (caseTest (test.map Node.child) ++ mark .colon ++ row true none body) := by
  rw [plain_eq_text rfl, Node.text_eq, caseNeedsSemicolon_switchCase span test]
  unfold ofShape
  simp only [Shape.map, compacted_append, compacted_indented, statements,
    compacted_statementsAfter, List.append_assoc]
  rfl

theorem switchCase_of_children {test : Option (Node × Node)} {body : List (Node × Node)}
    (h : AllTighten (test.toList ++ body)) :
    Shrinks
      ((Node.child ⟨span, .switchCase (test.map Prod.fst) (body.map Prod.fst)⟩).plain ++
        Follower.case.mark ⟨span, .switchCase (test.map Prod.fst) (body.map Prod.fst)⟩)
      ((Node.child ⟨span', .switchCase (test.map Prod.snd) (body.map Prod.snd)⟩).plain ++
        Follower.case.mark ⟨span', .switchCase (test.map Prod.snd) (body.map Prod.snd)⟩) := by
  rw [← shrinks_compacted_iff, compacted_switchCase, compacted_switchCase, shrinks_compacted_iff,
    Option.map_map, Option.map_map]
  exact ((shrinks_caseTest h.left).ahead _).append (shrinks_row_all true h.right)

/-- A node over children that others can stand for. -/
theorem of_children (span span' : Source.Span) (h : AllTighten s.children) :
    Tightens ⟨span, s.map Prod.fst⟩ ⟨span', s.map Prod.snd⟩ where
  edge := Node.edge_congr fun p hp => (h p hp).edge
  containsIn := containsIn_of_children h
  isEmpty hempty := by cases s <;> exact hempty
  text inHead := by
    rw [text_first, text_second]
    exact shrinks_ofShape inHead h
  followed follower := by
    by_cases hlast : (lastStatement? s).isSome
    · have hfollowed := @shrinks_followed span span' false s h hlast follower
      rwa [← plain_eq_text (by cases s <;> first | rfl | cases hlast),
        ← plain_eq_text (by cases s <;> first | rfl | cases hlast)] at hfollowed
    · rw [Option.not_isSome_iff_eq_none] at hlast
      obtain hmark | ⟨rfl, test, body, rfl⟩ := mark_of_children hlast follower
      · rw [hmark]
        refine (plain_of_text (Node.edge_congr fun p hp => (h p hp).edge) ?_).ahead _
        rw [text_first, text_second]
        exact shrinks_ofShape false h
      · exact switchCase_of_children h

end Tightens

/-- What stands for a node still does when the node is rewritten from the leaves up. -/
theorem kept_tightens : Rewrite.Kept Tightens where
  refl := Tightens.refl
  trans := Tightens.trans
  congr := by
    rintro ⟨span, shape⟩ g h
    have hpairs : AllTighten (shape.map fun c => (c, g c)).children := by
      rw [Shape.children_map]
      exact fun p hp => by
        obtain ⟨c, hc, rfl⟩ := List.mem_map.1 hp
        exact h c hc
    have hnode := Tightens.of_children span span hpairs
    rw [Shape.map_map, Shape.map_map] at hnode
    exact (congrArg (Tightens · _) (congrArg (Node.mk span) (Shape.map_id shape))).mp hnode

end ScriptMin
