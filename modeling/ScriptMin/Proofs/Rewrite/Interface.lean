import Mathlib.Data.List.Flatten
import ScriptMin.Minify
import ScriptMin.Proofs.Grammar.Program
import ScriptMin.Proofs.Rewrite.WellFormed
import ScriptMin.Proofs.Tree.Interface

/-!
# Rewriting keeps the interface of a module

No rule makes a link or is applied to one, and only those for code that never runs leave any out.
What a link declares stays, since no rule is applied to a pattern or a declaration. The links at the
top of a module stay there if there are no others.
-/

namespace ScriptMin

open Node Rewrite Source

namespace Rewrite

/-! ## Lists that lose some elements -/

/-- The second list has the elements of the first in their order, all of them without `mayLose`. -/
structure Loses {α : Type} (mayLose : Bool) (xs ys : List α) : Prop where
  sublist : ys.Sublist xs
  eq : mayLose = false → ys = xs

namespace Loses

variable {α β : Type} {mayLose : Bool} {xs ys zs : List α}

theorem of_eq (h : ys = xs) : Loses mayLose xs ys := ⟨h ▸ .refl _, fun _ => h⟩

theorem refl (xs : List α) : Loses mayLose xs xs := .of_eq rfl

theorem trans (h : Loses mayLose xs ys) (h' : Loses mayLose ys zs) : Loses mayLose xs zs :=
  ⟨h'.sublist.trans h.sublist, fun hno => (h'.eq hno).trans (h.eq hno)⟩

theorem append {xs' ys' : List α} (h : Loses mayLose xs ys) (h' : Loses mayLose xs' ys') :
    Loses mayLose (xs ++ xs') (ys ++ ys') :=
  ⟨h.sublist.append h'.sublist, fun hno => by rw [h.eq hno, h'.eq hno]⟩

theorem flatMap {f g : β → List α} {l : List β} (h : ∀ x ∈ l, Loses mayLose (f x) (g x)) :
    Loses mayLose (l.flatMap f) (l.flatMap g) := by
  induction l with
  | nil => exact .refl []
  | cons x rest ih =>
    obtain ⟨hx, hrest⟩ := List.forall_mem_cons.1 h
    exact hx.append (ih hrest)

theorem eq_nil (h : Loses mayLose xs ys) (hxs : xs = []) : ys = [] :=
  List.sublist_nil.1 (hxs ▸ h.sublist)

end Loses

/-! ## The relation -/

/-- A node that declares what another one does, with links that it has. In a program without deep
links there are none afterwards. -/
structure KeepsLinks (mayLose : Bool) (n n' : Node) : Prop extends KeepsForm n n' where
  declared : ∀ role : Role, role.declares → role.accepts n.shape →
    n'.declaredNames = n.declaredNames
  links : Loses mayLose n.links n'.links
  below : n.linksBelow = [] → n'.linksBelow = []
  isProgram : (n.shape matches .program _) → (n'.shape matches .program _)
  deep : (n.shape matches .program _) → n.deepLinks = [] → n'.deepLinks = []

variable {context : Context} {mayLose : Bool} {n n' : Node}

namespace KeepsLinks

theorem refl (hn : n.WellFormed) : KeepsLinks mayLose n n :=
  ⟨.refl hn, fun _ _ _ => rfl, .refl _, id, id, fun _ => id⟩

theorem trans {a b c : Node} (h : KeepsLinks mayLose a b) (h' : KeepsLinks mayLose b c) :
    KeepsLinks mayLose a c where
  toKeepsForm := h.toKeepsForm.trans h'.toKeepsForm
  declared role hrole ha :=
    (h'.declared role hrole (h.accepted role ha)).trans (h.declared role hrole ha)
  links := h.links.trans h'.links
  below := h'.below ∘ h.below
  isProgram := h'.isProgram ∘ h.isProgram
  deep hprogram := h'.deep (h.isProgram hprogram) ∘ h.deep hprogram

/-- An expression declares and links nothing. -/
theorem of_expression (hform : KeepsForm n n') (hn : n.shape.isExpression) :
    KeepsLinks mayLose n n' := by
  have hn' : n'.shape.isExpression := hform.accepted .expression hn
  have hlinks {m : Node} (hm : m.shape.isExpression) :
      m.link? = none ∧ m.linksBelow = [] ∧ ¬ (m.shape matches .program _) := by
    obtain ⟨span, shape⟩ := m
    cases shape <;> first | (cases hm; done) | exact ⟨rfl, rfl, nofun⟩
  obtain ⟨hlink, hbelow, hprogram⟩ := hlinks hn
  obtain ⟨hlink', hbelow', -⟩ := hlinks hn'
  refine ⟨hform, fun _ _ _ => ?_, .of_eq ?_, fun _ => hbelow', fun h => absurd h hprogram,
    fun h => absurd h hprogram⟩
  · rw [declaredNames_eq_nil hn, declaredNames_eq_nil hn']
  · rw [links_eq_linksBelow hlink, links_eq_linksBelow hlink', hbelow, hbelow']

/-- Neither can be declared, linked to or be a whole program. -/
theorem of_statement (hform : KeepsForm n n') (hn : n.shape.mayDeclare = false)
    (hlink : n.link? = none) (hprogram : ¬ (n.shape matches .program _))
    (hlinks : Loses mayLose n.links n'.links) : KeepsLinks mayLose n n' where
  toKeepsForm := hform
  declared _ hrole haccepts := by
    have hmay := Role.mayDeclare_of_accepts hrole haccepts
    rw [hn] at hmay
    cases hmay
  links := hlinks
  below hbelow := by
    rw [links_eq_linksBelow hlink] at hlinks
    exact linksBelow_eq_nil (hlinks.eq_nil hbelow)
  isProgram h := absurd h hprogram
  deep h := absurd h hprogram

section Congr

variable {g : Node → Node} (hn : n.WellFormed)
  (h : ∀ c ∈ n.shape.children, KeepsLinks mayLose c (g c))

include hn h

theorem declared_congr {role : Role} {c : Node} (hrole : role.declares)
    (hc : (role, c) ∈ n.shape.places) : (g c).declaredNames = c.declaredNames :=
  (h c (Shape.mem_children_of_mem_places hc)).declared role hrole (hn.fits hc).accepted

theorem declaredNames_congr :
    (n.withShape (n.shape.map g)).declaredNames = n.declaredNames := by
  have hname : (n.shape.map g).declaredName? = n.shape.declaredName? := by
    obtain ⟨span, shape⟩ := n
    cases shape <;> rfl
  rw [declaredNames_eq, declaredNames_eq n]
  simp only [withShape, hname, Shape.declaring_map, List.flatMap_map]
  congr 1
  refine List.flatMap_congr fun c hc => ?_
  obtain ⟨role, hrole, hplace⟩ := Shape.exists_role_of_mem_declaring hc
  exact declared_congr hn h hrole hplace

theorem link?_congr : (n.withShape (n.shape.map g)).link? = n.link? := by
  have hmap (hplaces : ∀ p ∈ n.shape.places, p.1.declares) :
      (n.shape.map g).map declaredNames = n.shape.map declaredNames := by
    rw [Shape.map_map]
    refine Shape.map_congr fun c hc => ?_
    obtain ⟨role, hplace⟩ := Shape.exists_mem_places hc
    exact declared_congr hn h (hplaces _ hplace) hplace
  obtain ⟨span, shape⟩ := n
  cases shape
  case importDeclaration | exportDeclaration | exportDefault | exportList =>
    exact congrArg some (hmap fun p => Shape.declares_of_mem_places rfl)
  all_goals rfl

theorem congr : KeepsLinks mayLose n (n.withShape (n.shape.map g)) := by
  have hbelow : Loses mayLose n.linksBelow (n.withShape (n.shape.map g)).linksBelow := by
    simp only [linksBelow, withShape, Shape.statements_map, List.flatMap_map]
    exact .flatMap fun c hc => (h c (Shape.mem_children_of_mem_statements hc)).links
  refine ⟨.map hn fun c hc => (h c hc).toKeepsForm, fun _ _ _ => declaredNames_congr hn h, ?_,
    hbelow.eq_nil, ?_, fun _ hdeep => ?_⟩
  · rw [links_eq n, links_eq (n.withShape _), link?_congr hn h]
    exact (Loses.refl _).append hbelow
  · obtain ⟨span, shape⟩ := n
    cases shape <;> exact id
  · simp only [deepLinks, withShape, Shape.statements_map, List.flatMap_map] at hdeep ⊢
    refine List.flatMap_eq_nil_iff.2 fun c hc => ?_
    have hbelow := List.flatMap_eq_nil_iff.1 hdeep c hc
    exact (h c (Shape.mem_children_of_mem_statements hc)).below hbelow

end Congr

end KeepsLinks

theorem kept_keepsLinks : Kept fun n n' => n.WellFormed → KeepsLinks mayLose n n' where
  refl _ := .refl
  trans h h' ha := (h ha).trans (h' (h ha).wellFormed)
  congr _ _ h hn := .congr hn fun c hc => h c hc (hn.child hc)

/-! ## Rules on single statements -/

theorem links_if (span : Span) (test consequent : Node) (alternate : Option Node) :
    links ⟨span, .ifStatement test consequent alternate⟩ =
      consequent.links ++ alternate.toList.flatMap links := links_eq_linksBelow rfl

section Rules

variable (hform : KeepsForm n n')

include hform

theorem keepsLinks_dropDebugger (h : dropDebugger context n = some n') :
    KeepsLinks mayLose n n' := by
  obtain ⟨span, rfl, rfl⟩ := dropDebugger_eq_some h
  exact .of_statement hform rfl rfl nofun (.refl _)

theorem keepsLinks_dropPure (h : dropPure context n = some n') : KeepsLinks mayLose n n' := by
  obtain ⟨span, elements, kept, rfl, -⟩ | ⟨span, expression, rfl, hgives⟩ := dropPure_eq_some h
  · exact .of_expression hform rfl
  · refine .of_statement hform rfl rfl nofun (.of_eq ?_)
    obtain rfl | ⟨span', elements, rfl, -, rfl⟩ := hgives
    · rfl
    · unfold statementKept
      split <;> rfl

theorem keepsLinks_shortenKey (h : shortenKey context n = some n') : KeepsLinks mayLose n n' := by
  obtain ⟨span, raw, name, value, -, rfl, rfl⟩ := shortenKey_eq_some h
  exact .of_statement hform rfl rfl nofun (.refl _)

/-- The branch that a constant test leaves out takes its links with it. -/
theorem keepsLinks_dropConstantBranch (hmay : mayLose = true)
    (h : dropConstantBranch context n = some n') : KeepsLinks mayLose n n' := by
  obtain ⟨span, test, consequent, alternate, rfl, hgives⟩ |
    ⟨span, test, consequent, alternate, rfl, -⟩ := dropConstantBranch_eq_some h
  · have hsublist : n'.links.Sublist (consequent.links ++ alternate.toList.flatMap links) := by
      obtain ⟨-, rfl⟩ | ⟨-, rfl⟩ := hgives
      · exact List.sublist_append_left _ _
      · cases alternate with
        | none => exact List.nil_sublist _
        | some other => simp
    rw [← links_if span test] at hsublist
    exact .of_statement hform rfl rfl nofun ⟨hsublist, fun hno => by simp [hmay] at hno⟩
  · exact .of_expression hform rfl

theorem keepsLinks_loopForever (h : loopForever context n = some n') :
    KeepsLinks mayLose n n' := by
  obtain ⟨span, condition, body, rfl, -, rfl⟩ | ⟨span, init, condition, post, body, rfl, -, rfl⟩ :=
    loopForever_eq_some h
  · exact .of_statement hform rfl rfl nofun (.refl _)
  · exact .of_statement hform rfl rfl nofun (.of_eq (by cases init <;> rfl))

end Rules

/-! ## Braces and branches -/

theorem links_braces (span : Span) (statement : Node) :
    links ⟨span, .block [statement]⟩ = statement.links := by
  rw [links_eq_linksBelow rfl]
  exact List.flatMap_singleton _ _

theorem links_unwrapped {beforeElse : Bool} {statement : Node}
    (h : unwrapped? beforeElse n = some statement) : n.links = statement.links := by
  obtain ⟨span, rfl⟩ := unwrapped?_eq_some h
  exact links_braces span statement

theorem links_unwrapped_getD (beforeElse : Bool) (n : Node) :
    ((unwrapped? beforeElse n).getD n).links = n.links := by
  cases h : unwrapped? beforeElse n with
  | none => rfl
  | some statement => exact (links_unwrapped h).symm

theorem keepsLinks_unwrapBlocks (hform : KeepsForm n n') (h : unwrapBlocks context n = some n') :
    KeepsLinks mayLose n n' := by
  obtain ⟨span, shape⟩ := n
  obtain ⟨shape', hshape, rfl⟩ := Option.map_eq_some_iff.1 h
  cases shape <;> simp only [bodyUnwrapped?, reduceCtorEq, Option.map_eq_some_iff] at hshape
  case ifStatement test consequent alternate =>
    obtain ⟨-, hshape⟩ := Option.ite_none_right_eq_some.1 hshape
    cases hshape
    refine .of_statement hform rfl rfl Bool.false_ne_true (.of_eq ?_)
    rw [withShape, links_if, links_if, links_unwrapped_getD]
    cases alternate with
    | none => rfl
    | some other =>
      have hother := links_unwrapped_getD false other
      cases h : unwrapped? false other <;> simp_all
  all_goals
    obtain ⟨statement, hstatement, rfl⟩ := hshape
    refine .of_statement hform rfl rfl Bool.false_ne_true (.of_eq ?_)
    rw [links_eq_linksBelow rfl, links_eq_linksBelow rfl]
    simp [linksBelow, withShape, Shape.statements, links_unwrapped hstatement]

theorem links_eq_nil_of_doesNothing (h : doesNothing n) : n.links = [] := by
  refine doesNothing_induction h (fun span => rfl) fun span body ih => ?_
  rw [links_eq_linksBelow rfl]
  exact List.flatMap_eq_nil_iff.2 ih

theorem links_eq_nil_of_singleExpression {value : Node} (h : singleExpression? n = some value) :
    n.links = [] :=
  singleExpression_induction (fun span statement ih => (links_braces span statement).trans ih) h
    fun _ => rfl

theorem links_eq_nil_of_singleReturn {value : Node} (h : singleReturn? n = some value) :
    n.links = [] :=
  singleReturn_induction (fun span statement ih => (links_braces span statement).trans ih) h
    fun _ => rfl

/-- The branches of an `if` that is an expression have no links. -/
theorem links_branches_eq_nil {test consequent value : Node} {alternate : Option Node}
    (h : ifExpression? test consequent alternate = some value) :
    consequent.links ++ alternate.toList.flatMap links = [] := by
  obtain ⟨rfl, hnothing, -⟩ | ⟨expression, rfl, hexpression, -⟩ |
    ⟨other, expression, rfl, hnothing, hexpression, -⟩ |
    ⟨other, first, second, rfl, hfirst, hsecond, -⟩ := ifExpression?_eq_some h
  · simp [links_eq_nil_of_doesNothing hnothing]
  · simp [links_eq_nil_of_singleExpression hexpression]
  · simp [links_eq_nil_of_doesNothing hnothing, links_eq_nil_of_singleExpression hexpression]
  · simp [links_eq_nil_of_singleExpression hfirst, links_eq_nil_of_singleExpression hsecond]

theorem keepsLinks_ifToExpression (hform : KeepsForm n n')
    (h : ifToExpression context n = some n') : KeepsLinks mayLose n n' := by
  obtain ⟨span, test, consequent, alternate, rfl, hgives⟩ := ifToExpression_eq_some h
  obtain ⟨other, rfl, hnothing, rfl⟩ | ⟨value, hvalue, rfl⟩ := hgives
  · refine .of_statement hform rfl rfl nofun (.of_eq ?_)
    rw [links_if, links_if]
    simp [links_eq_nil_of_doesNothing hnothing]
  · refine .of_statement hform rfl rfl nofun (.of_eq ?_)
    rw [links_if, links_branches_eq_nil hvalue]
    rfl

/-! ## Statements in a row -/

/-- A row with links that another one has. If none stand below those in it, none do afterwards. -/
structure RowKeepsLinks (mayLose : Bool) (row row' : List Node) : Prop where
  links : Loses mayLose (row.flatMap links) (row'.flatMap links)
  below : row.flatMap linksBelow = [] → row'.flatMap linksBelow = []

theorem rowKept_rowKeepsLinks : RowKept (RowKeepsLinks mayLose) where
  refl row := ⟨.refl _, id⟩
  trans h h' := ⟨h.links.trans h'.links, h'.below ∘ h.below⟩
  cons n _ _ h := by
    refine ⟨(Loses.refl n.links).append h.links, fun hbelow => ?_⟩
    simp only [List.flatMap_cons, List.append_eq_nil_iff] at hbelow ⊢
    exact hbelow.imp_right h.below

theorem links_row {row : List Node} (hn : statements? n = some row) (row' : List Node) :
    n.links = row.flatMap links ∧ (withStatements n row').links = row'.flatMap links := by
  obtain ⟨span, shape⟩ := n
  obtain hshape | hshape | ⟨test, hshape⟩ := statements?_eq_some hn <;> cases hshape
  all_goals exact ⟨links_eq_linksBelow rfl, links_eq_linksBelow rfl⟩

theorem keepsLinks_withStatements {row row' : List Node}
    (hform : KeepsForm n (withStatements n row')) (hn : statements? n = some row)
    (h : RowKeepsLinks mayLose row row') :
    KeepsLinks mayLose n (withStatements n row') := by
  have hlinks : Loses mayLose n.links (withStatements n row').links := by
    obtain ⟨hbefore, hafter⟩ := links_row hn row'
    rw [hbefore, hafter]
    exact h.links
  obtain ⟨span, shape⟩ := n
  obtain hshape | hshape | ⟨test, hshape⟩ := statements?_eq_some hn <;> cases hshape
  case inl | inr.inr => exact .of_statement hform rfl rfl nofun hlinks
  case inr.inl =>
    refine ⟨hform, fun role hrole haccepts => ?_, hlinks, h.links.eq_nil, fun _ => rfl,
      fun _ => h.below⟩
    -- A program has no place in another node.
    cases Role.mayDeclare_of_accepts hrole haccepts

/-- A rule on rows, of which it is known already that it keeps trees well formed. -/
theorem keepsLinks_onStatements {rule : List Node → Option (List Node)}
    (hrule : ∀ row row', rule row = some row' → RowKeepsLinks mayLose row row')
    (hform : KeepsForm n n') (h : onStatements rule n = some n') : KeepsLinks mayLose n n' := by
  have hkeeps : Rule.Keeps (fun _ => onStatements rule)
      fun n n' => KeepsForm n n' → KeepsLinks mayLose n n' :=
    keeps_onStatements hrule fun _ _ _ hn hrow hform => keepsLinks_withStatements hform hn hrow
  exact hkeeps ⟨false⟩ n n' h hform

theorem rowKeepsLinks_flattened (n : Node) (rest : List Node) :
    RowKeepsLinks mayLose (n :: rest) ((flattened? n).getD [n] ++ rest) := by
  cases h : flattened? n with
  | none => exact rowKept_rowKeepsLinks.refl _
  | some row =>
    obtain ⟨span, shape⟩ := n
    obtain ⟨rfl, rfl⟩ | rfl := flattened?_eq_some h
    · exact ⟨.refl _, id⟩
    · have hlinks : links ⟨span, .block row⟩ = row.flatMap links := links_eq_linksBelow rfl
      refine ⟨.of_eq (by simp [hlinks]), fun hbelow => ?_⟩
      simp only [List.flatMap_cons, List.append_eq_nil_iff] at hbelow
      -- The statements of the block have no links at all.
      have hrow : ∀ s ∈ row, s.links = [] := List.flatMap_eq_nil_iff.1 hbelow.1
      simp only [Option.getD_some, List.flatMap_append, hbelow.2, List.append_nil]
      exact List.flatMap_eq_nil_iff.2 fun s hs => linksBelow_eq_nil (hrow s hs)

theorem keepsLinks_flattenBlocks (hform : KeepsForm n n')
    (h : flattenBlocks context n = some n') : KeepsLinks mayLose n n' := by
  refine keepsLinks_onStatements (fun row row' hrow => ?_) hform h
  obtain ⟨-, hrow⟩ := Option.ite_none_right_eq_some.1 hrow
  cases hrow
  exact rowKept_rowKeepsLinks.flatten rowKeepsLinks_flattened row

/-- A statement with the links of two others, where none of them is a link. -/
structure JoinsLinks (a b joined : Node) : Prop where
  links : joined.links = a.links ++ b.links
  first : a.link? = none
  second : b.link? = none
  joined : joined.link? = none

theorem JoinsLinks.row {a b joined : Node} (h : JoinsLinks a b joined) (rest : List Node) :
    RowKeepsLinks mayLose (a :: b :: rest) (joined :: rest) := by
  have hlinks := h.links
  refine ⟨.of_eq (by simp [hlinks]), fun hbelow => ?_⟩
  rw [links_eq_linksBelow h.first, links_eq_linksBelow h.second, links_eq_linksBelow h.joined]
    at hlinks
  simpa [hlinks] using hbelow

theorem links_variables (span span' : Span) (kind : VariableKind)
    (declarators : List (Declarator Node)) :
    links ⟨span, .variableStatement ⟨span', .variableDeclaration kind declarators⟩⟩ = [] := by
  rw [links_eq_linksBelow rfl]
  exact (List.flatMap_singleton _ _).trans (links_eq_linksBelow rfl)

theorem joinsLinks_joinedVariables {a b joined : Node} (h : joinedVariables? a b = some joined) :
    JoinsLinks a b joined := by
  obtain ⟨span, span', kind, first, second, rfl, ⟨spanB, spanB', rfl⟩, rfl⟩ :=
    joinedVariables?_eq_some h
  refine ⟨?_, rfl, rfl, rfl⟩
  simp only [links_variables]
  rfl

theorem keepsLinks_joinVariables (hform : KeepsForm n n')
    (h : joinVariables context n = some n') : KeepsLinks mayLose n n' :=
  keepsLinks_onStatements (fun _ _ => rowKept_rowKeepsLinks.onNeighbours fun _ _ _ h =>
    (joinsLinks_joinedVariables h).row) hform h

theorem joinsLinks_joinedReturn {a b joined : Node} (h : joinedReturn? a b = some joined) :
    JoinsLinks a b joined := by
  obtain ⟨span, test, consequent, value, alternate, rfl, hvalue, ⟨spanB, rfl⟩, rfl⟩ :=
    joinedReturn?_eq_some h
  refine ⟨?_, rfl, rfl, rfl⟩
  rw [links_if, links_eq_nil_of_singleReturn hvalue]
  rfl

theorem keepsLinks_returnChoice (hform : KeepsForm n n') (h : returnChoice context n = some n') :
    KeepsLinks mayLose n n' := by
  obtain ⟨span, test, consequent, alternate, first, second, rfl, hfirst, hsecond, rfl⟩ | h :=
    returnChoice_eq_some h
  · refine .of_statement hform rfl rfl nofun (.of_eq ?_)
    rw [links_if, links_eq_nil_of_singleReturn hfirst, Option.toList_some,
      List.flatMap_singleton, links_eq_nil_of_singleReturn hsecond]
    rfl
  · exact keepsLinks_onStatements (fun _ _ => rowKept_rowKeepsLinks.joinReturn fun _ _ _ h =>
      (joinsLinks_joinedReturn h).row) hform h

theorem joinsLinks_joinedExpression {a b joined : Node} (h : joinedExpression? a b = some joined) :
    JoinsLinks a b joined := by
  obtain ⟨span, expression, rfl, hb⟩ := joinedExpression?_eq_some h
  obtain ⟨spanB, shape⟩ := b
  obtain ⟨spanJ, shape'⟩ := joined
  obtain ⟨-, hb⟩ := evaluatingFirst?_eq_some hb
  cases hb
  case ifStatement => exact ⟨by rw [links_if, links_if]; rfl, rfl, rfl, rfl⟩
  all_goals exact ⟨rfl, rfl, rfl, rfl⟩

theorem keepsLinks_joinExpressions (hform : KeepsForm n n')
    (h : joinExpressions context n = some n') : KeepsLinks mayLose n n' :=
  keepsLinks_onStatements (fun _ _ => rowKept_rowKeepsLinks.onNeighbours fun _ _ _ h =>
    (joinsLinks_joinedExpression h).row) hform h

/-! ### Code that is never reached -/

theorem rowKeepsLinks_keptAfter (jump : Node) (unreached : List Node) :
    RowKeepsLinks true unreached (keptAfter jump unreached) := by
  have hbare : ∀ names : List String,
      ∀ n ∈ (if names.isEmpty then [] else [bareVariables jump names]), n.links = [] := by
    intro names n hn
    split at hn
    case isTrue => cases hn
    case isFalse =>
      rw [List.mem_singleton.1 hn]
      exact links_variables _ _ _ _
  unfold keptAfter
  refine ⟨⟨?_, nofun⟩, fun hbelow => ?_⟩
  · rw [List.flatMap_append, List.flatMap_eq_nil_iff.2 (hbare _), List.nil_append]
    exact List.Sublist.flatMap List.filter_sublist links
  · have hbelow := List.flatMap_eq_nil_iff.1 hbelow
    refine List.flatMap_eq_nil_iff.2 fun n hn => ?_
    obtain hn | hn := List.mem_append.1 hn
    · exact linksBelow_eq_nil (hbare _ n hn)
    · exact hbelow n (List.mem_of_mem_filter hn)

theorem rowKeepsLinks_reached {row row' : List Node} (hmay : mayLose = true)
    (h : reached? row = some row') : RowKeepsLinks mayLose row row' := by
  obtain ⟨before, jump, unreached, rfl, -, -, rfl⟩ := reached?_eq_some h
  cases hmay
  exact rowKept_rowKeepsLinks.append before
    (rowKept_rowKeepsLinks.cons jump (rowKeepsLinks_keptAfter jump unreached))

theorem keepsLinks_dropUnreached (hmay : mayLose = true) (hform : KeepsForm n n')
    (h : dropUnreached context n = some n') : KeepsLinks mayLose n n' :=
  keepsLinks_onStatements (fun _ _ => rowKeepsLinks_reached hmay) hform h

/-! ## Whole programs -/

/-- Each rule keeps links, but for those that leave out code which never runs. -/
theorem keepsLinks_of_mem_rules {o : RewriteOptions} {rule : Rule} (hrule : rule ∈ o.rules)
    (hn : n.WellFormed) (h : rule context n = some n') : KeepsLinks o.deadCode n n' := by
  have hform := keepsForm_of_mem_rules hrule hn h
  obtain ⟨-, rfl⟩ | ⟨hdead, rfl⟩ | ⟨hdead, rfl⟩ | ⟨-, rfl⟩ | ⟨-, rfl⟩ | ⟨-, rfl⟩ | ⟨-, rfl⟩ |
    ⟨-, rfl⟩ | ⟨-, rfl⟩ | ⟨-, rfl⟩ | ⟨-, rfl⟩ | ⟨-, rfl⟩ | ⟨-, rfl⟩ | ⟨-, rfl⟩ | ⟨-, rfl⟩ |
    ⟨-, rfl⟩ := mem_rules hrule
  · exact keepsLinks_dropDebugger hform h
  · exact keepsLinks_dropUnreached hdead hform h
  · exact keepsLinks_dropConstantBranch hform hdead h
  · obtain ⟨span, operand, -, rfl, -⟩ := shortenYield_eq_some h
    exact .of_expression hform rfl
  · obtain ⟨span, -, ⟨name, rfl⟩ | ⟨operator, operand, rfl⟩⟩ := shortenUndefined_eq_some h
    all_goals exact .of_expression hform rfl
  · obtain ⟨-, -, -, ⟨span, operator, left, right, rfl⟩ | ⟨span, operator, operand, rfl⟩⟩ :=
      foldConstants_eq_some h
    all_goals exact .of_expression hform rfl
  · exact keepsLinks_dropPure hform h
  · obtain ⟨span, isOptional, parenthesised, object, span', name, rfl, -⟩ :=
      shortenAccess_eq_some h
    exact .of_expression hform rfl
  · exact keepsLinks_shortenKey hform h
  · exact keepsLinks_flattenBlocks hform h
  · exact keepsLinks_unwrapBlocks hform h
  · exact keepsLinks_joinVariables hform h
  · exact keepsLinks_loopForever hform h
  · exact keepsLinks_returnChoice hform h
  · exact keepsLinks_ifToExpression hform h
  · exact keepsLinks_joinExpressions hform h

end Rewrite

/-- What rewriting keeps of the links in a program that was read. -/
theorem Program.keepsLinks_rewrite (o : RewriteOptions) {mode : Mode} {source : List Char}
    {p : Program} (h : parse mode source = .ok p) :
    KeepsLinks o.deadCode p.root (p.rewrite o).root :=
  kept_keepsLinks.passes
    (fun _ hrule _ _ _ happlies hn => keepsLinks_of_mem_rules hrule hn happlies)
    o.passLimit p.root (wellFormed_of_parse h)

/-- A rewritten module imports and exports what the module does, in the same order and under the
same names, as far as it is not left out with code that never runs. Where all imports and exports
stand at the top of the module, as the language wants them, they stay there. -/
theorem Program.interface_rewrite (o : RewriteOptions) {mode : Mode} {source : List Char}
    {p : Program} (h : parse mode source = .ok p) (hdeep : p.root.deepLinks = []) :
    (p.rewrite o).root.deepLinks = [] ∧
      (p.rewrite o).root.interface.Sublist p.root.interface ∧
      (o.deadCode = false → (p.rewrite o).root.interface = p.root.interface) := by
  have hkeeps := Program.keepsLinks_rewrite o h
  have hprogram : (p.root.shape matches .program _) := by
    obtain ⟨body, hbody⟩ := shape_of_parse h
    rw [hbody]
  have hdeep' := hkeeps.deep hprogram hdeep
  have hlinks := hkeeps.links
  rw [links_program hprogram hdeep, links_program (hkeeps.isProgram hprogram) hdeep'] at hlinks
  exact ⟨hdeep', hlinks.sublist, hlinks.eq⟩

/-- A module with a default import, a renamed one and exports of two kinds, in which no code is left
out. -/
theorem interface_rewrite_exports :
    ∃ p, Program.parse .module
        "import a,{b as c}from\"d\";{a()}export{c as e};export default function g(){}".toList =
          .ok p ∧
      p.root.deepLinks = [] ∧ p.root.interface.length = 3 ∧
      (p.rewrite { RewriteOptions.all with deadCode := false }).root.interface =
        p.root.interface := by
  have hrun : (Program.parse .module
      "import a,{b as c}from\"d\";{a()}export{c as e};export default function g(){}".toList
      ).toOption.any (fun p => p.root.deepLinks.isEmpty && p.root.interface.length == 3) =
        true := by decide +kernel
  obtain ⟨p, hparse, hcheck⟩ := Program.exists_of_parse _ hrun
  obtain ⟨hdeep, hlength⟩ := Bool.and_eq_true_iff.1 hcheck
  have hdeep := List.isEmpty_iff.1 hdeep
  exact ⟨p, hparse, hdeep, beq_iff_eq.1 hlength,
    (Program.interface_rewrite _ hparse hdeep).2.2 rfl⟩

/-- An import after a jump at the top of a module is lost with the code that never runs. -/
example :
    (Program.parse .module "throw a;import\"b\"".toList).toOption.map (fun p =>
      (p.rewrite { RewriteOptions.none with deadCode := true }).print .compact) =
    some "throw a".toList := by decide +kernel

/-- An export in a block comes to the top with the rest of the block. -/
example :
    (Program.parse .module "{export{c}}".toList).toOption.map (fun p =>
      (p.rewrite { RewriteOptions.none with blocks := true }).print .compact) =
    some "export{c}".toList := by decide +kernel

end ScriptMin
