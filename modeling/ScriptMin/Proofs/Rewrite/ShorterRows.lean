import ScriptMin.Proofs.Layout.Congruence
import ScriptMin.Proofs.Rewrite.Kept

/-!
# Rows that are written in no more text

What a rule makes of statements in a row has to be written in no more text wherever the row stands:
behind another statement, before another case or at the end.
-/

namespace ScriptMin.Rewrite

open Layout Node Tightens

/-! ## The operator `in` -/

theorem containsIn_of_mem_children {n c : Node} (hc : c ∈ n.shape.children) (h : c.containsIn) :
    n.containsIn := by
  rw [Tightens.containsIn_eq, Bool.or_eq_true, List.any_eq_true]
  exact .inr ⟨c, hc, h⟩

theorem containsIn_iff {n : Node} (hn : n.operator? = none) :
    n.containsIn ↔ ∃ c ∈ n.shape.children, c.containsIn := by
  rw [Tightens.containsIn_eq, Bool.or_eq_true, List.any_eq_true]
  refine or_iff_right ?_
  obtain ⟨span, shape⟩ := n
  cases shape with
  | binary => cases hn
  | _ => exact Bool.false_ne_true

theorem containsIn_of_subset {n n' : Node} (hn : n'.operator? = none)
    (h : n'.shape.children ⊆ n.shape.children) (hin : n'.containsIn) : n.containsIn := by
  obtain ⟨c, hc, hin⟩ := (containsIn_iff hn).1 hin
  exact containsIn_of_mem_children (h hc) hin

/-! ## Statements that end in another one -/

section Bodies

variable {span span' : Source.Span} {s s' : Shape Node} {c c' : Node}

theorem edge_of_lastStatement? (h : (lastStatement? s).isSome) :
    Node.edge ⟨span, s⟩ = Node.edge ⟨⟨0, 0⟩, .emptyStatement⟩ := by
  cases s <;> first | exact absurd h Bool.false_ne_true | rfl

/-- A statement with another head, or another statement at its end. -/
theorem tightens_of_last (hc : lastStatement? s = some c) (hc' : lastStatement? s' = some c')
    {l l' : Layout} (hs : ∀ inHead, ofShape inHead (s.map Node.child) = l ++ c.child.body)
    (hs' : ∀ inHead, ofShape inHead (s'.map Node.child) = l' ++ c'.child.body) (hl : Shrinks l l')
    (hbody : ∀ follower : Follower, follower ≠ .case →
      Shrinks (c.child.body ++ follower.mark c) (c'.child.body ++ follower.mark c'))
    (hin : Node.containsIn ⟨span', s'⟩ → Node.containsIn ⟨span, s⟩) :
    Tightens ⟨span, s⟩ ⟨span', s'⟩ := by
  have hsome : (lastStatement? s).isSome := Option.isSome_of_eq_some hc
  have hsome' : (lastStatement? s').isSome := Option.isSome_of_eq_some hc'
  have hfollowed (inHead : Bool) (follower : Follower) :
      Shrinks (Node.text ⟨span, s⟩ inHead ++ follower.mark ⟨span, s⟩)
        (Node.text ⟨span', s'⟩ inHead ++ follower.mark ⟨span', s'⟩) := by
    rw [text_eq, text_eq, hs, hs']
    exact shrinks_last (endsIn_of_lastStatement? hc) (endsIn_of_lastStatement? hc') hl hbody
      follower
  refine ⟨?_, hin, ?_, fun inHead => ?_, fun follower => ?_⟩
  · exact (edge_of_lastStatement? hsome').trans (edge_of_lastStatement? hsome).symm
  · cases s <;> first | exact absurd hsome Bool.false_ne_true | exact nofun
  · simpa only [Follower.mark, List.append_nil] using hfollowed inHead .inside
  · have hcloses {span : Source.Span} {s : Shape Node} (h : (lastStatement? s).isSome) :
        Node.closesChain ⟨span, s⟩ = false :=
      congrArg Edge.closesChain (edge_of_lastStatement? h)
    rw [plain_eq_text (hcloses hsome), plain_eq_text (hcloses hsome')]
    exact hfollowed false follower

end Bodies

/-! ## Rows -/

/-- No text gets longer when `row'` stands for `row`. -/
structure RowTightens (row row' : List Node) : Prop where
  text : ∀ closed e, Shrinks (Layout.row closed e row) (Layout.row closed e row')
  containsIn : (∃ n ∈ row', n.containsIn) → ∃ n ∈ row, n.containsIn

theorem rowKept_tightens : RowKept RowTightens where
  refl row := ⟨fun _ _ => .refl _, id⟩
  trans h h' := ⟨fun closed e => (h.text closed e).trans (h'.text closed e),
    h.containsIn ∘ h'.containsIn⟩
  cons n row row' h := by
    refine ⟨fun closed e => ?_, ?_⟩
    · by_cases hempty : n.isEmptyStatement
      · rw [row_cons_of_isEmpty hempty, row_cons_of_isEmpty hempty]
        exact h.text closed e
      · rw [row_cons hempty, row_cons hempty]
        exact (h.text closed _).behind _
    · rw [List.exists_mem_cons_iff, List.exists_mem_cons_iff]
      exact Or.imp_right h.containsIn

/-- The same statements behind a row. -/
theorem shrinks_row_same (row : List Node) {closed : Bool} {e e' : Option Ending} {l l' : Layout}
    (hnext : Shrinks (l ++ between e) (l' ++ between e'))
    (hlast : Shrinks (l ++ atEnd closed e) (l' ++ atEnd closed e')) :
    Shrinks (l ++ Layout.row closed e row) (l' ++ Layout.row closed e' row) := by
  have hsame : AllTighten (row.map fun n => (n, n)) := by
    rintro p hp
    obtain ⟨n, -, rfl⟩ := List.mem_map.1 hp
    exact .refl n
  have h := shrinks_row hsame hnext hlast
  rwa [List.map_map, List.map_map, show Prod.fst ∘ (fun n : Node => (n, n)) = id from rfl,
    show Prod.snd ∘ (fun n : Node => (n, n)) = id from rfl, List.map_id] at h

/-- Two statements, of which the first one ends in a semicolon, joined to one. -/
theorem rowTightens_joined {a b joined : Node} (ha : ¬a.isEmptyStatement) (hb : ¬b.isEmptyStatement)
    (hjoined : ¬joined.isEmptyStatement) (hending : joined.ending = b.ending)
    (htext : Shrinks (a.child.plain ++ Follower.statement.mark a ++ b.child.plain)
      joined.child.plain)
    (hin : joined.containsIn → a.containsIn ∨ b.containsIn) (rest : List Node) :
    RowTightens (a :: b :: rest) (joined :: rest) where
  text closed e := by
    rw [row_cons ha, row_cons hb, row_cons hjoined, hending, between_some]
    have := (htext.behind (between e)).ahead (Layout.row closed (some b.ending) rest)
    simpa only [List.append_assoc] using this
  containsIn := by
    simp only [List.exists_mem_cons_iff]
    exact fun h => h.elim (fun h => (hin h).imp_right .inl) fun h => .inr (.inr h)

/-! ### Nodes with rows -/

section Nodes

variable {n : Node} {row row' : List Node}

theorem text_withStatements (h : statements? n = some row) (inHead : Bool) :
    ∃ before after, ∀ row', compacted ((withStatements n row').text inHead) =
      before ++ compacted (Layout.row false none row') ++ after := by
  obtain ⟨span, shape⟩ := n
  obtain rfl | rfl | ⟨test, rfl⟩ := statements?_eq_some h
  · exact ⟨_, _, fun row' => (congrArg compacted (text_eq _ _)).trans (compacted_block row')⟩
  · refine ⟨[], [], fun row' => (congrArg compacted (text_eq _ _)).trans ?_⟩
    rw [List.append_nil]
    exact compacted_statementsAfter none row'
  · refine ⟨compacted (caseTest (test.map Node.child) ++ mark .colon), [], fun row' =>
      (congrArg compacted (text_eq _ _)).trans ?_⟩
    simp only [withStatements, Node.withShape, Shape.map, ofShape, compacted_append,
      compacted_indented, statements, compacted_statementsAfter, List.append_nil]
    rfl

theorem children_withStatements (h : statements? n = some row) :
    ∃ before, ∀ row', (withStatements n row').shape.children = before ++ row' := by
  obtain ⟨span, shape⟩ := n
  obtain rfl | rfl | ⟨test, rfl⟩ := statements?_eq_some h
  · exact ⟨[], fun _ => rfl⟩
  · exact ⟨[], fun _ => rfl⟩
  · exact ⟨test.toList, fun _ => rfl⟩

theorem withStatements_self (h : statements? n = some row) : withStatements n row = n := by
  obtain ⟨span, shape⟩ := n
  obtain rfl | rfl | ⟨test, rfl⟩ := statements?_eq_some h <;> rfl

/-- What follows a node with a row. -/
theorem shrinks_withStatements_followed (h : statements? n = some row) (hr : RowTightens row row')
    (htext : Shrinks (n.text false) ((withStatements n row').text false)) (follower : Follower) :
    Shrinks (n.child.plain ++ follower.mark n)
      ((withStatements n row').child.plain ++ follower.mark (withStatements n row')) := by
  obtain ⟨span, shape⟩ := n
  obtain rfl | rfl | ⟨test, rfl⟩ := statements?_eq_some h
  case inr.inr =>
    cases follower with
    | case =>
      simp only [withStatements, Node.withShape]
      rw [← shrinks_compacted_iff, compacted_switchCase, compacted_switchCase,
        shrinks_compacted_iff]
      exact (hr.text true none).behind _
    | inside | statement | rowEnd =>
      rw [plain_eq_text rfl, plain_eq_text rfl]
      exact htext.ahead _
  all_goals
    rw [plain_eq_text rfl, plain_eq_text rfl]
    cases follower <;> exact htext.ahead _

theorem tightens_withStatements (h : statements? n = some row) (hr : RowTightens row row') :
    Tightens n (withStatements n row') := by
  have htext (inHead : Bool) : Shrinks (n.text inHead) ((withStatements n row').text inHead) := by
    obtain ⟨before, after, hrow⟩ := text_withStatements h inHead
    have hself := hrow row
    rw [withStatements_self h] at hself
    rw [← shrinks_compacted_iff, hrow row', hself]
    exact (shrinks_compacted_iff.2 (hr.text false none)).between before after
  refine ⟨?_, ?_, ?_, htext, shrinks_withStatements_followed h hr (htext false)⟩
  · obtain ⟨span, shape⟩ := n
    obtain rfl | rfl | ⟨test, rfl⟩ := statements?_eq_some h <;> rfl
  · obtain ⟨before, hchildren⟩ := children_withStatements h
    have hself := hchildren row
    rw [withStatements_self h] at hself
    have hoperator : (withStatements n row').operator? = none := by
      obtain ⟨span, shape⟩ := n
      obtain rfl | rfl | ⟨test, rfl⟩ := statements?_eq_some h <;> rfl
    rw [containsIn_iff hoperator, hchildren]
    rintro ⟨c, hc, hin⟩
    obtain hc | hc := List.mem_append.1 hc
    · exact containsIn_of_mem_children (hself ▸ List.mem_append_left _ hc) hin
    · obtain ⟨c, hc, hin⟩ := hr.containsIn ⟨c, hc, hin⟩
      exact containsIn_of_mem_children (hself ▸ List.mem_append_right _ hc) hin
  · obtain ⟨span, shape⟩ := n
    obtain rfl | rfl | ⟨test, rfl⟩ := statements?_eq_some h <;> exact id

theorem keeps_tightens_onStatements {rule : List Node → Option (List Node)}
    (h : ∀ row row', rule row = some row' → RowTightens row row') :
    Rule.Keeps (fun _ => onStatements rule) Tightens :=
  keeps_onStatements h fun _ _ _ => tightens_withStatements

end Nodes

end ScriptMin.Rewrite
