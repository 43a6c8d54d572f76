import ScriptMin.Proofs.Setting.Basic

/-!
# Settings with more labels of loops

Braces end a row of labels: in `a: { for (;;) b() }` the loop has no label, and without the braces
it has one. What is legal in a setting stays legal where more labels stand directly before it or
belong to the loops around it.
-/

namespace ScriptMin

variable {α : Type} {s s' : Setting}

/-- The setting `s'` is `s`, but perhaps with more labels directly before it or of the loops around
it. -/
inductive Setting.Widens : Setting → Setting → Prop where
  | labels (s : Setting) {pending loopLabels : List String} (hpending : s.pending ⊆ pending)
      (hloops : s.loopLabels ⊆ loopLabels) :
      Widens s { s with pending := pending, loopLabels := loopLabels }

namespace Setting.Widens

theorem refl (s : Setting) : s.Widens s :=
  .labels s (List.Subset.refl _) (List.Subset.refl _)

/-- The labels before a statement count, or they do not. -/
theorem of_inner (s : Setting) : s.inner.Widens s :=
  .labels s.inner (List.nil_subset _) (List.Subset.refl _)

theorem inner (h : s.Widens s') : s.inner.Widens s'.inner := by
  cases h with
  | labels hpending hloops => exact .labels s.inner (List.Subset.refl _) hloops

theorem loopBody (h : s.Widens s') : s.loopBody.Widens s'.loopBody := by
  cases h with
  | labels hpending hloops =>
    refine .labels s.loopBody (List.Subset.refl _) (List.append_subset.2 ⟨?_, ?_⟩)
    · exact List.subset_append_of_subset_left _ hpending
    · exact List.subset_append_of_subset_right _ hloops

theorem switchBody (h : s.Widens s') : s.switchBody.Widens s'.switchBody := by
  cases h with
  | labels hpending hloops => exact .labels s.switchBody (List.Subset.refl _) hloops

theorem labelled (h : s.Widens s') (label : String) :
    (s.labelled label).Widens (s'.labelled label) := by
  cases h with
  | labels hpending hloops =>
    exact .labels (s.labelled label) (List.cons_subset_cons label hpending) hloops

theorem ofArrow (h : s.Widens s') (isAsync : Bool) : s.ofArrow isAsync = s'.ofArrow isAsync := by
  cases h with
  | labels => rfl

/-- More labels allow more jumps, and the functions around are the same. -/
theorem allows (h : s.Widens s') {shape : Shape α} (hs : s.Allows shape) : s'.Allows shape := by
  cases h with
  | labels hpending hloops =>
    cases shape
    case continueStatement label =>
      cases label with
      | none => exact hs
      | some label => exact ⟨hloops hs.1, trivial⟩
    case breakStatement label => cases label <;> exact hs
    all_goals exact hs

end Setting.Widens

/-! ## Trees -/

/-- Each of the nodes `ps'` is among `ps`, in a setting with no more labels. -/
def Setting.Covers (ps ps' : List (Setting × α)) : Prop :=
  ∀ p' ∈ ps', ∃ s, (s, p'.2) ∈ ps ∧ s.Widens p'.1

namespace Setting.Covers

variable {ps ps' qs qs' : List (Setting × α)}

theorem refl (ps : List (Setting × α)) : Covers ps ps :=
  fun p hp => ⟨p.1, hp, .refl p.1⟩

theorem each (h : s.Widens s') (cs : List α) : Covers (s.each cs) (s'.each cs) := by
  intro p hp
  obtain ⟨c, hc, rfl⟩ := List.mem_map.1 hp
  exact ⟨s, List.mem_map_of_mem hc, h⟩

theorem single (h : s.Widens s') (c : α) : Covers [(s, c)] [(s', c)] :=
  each h [c]

theorem append (h : Covers ps ps') (h' : Covers qs qs') : Covers (ps ++ qs) (ps' ++ qs') := by
  intro p hp
  obtain hp | hp := List.mem_append.1 hp
  · obtain ⟨s, hmem, hs⟩ := h p hp
    exact ⟨s, List.mem_append_left _ hmem, hs⟩
  · obtain ⟨s, hmem, hs⟩ := h' p hp
    exact ⟨s, List.mem_append_right _ hmem, hs⟩

theorem flatMap {β : Type} {f f' : β → List (Setting × α)} (h : ∀ x, Covers (f x) (f' x))
    (xs : List β) : Covers (xs.flatMap f) (xs.flatMap f') := by
  intro p hp
  obtain ⟨x, hx, hp⟩ := List.mem_flatMap.1 hp
  obtain ⟨s, hmem, hs⟩ := h x p hp
  exact ⟨s, List.mem_flatMap.2 ⟨x, hx, hmem⟩, hs⟩

end Setting.Covers

open Setting

theorem ClassMember.covers_around (h : s.Widens s') (m : ClassMember α) :
    Covers (m.around s) (m.around s') :=
  (Covers.each h _).append (.refl _)

theorem ObjectMember.covers_around (h : s.Widens s') (m : ObjectMember α) :
    Covers (m.around s) (m.around s') := by
  cases m with
  | valued key value =>
    refine (Covers.each h _).append ?_
    cases value with
    | property initializer => exact .each h _
    | getter | method | setter => exact .refl _
  | shorthand name => exact .refl _
  | spread value => exact .single h value

/-- The children of a node have more labels where the node has. -/
theorem Shape.covers_around (h : s.Widens s') (shape : Shape α) :
    Covers (shape.around s) (shape.around s') := by
  by_cases hplain : shape.isPlain
  · rw [around_plain hplain, around_plain hplain]
    exact .each h.inner _
  · cases shape <;> first | exact absurd rfl hplain | skip
    case functionDeclaration | functionExpression => exact (Covers.each h.inner _).append (.refl _)
    case arrowFunction isAsync parameters body =>
      rw [around, around, h.ofArrow]
      exact .refl _
    case classDeclaration | classExpression =>
      exact ((Covers.each h.inner _).append (.each h.inner _)).append
        (.flatMap (ClassMember.covers_around h.inner) _)
    case objectMember content => exact content.covers_around h.inner
    case forLoop head body => exact (Covers.each h.inner _).append (.single h.loopBody body)
    case whileLoop condition body =>
      exact (Covers.single h.inner condition).append (.single h.loopBody body)
    case doWhileLoop body condition =>
      exact (Covers.single h.loopBody body).append (.single h.inner condition)
    case labelledStatement label statement => exact .single (h.labelled label) statement
    case switchStatement subject cases =>
      exact (Covers.single h.inner subject).append (.each h.switchBody cases)

namespace Node

/-- What is legal stays so where there are more labels. -/
theorem Legal.widen {n : Node} (hn : n.Legal s) (h : s.Widens s') : n.Legal s' := by
  induction n using Node.induction generalizing s s' with
  | h n ih =>
    refine legal_iff.2 ⟨h.allows hn.allows, fun p hp => ?_⟩
    obtain ⟨t, hmem, ht⟩ := n.shape.covers_around h p hp
    exact ih p.2 (Shape.mem_children_of_mem_around hp) (hn.around (t, p.2) hmem) ht

/-- Labels before a node do no harm. -/
theorem Legal.of_inner {n : Node} (hn : n.Legal s.inner) : n.Legal s :=
  hn.widen (.of_inner s)

end Node

end ScriptMin
