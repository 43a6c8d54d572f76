import ScriptMin.Grammar.Target
import ScriptMin.Proofs.Tree.WellFormed

/-!
# Targets are well formed

The literals that are turned into patterns: what a well-formed tree is turned into fits as a target.
-/

namespace ScriptMin.Grammar

open Node

/-- A step that succeeds, and what succeeds after it. -/
theorem bind_eq_ok {ε α β : Type} {x : Except ε α} {k : α → Except ε β} {b : β} :
    (x >>= k) = .ok b ↔ ∃ a, x = .ok a ∧ k a = .ok b := by
  cases x <;> simp [bind, Except.bind]

theorem fits_accessTarget {access n : Node} (h : accessTarget access = .ok n)
    (hfits : access.Fits .target) : n.Fits .target := by
  unfold accessTarget at h
  split at h <;> cases h
  exact hfits

/-- What an assignment in a literal falls back to. -/
theorem WellFormed.assignment {span : Source.Span} {operator : AssignmentOperator}
    {left value : Node} (h : WellFormed ⟨span, .assignment operator left value⟩) :
    left.WellFormed ∧ value.Fits .expression := by
  have hplaces := wellFormed_iff.1 h
  simp only [Shape.places, filled_cons] at hplaces
  exact ⟨hplaces.1.wellFormed, hplaces.2.1⟩

/-- The key and the value of a property in a literal. -/
theorem WellFormed.property {span : Source.Span} {key : Key Node} {value : Node}
    (h : WellFormed ⟨span, .objectMember (.valued key (.property (some value)))⟩) :
    Filled key.places ∧ value.WellFormed := by
  have hplaces := wellFormed_iff.1 h
  simp only [Shape.places, ObjectMember.places, MemberValue.places, filled_append, filled_each,
    Option.toList_some, List.forall_mem_singleton] at hplaces
  exact ⟨hplaces.1, hplaces.2.wellFormed⟩

/-- The properties and the rest of a pattern in braces. -/
def PropertiesFit (r : List Node × Option Node) : Prop :=
  (∀ p ∈ r.1, p.Fits .property) ∧ ∀ n ∈ r.2, n.Fits .target

/-- The elements and the rest of a pattern in brackets. -/
def ElementsFit (r : List (Option (Defaulted Node)) × Option Node) : Prop :=
  (∀ e ∈ r.1, ∀ d ∈ e, Filled d.places) ∧ ∀ n ∈ r.2, n.Fits .target

theorem PropertiesFit.cons {properties : List Node} {rest : Option Node} {span : Source.Span}
    {key : Key Node} {left : Node} {fallback : Option Node} {shorthand : Bool}
    (h : PropertiesFit (properties, rest)) (hkey : Filled key.places) (hleft : left.Fits .target)
    (hfallback : ∀ n ∈ fallback, n.Fits .expression) :
    PropertiesFit (⟨span, .patternProperty key left fallback shorthand⟩ :: properties, rest) :=
  ⟨List.forall_mem_cons.2
    ⟨fits_mk rfl (by simpa [Shape.places] using ⟨hkey, hleft, hfallback⟩), h.1⟩, h.2⟩

theorem ElementsFit.cons {elements : List (Option (Defaulted Node))} {rest : Option Node}
    {left : Node} {fallback : Option Node} (h : ElementsFit (elements, rest))
    (hleft : left.Fits .target) (hfallback : ∀ n ∈ fallback, n.Fits .expression) :
    ElementsFit (some ⟨left, fallback⟩ :: elements, rest) :=
  ⟨List.forall_mem_cons.2 ⟨by simpa [Defaulted.places] using ⟨hleft, hfallback⟩, h.1⟩, h.2⟩

/-- The induction is along the functions that turn expressions into targets, literal by literal and
part by part. -/
theorem fits_targets :
    (∀ n, n.WellFormed → ∀ t, target n = .ok t → t.Fits .target) ∧
    (∀ whole members, (∀ m ∈ members, m.WellFormed) → ∀ r, objectTargets whole members = .ok r →
      PropertiesFit r) ∧
    ∀ whole elements, (∀ e ∈ elements, ∀ c ∈ ArrayElement.children e, c.WellFormed) → ∀ r,
      arrayTargets whole elements = .ok r → ElementsFit r := by
  apply target.mutual_induct
  case case1 =>
    intro span isOptional parenthesised object name hn t h
    exact fits_accessTarget (by simpa only [target] using h) ⟨rfl, hn⟩
  case case2 =>
    intro span isOptional parenthesised object subscript hn t h
    exact fits_accessTarget (by simpa only [target] using h) ⟨rfl, hn⟩
  case case3 | case4 =>
    intro span name _ t h
    cases h
    exact fits_mk rfl filled_nil
  case case5 =>
    intro span elements rest hn t h
    cases h
    exact ⟨rfl, hn⟩
  case case6 =>
    intro span properties rest hn t h
    cases h
    exact ⟨rfl, hn⟩
  case case7 =>
    intro span elements ih hn t h
    simp only [target, bind_eq_ok] at h
    obtain ⟨⟨elements', rest⟩, h, ht⟩ := h
    cases ht
    obtain ⟨helements, hrest⟩ := ih (fun e he c hc => hn.child (List.mem_flatMap.2 ⟨e, he, hc⟩)) _ h
    exact fits_mk rfl (by simpa [Shape.places] using ⟨helements, hrest⟩)
  case case8 =>
    intro span members ih hn t h
    simp only [target, bind_eq_ok] at h
    obtain ⟨⟨properties, rest⟩, h, ht⟩ := h
    cases ht
    obtain ⟨hproperties, hrest⟩ := ih (fun m hm => hn.child hm) _ h
    exact fits_mk rfl (by simpa [Shape.places] using ⟨hproperties, hrest⟩)
  case case9 =>
    intro span shape hmember hindex hidentifier hname harray hobject harray' hobject' hn t h
    rw [target.eq_9 _ _ hmember hindex hidentifier hname harray hobject harray' hobject'] at h
    cases h
  case case10 =>
    intro whole _ r h
    cases h
    exact ⟨List.forall_mem_nil _, by simp⟩
  case case11 =>
    intro whole span name members ih hmembers r h
    simp only [objectTargets, bind_eq_ok] at h
    obtain ⟨⟨properties, rest⟩, h, hr⟩ := h
    cases hr
    have hrest := ih (fun m hm => hmembers m (List.mem_cons_of_mem _ hm)) _ h
    exact hrest.cons filled_nil (fits_mk rfl filled_nil) (by simp)
  case case12 =>
    intro whole span value members ih hmembers r h
    simp only [objectTargets, bind_eq_ok] at h
    obtain ⟨rest, h, hr⟩ := h
    split at hr <;> cases hr
    refine ⟨List.forall_mem_nil _, ?_⟩
    have hvalue : value.WellFormed := (hmembers _ List.mem_cons_self).child List.mem_cons_self
    simpa using ih hvalue _ h
  case case13 =>
    intro whole span key span' left value members ihleft ih hmembers r h
    simp only [objectTargets, bind_eq_ok] at h
    obtain ⟨left', hleft, ⟨properties, rest⟩, h, hr⟩ := h
    cases hr
    obtain ⟨hmember, hmembers⟩ := List.forall_mem_cons.1 hmembers
    obtain ⟨hkey, hvalue⟩ := WellFormed.property hmember
    obtain ⟨hleft', hvalue⟩ := WellFormed.assignment hvalue
    exact (ih hmembers _ h).cons hkey (ihleft hleft' _ hleft) (by simpa using hvalue)
  case case14 =>
    intro whole span key value members hassignment ihvalue ih hmembers r h
    rw [objectTargets.eq_5 _ _ _ _ _ hassignment] at h
    simp only [bind_eq_ok] at h
    obtain ⟨value', hvalue, ⟨properties, rest⟩, h, hr⟩ := h
    cases hr
    obtain ⟨hmember, hmembers⟩ := List.forall_mem_cons.1 hmembers
    obtain ⟨hkey, hvalue'⟩ := WellFormed.property hmember
    exact (ih hmembers _ h).cons hkey (ihvalue hvalue' _ hvalue) (by simp)
  case case15 =>
    intro whole span shape members hshorthand hspread hassigned hvalued hmembers r h
    rw [objectTargets.eq_6 _ _ _ _ hshorthand hspread hassigned hvalued] at h
    cases h
  case case16 =>
    intro whole _ r h
    cases h
    exact ⟨List.forall_mem_nil _, by simp⟩
  case case17 =>
    intro whole elements ih helements r h
    simp only [arrayTargets, bind_eq_ok] at h
    obtain ⟨⟨elements', rest⟩, h, hr⟩ := h
    cases hr
    obtain ⟨hrest, hlast⟩ := ih (fun e he => helements e (List.mem_cons_of_mem _ he)) _ h
    exact ⟨List.forall_mem_cons.2 ⟨by simp, hrest⟩, hlast⟩
  case case18 =>
    intro whole value elements ih helements r h
    simp only [arrayTargets, bind_eq_ok] at h
    obtain ⟨rest, h, hr⟩ := h
    split at hr <;> cases hr
    have hvalue := helements _ List.mem_cons_self value List.mem_cons_self
    exact ⟨List.forall_mem_nil _, by simpa using ih hvalue _ h⟩
  case case19 =>
    intro whole span left value elements ihleft ih helements r h
    simp only [arrayTargets, bind_eq_ok] at h
    obtain ⟨left', hleft, ⟨elements', rest⟩, h, hr⟩ := h
    cases hr
    obtain ⟨helement, helements⟩ := List.forall_mem_cons.1 helements
    obtain ⟨hleft', hvalue⟩ := WellFormed.assignment (helement _ List.mem_cons_self)
    exact (ih helements _ h).cons (ihleft hleft' _ hleft) (by simpa using hvalue)
  case case20 =>
    intro whole value elements hassignment ihvalue ih helements r h
    rw [arrayTargets.eq_5 _ _ _ hassignment] at h
    simp only [bind_eq_ok] at h
    obtain ⟨value', hvalue, ⟨elements', rest⟩, h, hr⟩ := h
    cases hr
    obtain ⟨helement, helements⟩ := List.forall_mem_cons.1 helements
    exact (ih helements _ h).cons (ihvalue (helement _ List.mem_cons_self) _ hvalue) (by simp)

theorem fits_target {n t : Node} (hn : n.WellFormed) (h : target n = .ok t) : t.Fits .target :=
  fits_targets.1 n hn t h

theorem fits_assignmentTarget {operator : AssignmentOperator} {left t : Node}
    (hleft : left.WellFormed) (h : assignmentTarget operator left = .ok t) : t.Fits .target := by
  unfold assignmentTarget at h
  split at h
  case h_1 | h_2 | h_3 => exact fits_target hleft h
  case h_4 | h_5 =>
    split at h
    · exact fits_target hleft h
    · cases h
  case h_6 => cases h

end ScriptMin.Grammar
