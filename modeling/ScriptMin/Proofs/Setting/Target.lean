import ScriptMin.Grammar.Target
import ScriptMin.Proofs.Grammar.Target
import ScriptMin.Proofs.Setting.Basic

/-!
# Targets are legal where they stand

A literal that is turned into a pattern keeps its parts in their setting, since neither literals nor
patterns change it. Methods and accessors would, but they are no targets.
-/

namespace ScriptMin.Grammar

open Node

variable {s : Setting}

/-- What an assignment in a literal falls back to. -/
theorem Legal.assignment {span : Source.Span} {operator : AssignmentOperator} {left value : Node}
    (h : Legal s ⟨span, .assignment operator left value⟩) :
    left.Legal s.inner ∧ value.Legal s.inner :=
  ⟨h.child rfl List.mem_cons_self, h.child rfl (List.mem_cons_of_mem _ List.mem_cons_self)⟩

/-- The key and the value of a property in a literal. -/
theorem Legal.property {span : Source.Span} {key : Key Node} {value : Node}
    (h : Legal s ⟨span, .objectMember (.valued key (.property (some value)))⟩) :
    (∀ c ∈ key.children, c.Legal s.inner) ∧ value.Legal s.inner := by
  obtain ⟨hkey, hvalue⟩ := settled_append.1 h.around
  exact ⟨settled_each.1 hkey, (settled_cons.1 hvalue).1⟩

/-- The properties and the rest of a pattern in braces. -/
def PropertiesStand (s : Setting) (r : List Node × Option Node) : Prop :=
  (∀ p ∈ r.1, p.Legal s) ∧ ∀ n ∈ r.2, n.Legal s

/-- The elements and the rest of a pattern in brackets. -/
def ElementsStand (s : Setting) (r : List (Option (Defaulted Node)) × Option Node) : Prop :=
  (∀ e ∈ r.1, ∀ d ∈ e, ∀ c ∈ Defaulted.children d, c.Legal s) ∧ ∀ n ∈ r.2, n.Legal s

theorem PropertiesStand.cons {properties : List Node} {rest : Option Node} {span : Source.Span}
    {key : Key Node} {left : Node} {fallback : Option Node} {shorthand : Bool}
    (h : PropertiesStand s.inner (properties, rest)) (hkey : ∀ c ∈ key.children, c.Legal s.inner)
    (hleft : left.Legal s.inner) (hfallback : ∀ n ∈ fallback, n.Legal s.inner) :
    PropertiesStand s.inner
      (⟨span, .patternProperty key left fallback shorthand⟩ :: properties, rest) := by
  refine ⟨List.forall_mem_cons.2 ⟨legal_plain rfl ⟨trivial, trivial⟩ ?_, h.1⟩, h.2⟩
  simpa [Shape.children, or_imp, forall_and] using ⟨hkey, hleft, hfallback⟩

theorem ElementsStand.cons {elements : List (Option (Defaulted Node))} {rest : Option Node}
    {left : Node} {fallback : Option Node} (h : ElementsStand s (elements, rest))
    (hleft : left.Legal s) (hfallback : ∀ n ∈ fallback, n.Legal s) :
    ElementsStand s (some ⟨left, fallback⟩ :: elements, rest) := by
  refine ⟨List.forall_mem_cons.2 ⟨?_, h.1⟩, h.2⟩
  simpa [Defaulted.children] using ⟨hleft, hfallback⟩

/-- The induction is along the functions that turn expressions into targets, literal by literal and
part by part. -/
theorem legal_targets (s : Setting) :
    (∀ n, n.Legal s.inner → ∀ t, target n = .ok t → t.Legal s.inner) ∧
    (∀ whole members, (∀ m ∈ members, m.Legal s.inner) → ∀ r,
      objectTargets whole members = .ok r → PropertiesStand s.inner r) ∧
    ∀ whole elements, (∀ e ∈ elements, ∀ c ∈ ArrayElement.children e, c.Legal s.inner) → ∀ r,
      arrayTargets whole elements = .ok r → ElementsStand s.inner r := by
  apply target.mutual_induct
  case case1 | case2 =>
    intros
    rename_i hn t h
    simp only [target, accessTarget] at h
    split at h <;> cases h
    exact hn
  case case3 | case4 =>
    intro span name _ t h
    cases h
    exact legal_plain rfl ⟨trivial, trivial⟩ (List.forall_mem_nil _)
  case case5 | case6 =>
    intro span parts rest hn t h
    cases h
    exact hn
  case case7 =>
    intro span elements ih hn t h
    simp only [target, bind_eq_ok] at h
    obtain ⟨⟨elements', rest⟩, h, ht⟩ := h
    cases ht
    have hparts := ih (fun e he c hc => hn.child rfl (List.mem_flatMap.2 ⟨e, he, hc⟩)) _ h
    refine legal_plain rfl ⟨trivial, trivial⟩ ?_
    simp only [Shape.children, List.forall_mem_append, List.forall_mem_flatMap, Option.mem_toList]
    exact hparts
  case case8 =>
    intro span members ih hn t h
    simp only [target, bind_eq_ok] at h
    obtain ⟨⟨properties, rest⟩, h, ht⟩ := h
    cases ht
    obtain ⟨hproperties, hrest⟩ := ih (fun m hm => hn.child rfl hm) _ h
    refine legal_plain rfl ⟨trivial, trivial⟩ ?_
    simpa [Shape.children, or_imp, forall_and] using ⟨hproperties, hrest⟩
  case case9 =>
    intro span shape hmember hindex hidentifier hname harray hobject harray' hobject' hn t h
    rw [target.eq_9 _ _ hmember hindex hidentifier hname harray hobject harray' hobject'] at h
    cases h
  case case10 | case16 =>
    intro whole _ r h
    cases h
    exact ⟨List.forall_mem_nil _, by simp⟩
  case case11 =>
    intro whole span name members ih hmembers r h
    simp only [objectTargets, bind_eq_ok] at h
    obtain ⟨⟨properties, rest⟩, h, hr⟩ := h
    cases hr
    have hrest := ih (fun m hm => hmembers m (List.mem_cons_of_mem _ hm)) _ h
    refine hrest.cons (List.forall_mem_nil _) ?_ (by simp)
    exact legal_plain rfl ⟨trivial, trivial⟩ (List.forall_mem_nil _)
  case case12 =>
    intro whole span value members ih hmembers r h
    simp only [objectTargets, bind_eq_ok] at h
    obtain ⟨rest, h, hr⟩ := h
    split at hr <;> cases hr
    have hmember := (hmembers _ List.mem_cons_self).around
    have hvalue : value.Legal s.inner := (settled_cons.1 hmember).1
    exact ⟨List.forall_mem_nil _, by simpa using ih hvalue _ h⟩
  case case13 =>
    intro whole span key span' left value members ihleft ih hmembers r h
    simp only [objectTargets, bind_eq_ok] at h
    obtain ⟨left', hleft, ⟨properties, rest⟩, h, hr⟩ := h
    cases hr
    obtain ⟨hmember, hmembers⟩ := List.forall_mem_cons.1 hmembers
    obtain ⟨hkey, hvalue⟩ := Legal.property hmember
    obtain ⟨hleft', hvalue⟩ := Legal.assignment hvalue
    exact (ih hmembers _ h).cons hkey (ihleft hleft' _ hleft) (by simpa using hvalue)
  case case14 =>
    intro whole span key value members hassignment ihvalue ih hmembers r h
    rw [objectTargets.eq_5 _ _ _ _ _ hassignment] at h
    simp only [bind_eq_ok] at h
    obtain ⟨value', hvalue, ⟨properties, rest⟩, h, hr⟩ := h
    cases hr
    obtain ⟨hmember, hmembers⟩ := List.forall_mem_cons.1 hmembers
    obtain ⟨hkey, hvalue'⟩ := Legal.property hmember
    exact (ih hmembers _ h).cons hkey (ihvalue hvalue' _ hvalue) (by simp)
  case case15 =>
    intro whole span shape members hshorthand hspread hassigned hvalued hmembers r h
    rw [objectTargets.eq_6 _ _ _ _ hshorthand hspread hassigned hvalued] at h
    cases h
  case case17 =>
    intro whole elements ih helements r h
    simp only [arrayTargets, bind_eq_ok] at h
    obtain ⟨⟨elements', rest⟩, h, hr⟩ := h
    cases hr
    obtain ⟨hrest, hlast⟩ := ih (fun e he => helements e (List.mem_cons_of_mem _ he)) _ h
    exact ⟨List.forall_mem_cons.2 ⟨by simp, hrest⟩, hlast⟩
  case case18 =>
    intro whole value elements ih helements r h
    simp only [arrayTargets, bind_eq_ok] at h
    obtain ⟨rest, h, hr⟩ := h
    split at hr <;> cases hr
    have hvalue := helements _ List.mem_cons_self value List.mem_cons_self
    exact ⟨List.forall_mem_nil _, by simpa using ih hvalue _ h⟩
  case case19 =>
    intro whole span left value elements ihleft ih helements r h
    simp only [arrayTargets, bind_eq_ok] at h
    obtain ⟨left', hleft, ⟨elements', rest⟩, h, hr⟩ := h
    cases hr
    obtain ⟨helement, helements⟩ := List.forall_mem_cons.1 helements
    obtain ⟨hleft', hvalue⟩ := Legal.assignment (helement _ List.mem_cons_self)
    exact (ih helements _ h).cons (ihleft hleft' _ hleft) (by simpa using hvalue)
  case case20 =>
    intro whole value elements hassignment ihvalue ih helements r h
    rw [arrayTargets.eq_5 _ _ _ hassignment] at h
    simp only [bind_eq_ok] at h
    obtain ⟨value', hvalue, ⟨elements', rest⟩, h, hr⟩ := h
    cases hr
    obtain ⟨helement, helements⟩ := List.forall_mem_cons.1 helements
    exact (ih helements _ h).cons (ihvalue (helement _ List.mem_cons_self) _ hvalue) (by simp)

theorem legal_assignmentTarget {operator : AssignmentOperator} {left t : Node}
    (hleft : left.Legal s.inner) (h : assignmentTarget operator left = .ok t) :
    t.Legal s.inner := by
  have htarget := (legal_targets s).1 left hleft t
  unfold assignmentTarget at h
  split at h
  case h_1 | h_2 | h_3 => exact htarget h
  case h_4 | h_5 =>
    split at h
    · exact htarget h
    · cases h
  case h_6 => cases h

end ScriptMin.Grammar
