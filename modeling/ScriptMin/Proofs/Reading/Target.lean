import ScriptMin.Grammar.Target
import ScriptMin.Proofs.Grammar.Target
import ScriptMin.Proofs.Reading.Row

/-!
# Targets stand where the expressions did

A literal that is turned into a pattern keeps its span, and its parts keep their order. The name of
a shorthand becomes a node of its own, at the end of the member.
-/

namespace ScriptMin.Grammar

open Source

variable {source : List Char} {lo hi : Nat}

/-- The properties and the rest of a pattern in braces are a row. -/
def PropertiesRow (source : List Char) (lo : Nat) (r : List Node × Option Node) (hi : Nat) : Prop :=
  Row source lo (r.1 ++ r.2.toList) hi

/-- The elements and the rest of a pattern in brackets are a row. -/
def ElementsRow (source : List Char) (lo : Nat) (r : List (Option (Defaulted Node)) × Option Node)
    (hi : Nat) : Prop :=
  Row source lo ((r.1.flatMap fun e => e.toList.flatMap Defaulted.children) ++ r.2.toList) hi

/-- The name of a shorthand stands at its end. -/
theorem row_nameAtEnd {span : Span} {name : String} (h : span.EndsWith source name) :
    Row source span.start [⟨nameAtEnd span name, .bindingName name⟩] span.stop := by
  obtain ⟨before, after, hsource, hstart, hstop⟩ := h
  have hlength : span.stop - byteLength name.toList = byteLength before := by
    rw [hstop, byteLength_append, Nat.add_sub_cancel]
  refine Encloses.node (.bindingName name) ⟨?_, ?_, .nil (Nat.sub_le ..), ?_, le_rfl⟩ nofun
  · exact hstart.trans_eq hlength.symm
  · exact ⟨before, name.toList ++ after, by rw [hsource, List.append_assoc], hlength⟩
  · exact ⟨before ++ name.toList, after, hsource, hstop⟩

/-- The induction is along the functions that turn expressions into targets, literal by literal and
part by part. -/
theorem row_targets (source : List Char) :
    (∀ n lo hi, Row source lo [n] hi → ∀ t, target n = .ok t → Row source lo [t] hi) ∧
    (∀ whole members lo hi, Row source lo members hi → ∀ r,
      objectTargets whole members = .ok r → PropertiesRow source lo r hi) ∧
    ∀ whole elements lo hi, Row source lo (elements.flatMap ArrayElement.children) hi → ∀ r,
      arrayTargets whole elements = .ok r → ElementsRow source lo r hi := by
  apply target.mutual_induct
  case case1 | case2 =>
    intros
    rename_i hn t h
    simp only [target, accessTarget] at h
    split at h <;> cases h
    exact hn
  case case3 | case4 =>
    intro span name lo hi hn t h
    cases h
    exact hn.reshape (.bindingName _) (.nil hn.ordered.2.1) (by rintro _ ⟨⟩)
  case case5 | case6 =>
    intro span parts rest lo hi hn t h
    cases h
    exact hn
  case case7 =>
    intro span elements ih lo hi hn t h
    simp only [target, bind_eq_ok] at h
    obtain ⟨⟨elements', rest⟩, h, ht⟩ := h
    cases ht
    exact hn.reshape (.arrayPattern elements' rest) (ih _ _ hn.nests_one.row _ h) (by rintro _ ⟨⟩)
  case case8 =>
    intro span members ih lo hi hn t h
    simp only [target, bind_eq_ok] at h
    obtain ⟨⟨properties, rest⟩, h, ht⟩ := h
    cases ht
    exact hn.reshape (.objectPattern properties rest) (ih _ _ hn.nests_one.row _ h)
      (by rintro _ ⟨⟩)
  case case9 =>
    intro span shape hmember hindex hidentifier hname harray hobject harray' hobject' lo hi hn t h
    rw [target.eq_9 _ _ hmember hindex hidentifier hname harray hobject harray' hobject'] at h
    cases h
  case case10 | case16 =>
    intro whole lo hi hrow r h
    cases h
    exact hrow
  case case11 =>
    intro whole span name members ih lo hi hmembers r h
    simp only [objectTargets, bind_eq_ok] at h
    obtain ⟨⟨properties, rest⟩, h, hr⟩ := h
    cases hr
    have hname := hmembers.head.nests_one.placed.shorthand name rfl
    exact (hmembers.head.reshape
      (.patternProperty (.direct name) ⟨nameAtEnd span name, .bindingName name⟩ none true)
      (row_nameAtEnd hname) (by rintro _ ⟨⟩)).cons (ih _ _ hmembers.tail _ h)
  case case12 =>
    intro whole span value members ih lo hi hmembers r h
    simp only [objectTargets, bind_eq_ok] at h
    obtain ⟨rest, h, hr⟩ := h
    split at hr <;> cases hr
    exact ih _ _ (hmembers.head.children.mono le_rfl hmembers.tail.le) _ h
  case case13 =>
    intro whole span key span' left value members ihleft ih lo hi hmembers r h
    simp only [objectTargets, bind_eq_ok] at h
    obtain ⟨left', hleft, ⟨properties, rest⟩, h, hr⟩ := h
    cases hr
    obtain ⟨mid, hkey, hvalue⟩ := hmembers.head.nests_one.row.split
    have hparts := hvalue.children
    refine (hmembers.head.reshape (.patternProperty key left' (some value) false) ?_
      (by rintro _ ⟨⟩)).cons (ih _ _ hmembers.tail _ h)
    exact (hkey.append (ihleft _ _ hparts.head _ hleft)).append hparts.tail
  case case14 =>
    intro whole span key value members hassignment ihvalue ih lo hi hmembers r h
    rw [objectTargets.eq_5 _ _ _ _ _ hassignment] at h
    simp only [bind_eq_ok] at h
    obtain ⟨value', hvalue, ⟨properties, rest⟩, h, hr⟩ := h
    cases hr
    obtain ⟨mid, hkey, hvalue'⟩ := hmembers.head.nests_one.row.split
    refine (hmembers.head.reshape (.patternProperty key value' none false) ?_
      (by rintro _ ⟨⟩)).cons (ih _ _ hmembers.tail _ h)
    exact (hkey.append (ihvalue _ _ hvalue' _ hvalue)).append (.nil le_rfl)
  case case15 =>
    intro whole span shape members hshorthand hspread hassigned hvalued lo hi hmembers r h
    rw [objectTargets.eq_6 _ _ _ _ hshorthand hspread hassigned hvalued] at h
    cases h
  case case17 =>
    intro whole elements ih lo hi helements r h
    simp only [arrayTargets, bind_eq_ok] at h
    obtain ⟨⟨elements', rest⟩, h, hr⟩ := h
    cases hr
    have hrow := ih _ _ helements _ h
    exact hrow
  case case18 =>
    intro whole value elements ih lo hi helements r h
    simp only [arrayTargets, bind_eq_ok] at h
    obtain ⟨rest, h, hr⟩ := h
    split at hr <;> cases hr
    exact ih _ _ (helements.head.mono le_rfl helements.tail.le) _ h
  case case19 =>
    intro whole span left value elements ihleft ih lo hi helements r h
    simp only [arrayTargets, bind_eq_ok] at h
    obtain ⟨left', hleft, ⟨elements', rest⟩, h, hr⟩ := h
    cases hr
    have hparts := helements.head.children
    have htarget := ihleft _ _ hparts.head _ hleft
    exact htarget.cons (hparts.tail.append (ih _ _ helements.tail _ h))
  case case20 =>
    intro whole value elements hassignment ihvalue ih lo hi helements r h
    rw [arrayTargets.eq_5 _ _ _ hassignment] at h
    simp only [bind_eq_ok] at h
    obtain ⟨value', hvalue, ⟨elements', rest⟩, h, hr⟩ := h
    cases hr
    exact (ihvalue _ _ helements.head _ hvalue).cons (ih _ _ helements.tail _ h)

theorem row_assignmentTarget {operator : AssignmentOperator} {left t : Node}
    (hleft : Row source lo [left] hi) (h : assignmentTarget operator left = .ok t) :
    Row source lo [t] hi := by
  have htarget := (row_targets source).1 left lo hi hleft t
  unfold assignmentTarget at h
  split at h
  case h_1 | h_2 | h_3 => exact htarget h
  case h_4 | h_5 =>
    split at h
    · exact htarget h
    · cases h
  case h_6 => cases h

end ScriptMin.Grammar
