import ScriptMin.Proofs.Rewrite.Rules
import ScriptMin.Proofs.Rewrite.ShorterRows

/-!
# Shorter returns

A choice in the place of an `if` may put each of its three parts in parentheses, and may stand
behind a blank. The words and the parentheses of the `if` are wider than that.
-/

namespace ScriptMin.Rewrite

open Layout Node Tightens

/-! ## Widths -/

theorem width_splitNegation_le (n : Node) :
    width ((splitNegation n).1.text false) ≤ width (n.text false) := by
  obtain ⟨span, shape⟩ := n
  unfold splitNegation
  split
  case h_1 operand h =>
    obtain rfl : shape = _ := h
    rw [text_eq ⟨span, _⟩]
    have hle := le_width_append (Layout.text (UnaryOperator.spelling .logicalNot))
      (operand.child.under unaryPrecedence)
    have hunder := width_text_le_under operand unaryPrecedence
    exact Nat.le_trans hunder (Nat.le_trans (Nat.le_add_left _ _) hle)
  case h_2 => exact Nat.le_refl _

/-- A conditional behind something else, where each part of it may need parentheses. -/
theorem width_conditional_le (l : Layout) (span : Source.Span) (test first second : Node) :
    width (l ++ Node.text ⟨span, .conditional test first second⟩ false) ≤
      width l + width (test.text false) + width (first.text false) + width (second.text false) +
        8 := by
  rw [text_eq]
  have hmarks (a b c : Layout) :
      width (a ++ operator ['?'] ++ b ++ operator [':'] ++ c) =
        width a + width b + width c + 2 := by
    rw [← width_compacted]
    have hcompacted : compacted (a ++ operator ['?'] ++ b ++ operator [':'] ++ c) =
        compacted a ++ .token ['?'] :: (compacted b ++ .token [':'] :: compacted c) := by
      simp [operator]
    rw [hcompacted, width_append_mark _ _ rfl, width_append_mark _ _ rfl, width_compacted,
      width_compacted, width_compacted]
    omega
  have htest := width_append_under_le test (Operator.conditional.precedence + 1) l
  have hfirst := width_under_le first assignmentPrecedence
  have hsecond := width_under_le second assignmentPrecedence
  have h := hmarks (l ++ test.child.under (Operator.conditional.precedence + 1))
    first.child.single second.child.single
  simp only [Child.single] at h
  simp only [Shape.map, ofShape, Child.single, ← List.append_assoc]
  omega

/-- A choice has the branches in either order. -/
theorem choice_eq (test first second : Node) :
    ∃ span a b, choice test first second = ⟨span, .conditional (splitNegation test).1 a b⟩ ∧
      (a = first ∧ b = second ∨ a = second ∧ b = first) := by
  unfold choice
  obtain ⟨test', negated⟩ := splitNegation test
  cases negated
  · exact ⟨_, first, second, rfl, .inl ⟨rfl, rfl⟩⟩
  · exact ⟨_, second, first, rfl, .inr ⟨rfl, rfl⟩⟩

theorem width_choice_le (l : Layout) (test first second : Node) :
    width (l ++ (choice test first second).child.plain) ≤
      width l + width (test.text false) + width (first.text false) + width (second.text false) +
        8 := by
  obtain ⟨span, a, b, heq, hbranches⟩ := choice_eq test first second
  have htest := width_splitNegation_le test
  have h := width_conditional_le l span (splitNegation test).1 a b
  rw [heq, plain_eq_text rfl]
  obtain ⟨rfl, rfl⟩ | ⟨rfl, rfl⟩ := hbranches <;> omega

theorem width_returned (span : Source.Span) (value : Node) (inHead : Bool) :
    width (Node.text ⟨span, .returnStatement (some value)⟩ inHead) =
      width (word .returnWord ++ value.child.plain) := by
  rw [text_eq, ← width_compacted]
  exact width_compacted (word .returnWord ++ value.child.plain)

theorem le_width_returned (span : Source.Span) (value : Node) (inHead : Bool) :
    6 + width (value.text false) ≤
      width (Node.text ⟨span, .returnStatement (some value)⟩ inHead) := by
  rw [width_returned]
  have hvalue : width (value.text false) ≤ width value.child.plain := width_text_le_under value 0
  have hword : width (word .returnWord) = 6 := width_token _
  have := le_width_append (word .returnWord) value.child.plain
  omega

theorem width_block_plain (span : Source.Span) (body : List Node) :
    width (Node.child ⟨span, .block body⟩).plain =
      width (mark .openBrace ++ Layout.row false none body ++ mark .closeBrace) := by
  rw [plain_eq_text rfl, text_eq, ← width_compacted,
    ← width_compacted (mark .openBrace ++ Layout.row false none body ++ mark .closeBrace)]
  simp only [compacted_append, compacted_mark]
  exact congrArg width (compacted_block body)

theorem width_of_singleReturn {n value : Node} (h : singleReturn? n = some value) :
    6 + width (value.text false) ≤ width n.child.plain := by
  refine singleReturn_induction (fun span statement ih => ?_) h fun span => ?_
  · have hempty : ¬statement.isEmptyStatement := fun hempty => by
      rw [(eq_of_isEmptyStatement hempty).1, width_nil] at ih
      omega
    have hblock := width_block_plain span [statement]
    rw [row_cons hempty] at hblock
    have hopen := le_width_append (mark .openBrace ++ (between none ++ statement.child.plain ++
      Layout.row false (some statement.ending) [])) (mark .closeBrace)
    have hrow := le_width_append (mark .openBrace) (between none ++ statement.child.plain ++
      Layout.row false (some statement.ending) [])
    have hplain := le_width_append statement.child.plain
      (Layout.row false (some statement.ending) [])
    simp only [between, Option.any_none, when, Bool.false_eq_true, if_false, List.nil_append] at *
    omega
  · rw [plain_eq_text rfl]
    exact le_width_returned span value false

/-- What is written of the second branch. -/
def elseBranch (consequent : Node) (alternate : Option Node) : Layout :=
  Layout.optional (fun c => closing consequent ++ .space :: word .elseWord ++ c.body)
    (alternate.map child)

theorem le_width_elseBranch (consequent alternate : Node) :
    4 + width alternate.child.plain ≤ width (elseBranch consequent (some alternate)) := by
  have hword : width (.space :: word .elseWord) = 4 := width_token _
  have hclosing := le_width_append (closing consequent) (.space :: word .elseWord)
  have hbody := le_width_append (closing consequent ++ .space :: word .elseWord)
    alternate.child.body
  rw [width_body] at hbody
  exact Nat.le_trans (by omega) hbody

/-- An `if` has its test in parentheses. -/
theorem le_width_ifStatement (span : Source.Span) (test consequent : Node)
    (alternate : Option Node) (inHead : Bool) :
    4 + width (test.text false) + width consequent.child.plain +
        width (elseBranch consequent alternate) ≤
      width (Node.text ⟨span, .ifStatement test consequent alternate⟩ inHead) := by
  rw [text_eq ⟨span, _⟩]
  have htest : width (test.text false) ≤ width test.child.plain := width_text_le_under test 0
  have hwrapped : width (.space :: test.child.wrapped) = width test.child.plain + 2 :=
    width_parenthesised test.child.plain
  have hbody := width_body consequent
  have hword : width (word .ifWord) = 2 := width_token _
  have hfirst := le_width_append (word .ifWord) (.space :: test.child.wrapped)
  have hsecond := le_width_append (word .ifWord ++ .space :: test.child.wrapped)
    consequent.child.body
  have hthird := le_width_append
    (word .ifWord ++ .space :: test.child.wrapped ++ consequent.child.body)
    (elseBranch consequent alternate)
  exact Nat.le_trans (by omega) hthird

/-- An `if` is longer than what is less wide by two. -/
theorem shrinks_ifStatement_of_width {span : Source.Span} {test consequent : Node}
    {alternate : Option Node} {inHead : Bool} {l l' : Layout}
    (h : width l' + 1 <
      width (Node.text ⟨span, .ifStatement test consequent alternate⟩ inHead ++ l)) :
    Shrinks (Node.text ⟨span, .ifStatement test consequent alternate⟩ inHead ++ l) l' := by
  rw [text_eq] at h ⊢
  exact @Shrinks.of_width _ l' 'i' ['f'] h

/-- The choice that is returned, where each part of it may need parentheses. -/
theorem width_returnedChoice_le (test first second : Node) (inHead : Bool) :
    width ((returnOf (choice test first second)).text inHead) ≤
      width (test.text false) + width (first.text false) + width (second.text false) + 14 := by
  have hword : width (word .returnWord) = 6 := width_token _
  have hreturned : width ((returnOf (choice test first second)).text inHead) = _ :=
    width_returned _ (choice test first second) inHead
  have h := width_choice_le (word .returnWord) test first second
  omega

/-! ## Returned choices -/

theorem containsIn_splitNegation {test : Node} (h : (splitNegation test).1.containsIn) :
    test.containsIn := by
  obtain ⟨span, shape⟩ := test
  unfold splitNegation at h
  split at h
  case h_1 operand hshape =>
    obtain rfl : shape = _ := hshape
    exact containsIn_of_mem_children List.mem_cons_self h
  case h_2 => exact h

theorem containsIn_returnedChoice {test first second : Node}
    (h : (returnOf (choice test first second)).containsIn) :
    test.containsIn ∨ first.containsIn ∨ second.containsIn := by
  obtain ⟨span, a, b, heq, hbranches⟩ := choice_eq test first second
  obtain ⟨c, hc, hin⟩ := (containsIn_iff rfl).1 h
  obtain rfl : c = choice test first second := List.mem_singleton.1 hc
  rw [heq, containsIn_iff rfl] at hin
  obtain ⟨c, hc, hin⟩ := hin
  obtain rfl | hbranch : c = (splitNegation test).1 ∨ (c = a ∨ c = b) := by
    simpa [Shape.children] using hc
  · exact .inl (containsIn_splitNegation hin)
  · refine .inr ?_
    obtain ⟨rfl, rfl⟩ | ⟨rfl, rfl⟩ := hbranches <;> obtain rfl | rfl := hbranch <;> simp [hin]

theorem containsIn_of_singleReturn {n value : Node} (h : singleReturn? n = some value)
    (hin : value.containsIn) : n.containsIn := by
  refine singleReturn_induction (fun span statement ih => ?_) h fun span => ?_
  · exact containsIn_of_mem_children List.mem_cons_self ih
  · exact containsIn_of_mem_children List.mem_cons_self hin

theorem tightens_returnedChoice {span : Source.Span} {test consequent alternate first second : Node}
    (hfirst : singleReturn? consequent = some first)
    (hsecond : singleReturn? alternate = some second) :
    Tightens ⟨span, .ifStatement test consequent (some alternate)⟩
      (returnOf (choice test first second)) := by
  have hshrinks (inHead : Bool) (x y : Layout) (hy : width y ≤ 1) :
      Shrinks (Node.text ⟨span, .ifStatement test consequent (some alternate)⟩ inHead ++ x)
        ((returnOf (choice test first second)).text inHead ++ y) := by
    refine shrinks_ifStatement_of_width ?_
    -- At most 14 against 4 for the `if`, 4 for the `else` and 6 for each `return`.
    have hnew := width_returnedChoice_le test first second inHead
    have hmark := width_append_le ((returnOf (choice test first second)).text inHead) y
    have hold := le_width_ifStatement span test consequent (some alternate) inHead
    have helse := le_width_elseBranch consequent alternate
    have hmore := le_width_append
      (Node.text ⟨span, .ifStatement test consequent (some alternate)⟩ inHead) x
    have hconsequent := width_of_singleReturn hfirst
    have halternate := width_of_singleReturn hsecond
    omega
  refine ⟨rfl, fun hin => ?_, nofun, fun inHead => ?_, fun follower => ?_⟩
  · obtain hin | hin | hin := containsIn_returnedChoice hin
    · exact containsIn_of_mem_children List.mem_cons_self hin
    · exact containsIn_of_mem_children (c := consequent) (by simp [Shape.children])
        (containsIn_of_singleReturn hfirst hin)
    · exact containsIn_of_mem_children (c := alternate) (by simp [Shape.children])
        (containsIn_of_singleReturn hsecond hin)
  · have h := hshrinks inHead [] [] (Nat.zero_le _)
    rwa [List.append_nil, List.append_nil] at h
  · rw [plain_eq_text rfl, plain_eq_text rfl]
    refine hshrinks false _ _ ?_
    cases follower
    · exact Nat.zero_le 1
    · exact Nat.le_of_eq (width_token _)
    · exact Nat.zero_le 1
    · exact Nat.zero_le 1

theorem rowTightens_joinedReturn {a b joined : Node} (h : joinedReturn? a b = some joined)
    (rest : List Node) : RowTightens (a :: b :: rest) (joined :: rest) := by
  obtain ⟨span, test, consequent, value, alternate, rfl, hvalue, ⟨spanB, rfl⟩, rfl⟩ :=
    joinedReturn?_eq_some h
  refine rowTightens_joined ?nonempty ?nonempty' ?nonempty'' ?ending ?text ?containsIn rest
  case text =>
    rw [plain_eq_text rfl, plain_eq_text rfl, plain_eq_text rfl, List.append_assoc]
    refine shrinks_ifStatement_of_width ?_
    have hnew := width_returnedChoice_le test value alternate false
    have hold := le_width_ifStatement span test consequent none false
    have hconsequent := width_of_singleReturn hvalue
    have hreturned := le_width_returned spanB alternate false
    have hmark := le_width_append
      (Follower.statement.mark ⟨span, .ifStatement test consequent none⟩)
      (Node.text ⟨spanB, .returnStatement (some alternate)⟩ false)
    refine Nat.lt_of_lt_of_le ?_ (le_width_append _ _)
    omega
  case containsIn =>
    intro hin
    obtain hin | hin | hin := containsIn_returnedChoice hin
    · exact .inl (containsIn_of_mem_children List.mem_cons_self hin)
    · exact .inl (containsIn_of_mem_children (c := consequent) (by simp [Shape.children])
        (containsIn_of_singleReturn hvalue hin))
    · exact .inr (containsIn_of_mem_children List.mem_cons_self hin)
  case ending => rfl
  all_goals exact Bool.false_ne_true

theorem keeps_tightens_returnChoice : Rule.Keeps returnChoice Tightens := by
  intro context n n' h
  obtain ⟨span, test, consequent, alternate, first, second, rfl, hfirst, hsecond, rfl⟩ | hrow :=
    returnChoice_eq_some h
  · exact tightens_returnedChoice hfirst hsecond
  · refine keeps_tightens_onStatements (fun row row' h => ?_) context n n' hrow
    exact rowKept_tightens.joinReturn (fun _ _ _ h => rowTightens_joinedReturn h) h

end ScriptMin.Rewrite
