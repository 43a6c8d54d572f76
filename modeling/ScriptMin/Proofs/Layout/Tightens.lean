import ScriptMin.Proofs.Layout.Edge
import ScriptMin.Proofs.Layout.Shrinks

/-!
# Nodes that are written in no more text

A node can stand for another one in a text that is to get no longer if its place sees no difference
between the two and what is written of it shrinks. Of a statement this has to hold together with the
semicolon behind it, which depends on how it ends and on what follows.
-/

namespace ScriptMin

open Layout Node

/-! ## The text of a node -/

/-- What is written of a node, without the parentheses that its place asks for. -/
def Node.text (n : Node) : Bool → Layout :=
  n.fold fun _ children inHead => ofShape inHead children

/-- A node as a child of another one. -/
def Node.child (n : Node) : Child := (n, n.text)

theorem Node.text_eq (n : Node) (inHead : Bool) :
    n.text inHead = ofShape inHead (n.shape.map Node.child) := by
  rw [Node.text, Node.fold_eq]
  rfl

theorem Node.layout_eq (n : Node) : n.layout = n.child.plain := rfl

theorem Node.under_eq (n : Node) (minimum : Nat) :
    n.child.under minimum =
      if n.edge.precedence < minimum || n.edge.closesChain then
        Layout.parenthesised (n.text false)
      else n.text false := rfl

/-- What follows a node. -/
inductive Follower where
  | inside
  | statement
  | rowEnd
  | case
deriving DecidableEq

/-- The semicolon between a node and what follows it. -/
def Follower.mark (n : Node) : Follower → Layout
  | .inside => []
  | .statement => when (n.ending != .brace) (Layout.mark .semicolon)
  | .rowEnd => when (n.ending == .nothing) (Layout.mark .semicolon)
  | .case => when (caseNeedsSemicolon n) (Layout.mark .semicolon)

/-- No text gets longer when `n'` stands for `n`. -/
structure Tightens (n n' : Node) : Prop where
  edge : n'.edge = n.edge
  containsIn : n'.containsIn → n.containsIn
  isEmpty : n.isEmptyStatement → n'.isEmptyStatement
  text : ∀ inHead, Shrinks (n.text inHead) (n'.text inHead)
  followed : ∀ follower : Follower,
    Shrinks (n.child.plain ++ follower.mark n) (n'.child.plain ++ follower.mark n')

theorem shrinks_parenthesised {l l' : Layout} (h : Shrinks l l') :
    Shrinks (parenthesised l) (parenthesised l') :=
  ((Shrinks.refl _).append h).append (.refl _)

/-- Parentheses may go. -/
theorem shrinks_of_parenthesised (l : Layout) : Shrinks (parenthesised l) l := by
  have h := ((Shrinks.drop '(' [] []).append (.refl l)).append (.drop ')' [] [])
  rwa [List.nil_append, List.append_nil] at h

theorem shrinks_under_of_wrapped (c : Child) (minimum : Nat) :
    Shrinks c.wrapped (c.under minimum) := by
  unfold Child.wrapped Child.plain Child.under
  cases hcloses : c.1.closesChain
  · simp only [Nat.not_lt_zero, decide_false, Bool.or_self, Bool.false_eq_true, if_false,
      Bool.or_false]
    split
    · exact .refl _
    · exact shrinks_of_parenthesised _
  · simp only [Bool.or_true, if_true]
    exact shrinks_of_parenthesised _

/-- A space counts for nothing, so it does not matter which body is a block. -/
theorem compacted_body (n : Node) : compacted n.child.body = compacted n.child.plain := by
  unfold Child.body
  split <;> rfl

/-! ### Widths -/

section Widths

variable (n : Node) (minimum : Nat)

theorem width_text_le_under : width (n.text false) ≤ width (n.child.under minimum) := by
  rw [under_eq]
  split
  · rw [width_parenthesised]
    omega
  · exact Nat.le_refl _

/-- Parentheses need no blank before them. -/
theorem width_append_under_le (l : Layout) :
    width (l ++ n.child.under minimum) ≤ width l + width (n.text false) + 2 := by
  rw [under_eq]
  split
  · have hopen := width_append_mark l (n.text false ++ mark .closeParenthesis) (c := '(') rfl
    have hclose := width_append_mark (n.text false) [] (c := ')') rfl
    rw [width_nil] at hclose
    have h : width (l ++ parenthesised (n.text false)) = _ := hopen
    have h' : width (n.text false ++ mark .closeParenthesis) = _ := hclose
    omega
  · have := width_append_le l (n.text false)
    omega

theorem width_under_le : width (n.child.under minimum) ≤ width (n.text false) + 2 := by
  have h := width_append_under_le n minimum []
  rw [List.nil_append, width_nil] at h
  omega

theorem width_body : width n.child.body = width n.child.plain := by
  rw [← width_compacted, compacted_body, width_compacted]

end Widths

theorem starts_under {n : Node} (h : Starts (n.text false)) (minimum : Nat) :
    Starts (n.child.under minimum) := by
  rw [under_eq]
  split
  · exact ⟨'(', [], _, rfl⟩
  · exact h

namespace Tightens

variable {n n' : Node}

theorem refl (n : Node) : Tightens n n :=
  ⟨rfl, id, id, fun _ => .refl _, fun _ => .refl _⟩

theorem trans {a b c : Node} (h : Tightens a b) (h' : Tightens b c) : Tightens a c where
  edge := h'.edge.trans h.edge
  containsIn := h.containsIn ∘ h'.containsIn
  isEmpty := h'.isEmpty ∘ h.isEmpty
  text inHead := (h.text inHead).trans (h'.text inHead)
  followed follower := (h.followed follower).trans (h'.followed follower)

/-! ### In a place -/

theorem under (h : Tightens n n') (minimum : Nat) :
    Shrinks (n.child.under minimum) (n'.child.under minimum) := by
  rw [under_eq, under_eq, h.edge]
  split
  · exact shrinks_parenthesised (h.text false)
  · exact h.text false

theorem plain (h : Tightens n n') : Shrinks n.child.plain n'.child.plain := h.under 0

theorem single (h : Tightens n n') : Shrinks n.child.single n'.child.single := h.under _

theorem wrapped (h : Tightens n n') : Shrinks n.child.wrapped n'.child.wrapped :=
  shrinks_parenthesised h.plain

/-- In a place where the operator `in` needs parentheses. -/
theorem withoutIn (h : Tightens n n') (condition : Bool) (minimum : Nat) :
    Shrinks (if condition && n.containsIn then n.child.wrapped else n.child.under minimum)
      (if condition && n'.containsIn then n'.child.wrapped else n'.child.under minimum) := by
  split
  case isTrue =>
    split
    · exact h.wrapped
    · exact h.wrapped.trans (shrinks_under_of_wrapped _ _)
  case isFalse hin =>
    rw [if_neg]
    · exact h.under minimum
    · simp only [Bool.and_eq_true, not_and] at hin ⊢
      exact fun hcondition hin' => hin hcondition (h.containsIn hin')

/-- A body with what follows the statement that it stands in. -/
theorem body (h : Tightens n n') (follower : Follower) :
    Shrinks (n.child.body ++ follower.mark n) (n'.child.body ++ follower.mark n') := by
  have := h.followed follower
  rw [← shrinks_compacted_iff, compacted_append, compacted_append] at this ⊢
  rwa [compacted_body, compacted_body]

end Tightens

/-! ## Rows -/

namespace Layout

/-- The mark between what ends like this and a statement behind it. -/
def between (e : Option Ending) : Layout := when (e.any (· != .brace)) (mark .semicolon)

/-- The mark at the end of a row, which another case follows if `closed`. -/
def atEnd (closed : Bool) (e : Option Ending) : Layout :=
  when (e.any fun e => e == .nothing || closed && e == .open) (mark .semicolon)

/-- What is written of statements in a row. -/
def row (closed : Bool) (e : Option Ending) : List Node → Layout
  | [] => atEnd closed e
  | n :: rest =>
    if n.isEmptyStatement then row closed e rest
    else between e ++ n.child.plain ++ row closed (some n.ending) rest

variable {closed : Bool} {e e' : Option Ending}

theorem row_cons_of_isEmpty {n : Node} (h : n.isEmptyStatement) (rest : List Node) :
    row closed e (n :: rest) = row closed e rest := if_pos h

theorem row_cons {n : Node} (h : ¬n.isEmptyStatement) (rest : List Node) :
    row closed e (n :: rest) = between e ++ n.child.plain ++ row closed (some n.ending) rest :=
  if_neg h

/-- An empty statement is nothing but the semicolon behind it. -/
theorem eq_of_isEmptyStatement {n : Node} (h : n.isEmptyStatement) :
    n.child.plain = [] ∧ n.ending = .nothing := by
  obtain ⟨span, shape⟩ := n
  cases shape <;> cases h
  exact ⟨by rw [← Node.layout_eq]; rfl, rfl⟩

theorem between_some (n : Node) : between (some n.ending) = Follower.statement.mark n := rfl

theorem atEnd_some (closed : Bool) (n : Node) :
    atEnd closed (some n.ending) = (if closed then .statement else .rowEnd : Follower).mark n := by
  cases closed <;> simp only [atEnd, Follower.mark, if_true, Bool.false_eq_true, if_false] <;>
    cases n.ending <;> rfl

theorem shrinks_drop_mark (l : Layout) : Shrinks (l ++ mark .semicolon) l := by
  have h := (Shrinks.refl l).append (.drop ';' [] [])
  rwa [List.append_nil] at h

/-- At the end there is no mark where there is none between two statements. -/
theorem shrinks_atEnd (l : Layout) (closed : Bool) (e : Option Ending) :
    Shrinks (l ++ between e) (l ++ atEnd closed e) := by
  have hcases : between e = atEnd closed e ∨ between e = mark .semicolon ∧ atEnd closed e = [] := by
    obtain - | e := e
    · exact .inl rfl
    · cases e <;> cases closed <;> first | exact .inl rfl | exact .inr ⟨rfl, rfl⟩
  obtain h | ⟨h, h'⟩ := hcases
  · rw [h]
    exact .refl _
  · rw [h, h', List.append_nil]
    exact shrinks_drop_mark l

/-- Statements in a row, behind what itself shrinks. -/
theorem shrinks_row {ps : List (Node × Node)} (h : ∀ p ∈ ps, Tightens p.1 p.2)
    {l l' : Layout} (hnext : Shrinks (l ++ between e) (l' ++ between e'))
    (hlast : Shrinks (l ++ atEnd closed e) (l' ++ atEnd closed e')) :
    Shrinks (l ++ row closed e (ps.map Prod.fst)) (l' ++ row closed e' (ps.map Prod.snd)) := by
  -- What has been written of the row goes into `l`, with the end of its last statement in `e`. Which
  -- mark comes behind it is only known where the next statement or the end of the row is.
  induction ps generalizing l l' e e' with
  | nil => exact hlast
  | cons p rest ih =>
    rw [List.forall_mem_cons] at h
    obtain ⟨hp, hrest⟩ := h
    rw [List.map_cons, List.map_cons]
    by_cases hempty : p.1.isEmptyStatement
    · rw [row_cons_of_isEmpty hempty, row_cons_of_isEmpty (hp.isEmpty hempty)]
      exact ih hrest hnext hlast
    have hfollowed (follower : Follower) := hnext.append (hp.followed follower)
    rw [row_cons hempty, ← List.append_assoc, ← List.append_assoc]
    by_cases hempty' : p.2.isEmptyStatement
    · -- All that is left of the statement is a mark, and that is one too many.
      obtain ⟨hplain, hending⟩ := eq_of_isEmptyStatement hempty'
      have hmark (follower : Follower) (h : follower.mark p.2 = mark .semicolon) :
          Shrinks (l ++ between e ++ p.1.child.plain ++ follower.mark p.1) (l' ++ between e') := by
        have hfollowed := hfollowed follower
        rw [hplain, h, List.nil_append, ← List.append_assoc] at hfollowed
        exact hfollowed.trans (shrinks_drop_mark _)
      rw [row_cons_of_isEmpty hempty']
      refine ih hrest ?_ ?_
      · exact hmark .statement (by rw [Follower.mark, hending]; rfl)
      · rw [atEnd_some]
        refine (hmark _ ?_).trans (shrinks_atEnd l' closed e')
        cases closed <;> simp [Follower.mark, hending, when]
    · rw [row_cons hempty', ← List.append_assoc, ← List.append_assoc]
      have hstep (follower : Follower) :
          Shrinks (l ++ between e ++ p.1.child.plain ++ follower.mark p.1)
            (l' ++ between e' ++ p.2.child.plain ++ follower.mark p.2) := by
        simpa only [List.append_assoc] using hfollowed follower
      refine ih hrest (hstep .statement) ?_
      rw [atEnd_some, atEnd_some]
      exact hstep _

theorem row_of_all_isEmpty {body : List Node} (h : body.all Node.isEmptyStatement) :
    row closed e body = atEnd closed e := by
  induction body with
  | nil => rfl
  | cons n rest ih =>
    rw [List.all_cons, Bool.and_eq_true] at h
    rw [row_cons_of_isEmpty h.1, ih h.2]

/-- A row as it is laid out. -/
theorem compacted_statementsAfter (e : Option Ending) (body : List Node) :
    compacted (statementsAfter e (body.map Node.child)) = compacted (row false e body) := by
  induction body generalizing e with
  | nil => cases e with
    | none => rfl
    | some e => cases e <;> rfl
  | cons n rest ih =>
    rw [List.map_cons, statementsAfter, Node.child]
    split
    case isTrue h => exact (ih e).trans (congrArg _ (row_cons_of_isEmpty h rest).symm)
    case isFalse h =>
      rw [row_cons h]
      simp only [compacted_append, compacted_when, compacted_newline, ih, between,
        compacted_semicolon_compact, compacted_semicolon_spacious, compacted_nil, compacted_mark,
        Node.child]
      cases n.ending != .brace <;> simp [when, mark, Punctuator.spelling]

/-- The mark before another case is that of the last statement that is not empty. -/
theorem row_true (e : Option Ending) (body : List Node) :
    row true e body = row false e body ++
      when ((((body.reverse.find? (!·.isEmptyStatement)).map Node.ending).or e) == some .open)
        (mark .semicolon) := by
  induction body generalizing e with
  | nil =>
    cases e with
    | none => rfl
    | some e => cases e <;> rfl
  | cons n rest ih =>
    rw [List.reverse_cons, List.find?_append]
    by_cases h : n.isEmptyStatement
    · rw [row_cons_of_isEmpty h, row_cons_of_isEmpty h, ih]
      simp [h]
    · rw [row_cons h, row_cons h, ih]
      simp [h, List.append_assoc]

end Layout

end ScriptMin
