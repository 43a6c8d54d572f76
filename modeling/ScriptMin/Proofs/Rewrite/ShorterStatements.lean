import ScriptMin.Proofs.Rewrite.Rules
import ScriptMin.Proofs.Rewrite.ShorterRows

/-!
# Shorter statements

Debuggers, conditions of loops without an end, operands of `yield`, braces and the words of joined
declarations are left out, and what is left is written in no more text.
-/

namespace ScriptMin.Rewrite

open Layout Node Tightens

/-! ## What is left out -/

theorem starts_isUndefined {b : Bool} {n : Node} (h : isUndefined b n) : Starts (n.text false) := by
  obtain ⟨span, shape⟩ := n
  cases shape <;> first | cases h | skip
  case identifier name =>
    simp only [isUndefined, Bool.and_eq_true, beq_iff_eq] at h
    rw [h.2]
    exact ⟨'u', _, _, rfl⟩
  case unary op operand =>
    cases op <;> first | cases h | exact ⟨'v', _, _, rfl⟩
  case undefinedLiteral => exact ⟨'v', _, _, rfl⟩

theorem keeps_tightens_shortenYield : Rule.Keeps shortenYield Tightens := by
  intro context n n' h
  obtain ⟨span, operand, hundefined, rfl, rfl⟩ := shortenYield_eq_some h
  refine .of_text rfl ?_ nofun (fun inHead => ?_) fun follower => by cases follower <;> rfl
  · rw [containsIn_iff rfl]
    exact nofun
  · rw [text_eq, text_eq]
    exact (starts_under (starts_isUndefined hundefined) _).drop.behind (word .yieldWord)

theorem keeps_tightens_dropDebugger : Rule.Keeps dropDebugger Tightens := by
  intro context n n' h
  obtain ⟨span, rfl, rfl⟩ := dropDebugger_eq_some h
  refine ⟨rfl, id, nofun, fun inHead => .drop 'd' _ _, fun follower => ?_⟩
  cases follower with
  | inside | case => exact .drop 'd' _ _
  | statement => exact (Shrinks.drop 'd' _ []).ahead _
  | rowEnd =>
    -- At the end the empty statement needs a mark.
    show Shrinks (.token ('d' :: "ebugger".toList) :: []) (mark .semicolon)
    refine .of_width _ _ ?_
    rw [mark, width_token, width_token]
    decide

/-! ## Loops -/

theorem needsBlank_of_word (pen : Pen) : pen.needsBlank 'f' = pen.needsBlank 'w' := by
  have hjoins (last first : Char) (h : first = 'f' ∨ first = 'w') : joins last first = false := by
    unfold joins
    split <;> simp_all
  simp only [Pen.needsBlank_eq, hjoins _ 'f' (.inl rfl), hjoins _ 'w' (.inr rfl)]
  rfl

/-- The head of a loop without a condition is no longer than the one of a `while` with any. -/
theorem shrinks_loopHead (l : Layout) :
    Shrinks (word .whileWord ++ mark .openParenthesis ++ l ++ mark .closeParenthesis)
      (word .forWord ++ mark .openParenthesis ++ mark .semicolon ++ mark .semicolon ++
        mark .closeParenthesis) := by
  refine Shrinks.closed (fun pen => ?_) rfl rfl
  have hwhile : (pen.run (word .whileWord)).length =
      pen.length + 5 + if pen.needsBlank 'w' then 1 else 0 :=
    Pen.length_token pen 'w' "hile".toList
  have hfor : (pen.run (word .forWord)).length =
      pen.length + 3 + if pen.needsBlank 'w' then 1 else 0 :=
    needsBlank_of_word pen ▸ Pen.length_token pen 'f' "or".toList
  have hmark (c : Char) (hc : isMark c) (pen : Pen) := length_mark hc pen
  have hle := Pen.length_le_run ((pen.run (word .whileWord)).run (mark .openParenthesis)) l
  simp only [Pen.run_append, mark, Punctuator.spelling, hmark '(' rfl, hmark ';' rfl] at hle ⊢
  omega

theorem tightens_whileLoop (span : Source.Span) (condition body : Node) :
    Tightens ⟨span, .whileLoop condition body⟩
      ⟨span, .forLoop (.stepped .none none none) body⟩ := by
  have hhead : Shrinks (word .whileWord ++ .space :: condition.child.wrapped)
      (word .forWord ++ .space :: parenthesised (forHead (.stepped .none none none))) := by
    have h := shrinks_loopHead (compacted condition.child.plain)
    have hnone : compacted (forHead (.stepped .none none none)) =
        mark .semicolon ++ mark .semicolon := rfl
    rw [← shrinks_compacted_iff]
    simpa only [Child.wrapped, parenthesised, compacted_append, compacted_space, compacted_word,
      compacted_mark, List.append_assoc, hnone] using h
  exact tightens_of_last rfl rfl (fun _ => rfl) (fun _ => rfl) hhead (fun _ _ => .refl _)
    (containsIn_of_subset rfl (by simp [Shape.children, ForHead.children, ForInit.children]))

theorem tightens_forLoop (span : Source.Span) (init : ForInit Node) (condition : Node)
    (post : Option Node) (body : Node) :
    Tightens ⟨span, .forLoop (.stepped init (some condition) post) body⟩
      ⟨span, .forLoop (.stepped init none post) body⟩ := by
  have hpart : Shrinks (mark .semicolon ++ .space :: condition.child.plain ++ mark .semicolon)
      (mark .semicolon ++ [] ++ mark .semicolon) :=
    .closed (fun pen => Pen.run_append pen _ _ ▸ Pen.length_le_run _ _) rfl rfl
  have hhead : Shrinks
      (forHead ((ForHead.stepped init (some condition) post).map Node.child))
      (forHead ((ForHead.stepped init none post).map Node.child)) := by
    have hparts := hpart.between (forInit (init.map Node.child))
      (Layout.optional (fun c => .space :: c.plain) (post.map Node.child))
    simp only [List.append_assoc] at hparts
    simp only [forHead, ForHead.map, List.append_assoc]
    exact hparts
  refine tightens_of_last rfl rfl (fun _ => rfl) (fun _ => rfl)
    ((shrinks_parenthesised hhead).spaced.behind (word .forWord)) (fun _ _ => .refl _)
    (containsIn_of_subset rfl ?_)
  intro c hc
  simp only [Shape.children, ForHead.children, List.mem_append,
    Option.toList_none, List.not_mem_nil, or_false] at hc ⊢
  tauto

theorem keeps_tightens_loopForever : Rule.Keeps loopForever Tightens := by
  intro context n n' h
  obtain ⟨span, condition, body, rfl, -, rfl⟩ |
    ⟨span, init, condition, post, body, rfl, -, rfl⟩ := loopForever_eq_some h
  · exact tightens_whileLoop span condition body
  · exact tightens_forLoop span init condition post body

/-! ## Braces -/

/-- The mark that a row needs without the brace behind it. -/
theorem shrinks_atEnd_closeBrace (e : Option Ending) :
    Shrinks (atEnd false e ++ mark .closeBrace) (between e) := by
  obtain - | e := e
  · exact .drop _ [] []
  · cases e with
    | brace => exact .drop _ [] []
    | nothing => exact (Shrinks.refl (mark .semicolon)).append (.drop _ [] [])
    | «open» => exact .mark rfl rfl

theorem shrinks_openBrace (l : Layout) : Shrinks (mark .openBrace ++ l) l :=
  (Shrinks.drop _ [] []).append (.refl l)

/-- What is written before another statement can do for any other follower than a case. -/
theorem shrinks_statement_mark (l : Layout) (n : Node) {follower : Follower}
    (h : follower ≠ .case) : Shrinks (l ++ Follower.statement.mark n) (l ++ follower.mark n) := by
  cases follower with
  | inside =>
    unfold Follower.mark
    cases n.ending != .brace
    · exact .refl _
    · exact (shrinks_drop_mark l).trans (by rw [List.append_nil]; exact .refl _)
  | statement => exact .refl _
  | rowEnd => exact atEnd_some false n ▸ shrinks_atEnd l false (some n.ending)
  | case => exact absurd rfl h

/-- The statement of a block takes the place of the block. -/
theorem shrinks_unwrapped {beforeElse : Bool} {c c' : Node} (h : unwrapped? beforeElse c = some c')
    (follower : Follower) (hfollower : follower ≠ .case) :
    Shrinks (c.child.body ++ follower.mark c) (c'.child.body ++ follower.mark c') := by
  obtain ⟨span, rfl⟩ := unwrapped?_eq_some h
  have hmark : follower.mark ⟨span, .block [c']⟩ = [] := by cases follower <;> rfl
  refine Shrinks.trans ?_ (shrinks_statement_mark _ _ hfollower)
  rw [hmark, List.append_nil, ← shrinks_compacted_iff, compacted_append, compacted_body,
    compacted_body, plain_eq_text rfl, text_eq]
  show Shrinks (compacted (block ([c'].map Node.child))) _
  rw [compacted_block]
  by_cases hempty : c'.isEmptyStatement
  · obtain ⟨hplain, hending⟩ := eq_of_isEmptyStatement hempty
    rw [row_cons_of_isEmpty hempty, hplain, Follower.mark, hending]
    exact (shrinks_openBrace _).trans (.mark rfl rfl)
  · have hrow : compacted (Layout.row false none [c']) =
        compacted c'.child.plain ++ atEnd false (some c'.ending) := by
      rw [row_cons hempty, compacted_append]
      exact congrArg _ (compacted_when _ _)
    have hstatement : compacted (Follower.statement.mark c') = between (some c'.ending) :=
      compacted_when _ _
    rw [hrow, hstatement, ← List.append_assoc, List.append_assoc]
    exact ((shrinks_openBrace _).append (shrinks_atEnd_closeBrace _))

theorem containsIn_of_unwrapped? {beforeElse : Bool} {c c' : Node}
    (h : unwrapped? beforeElse c = some c') (hin : c'.containsIn) : c.containsIn := by
  obtain ⟨span, rfl⟩ := unwrapped?_eq_some h
  exact containsIn_of_mem_children List.mem_cons_self hin

/-- A statement without braces in the place of the block at the end of the same statement. -/
theorem tightens_of_unwrapped {span : Source.Span} {s s' : Shape Node} {c c' : Node} {l : Layout}
    (h : unwrapped? false c = some c') (hs : lastStatement? s = some c)
    (hs' : lastStatement? s' = some c')
    (htext : ∀ inHead, ofShape inHead (s.map child) = l ++ c.child.body)
    (htext' : ∀ inHead, ofShape inHead (s'.map child) = l ++ c'.child.body)
    (others : List Node) (hchildren : s.children = others ++ [c])
    (hchildren' : s'.children = others ++ [c']) : Tightens ⟨span, s⟩ ⟨span, s'⟩ := by
  refine tightens_of_last hs hs' htext htext' (.refl _) (shrinks_unwrapped h) fun hin => ?_
  have hoperator : Node.operator? ⟨span, s'⟩ = none :=
    congrArg Edge.operator (edge_of_lastStatement? (Option.isSome_of_eq_some hs'))
  obtain ⟨x, hx, hin⟩ := (containsIn_iff hoperator).1 hin
  rw [hchildren'] at hx
  obtain hx | hx := List.mem_append.1 hx
  · exact containsIn_of_mem_children (hchildren ▸ List.mem_append_left _ hx) hin
  · rw [List.mem_singleton.1 hx] at hin
    exact containsIn_of_mem_children (hchildren ▸ List.mem_append_right _ List.mem_cons_self)
      (containsIn_of_unwrapped? h hin)

section IfStatement

variable (span : Source.Span) (test : Node) {c c' : Node}

theorem tightens_ifStatement_none (h : unwrapped? false c = some c') :
    Tightens ⟨span, .ifStatement test c none⟩ ⟨span, .ifStatement test c' none⟩ :=
  tightens_of_unwrapped h rfl rfl (fun _ => List.append_nil _) (fun _ => List.append_nil _) [test]
    rfl rfl

theorem text_ifStatement_some (inHead : Bool) (test consequent alternate : Node) :
    ofShape inHead ((Shape.ifStatement test consequent (some alternate)).map child) =
      word .ifWord ++ .space :: test.child.wrapped ++
        (consequent.child.body ++ Follower.statement.mark consequent) ++
        (.space :: word .elseWord) ++ alternate.child.body := by
  simp only [Shape.map, ofShape, Option.map_some, Layout.optional, List.append_assoc,
    List.cons_append]
  rfl

theorem tightens_ifStatement_consequent (alternate : Node) (h : unwrapped? true c = some c') :
    Tightens ⟨span, .ifStatement test c (some alternate)⟩
      ⟨span, .ifStatement test c' (some alternate)⟩ := by
  refine tightens_of_last rfl rfl (fun _ => text_ifStatement_some _ _ _ _)
    (fun _ => text_ifStatement_some _ _ _ _) ?_ (fun _ _ => .refl _) ?_
  · exact (shrinks_unwrapped h .statement nofun).between _ _
  · rw [containsIn_iff rfl, containsIn_iff rfl]
    simpa [Shape.children] using Or.imp_right (Or.imp_left (containsIn_of_unwrapped? h))

theorem tightens_ifStatement_alternate (consequent : Node) (h : unwrapped? false c = some c') :
    Tightens ⟨span, .ifStatement test consequent (some c)⟩
      ⟨span, .ifStatement test consequent (some c')⟩ :=
  tightens_of_unwrapped h rfl rfl (fun _ => text_ifStatement_some _ _ _ _)
    (fun _ => text_ifStatement_some _ _ _ _) [test, consequent] rfl rfl

theorem tightens_ifStatement (consequent : Node) (alternate : Option Node) :
    Tightens ⟨span, .ifStatement test consequent alternate⟩
      ⟨span, .ifStatement test ((unwrapped? alternate.isSome consequent).getD consequent)
        ((alternate.bind (unwrapped? false)).or alternate)⟩ := by
  cases alternate with
  | none =>
    cases h : unwrapped? false consequent with
    | none => simpa [h] using Tightens.refl _
    | some c => simpa [h] using tightens_ifStatement_none span test h
  | some alternate =>
    have hfirst : Tightens ⟨span, .ifStatement test consequent (some alternate)⟩
        ⟨span, .ifStatement test ((unwrapped? true consequent).getD consequent)
          (some alternate)⟩ := by
      cases h : unwrapped? true consequent with
      | none => exact .refl _
      | some c => exact tightens_ifStatement_consequent span test alternate h
    refine hfirst.trans ?_
    cases h : unwrapped? false alternate with
    | none => simpa [h] using Tightens.refl _
    | some c => simpa [h] using tightens_ifStatement_alternate span test _ h

end IfStatement

theorem tightens_doWhileLoop (span : Source.Span) (condition : Node) {c c' : Node}
    (h : unwrapped? false c = some c') :
    Tightens ⟨span, .doWhileLoop c condition⟩ ⟨span, .doWhileLoop c' condition⟩ := by
  have htext (inHead : Bool) (c : Node) :
      ofShape inHead ((Shape.doWhileLoop c condition).map child) =
        word .doWord ++ (c.child.body ++ Follower.statement.mark c) ++
          (.space :: word .whileWord ++ .space :: condition.child.wrapped) := by
    simp only [Shape.map, ofShape, List.append_assoc]
    rfl
  refine .of_text rfl ?_ (by rintro ⟨⟩) (fun inHead => ?_) fun follower => by
    cases follower <;> rfl
  · rw [containsIn_iff rfl, containsIn_iff rfl]
    simpa [Shape.children] using Or.imp_left (containsIn_of_unwrapped? h)
  · rw [text_eq, text_eq, htext, htext]
    exact (shrinks_unwrapped h .statement (by simp)).between _ _

theorem keeps_tightens_unwrapBlocks : Rule.Keeps unwrapBlocks Tightens := by
  rintro context ⟨span, shape⟩ n' h
  obtain ⟨shape', hshape, rfl⟩ := Option.map_eq_some_iff.1 h
  unfold bodyUnwrapped? at hshape
  split at hshape <;> first | cases hshape | rename_i heq; obtain rfl : shape = _ := heq
  case h_1 condition body =>
    obtain ⟨c, hc, rfl⟩ := Option.map_eq_some_iff.1 hshape
    exact tightens_of_unwrapped hc rfl rfl (fun _ => rfl) (fun _ => rfl) [condition] rfl rfl
  case h_2 body condition =>
    obtain ⟨c, hc, rfl⟩ := Option.map_eq_some_iff.1 hshape
    exact tightens_doWhileLoop span condition hc
  case h_3 head body =>
    obtain ⟨c, hc, rfl⟩ := Option.map_eq_some_iff.1 hshape
    exact tightens_of_unwrapped hc rfl rfl (fun _ => rfl) (fun _ => rfl) head.children rfl rfl
  case h_4 object body =>
    obtain ⟨c, hc, rfl⟩ := Option.map_eq_some_iff.1 hshape
    exact tightens_of_unwrapped hc rfl rfl (fun _ => rfl) (fun _ => rfl) [object] rfl rfl
  case h_5 label body =>
    obtain ⟨c, hc, rfl⟩ := Option.map_eq_some_iff.1 hshape
    exact tightens_of_unwrapped hc rfl rfl (fun _ => rfl) (fun _ => rfl) [] rfl rfl
  case h_6 test consequent alternate =>
    simp only [Option.ite_none_right_eq_some, Option.some.injEq] at hshape
    obtain ⟨-, rfl⟩ := hshape
    exact tightens_ifStatement span test consequent alternate

/-! ## Declarations -/

/-- Two lists behind one word, with a comma in the place of the semicolon and the other word. -/
theorem shrinks_joinedLists (w : Word) (xs ys : List Layout) :
    Shrinks (word w ++ list xs ++ mark .semicolon ++ (word w ++ list ys))
      (word w ++ list (xs ++ ys)) := by
  obtain ⟨first, letters, hw⟩ : ∃ first letters, word w = [.token (first :: letters)] := by
    cases w <;> exact ⟨_, _, rfl⟩
  -- Without elements on one side there is no comma to take the place of the semicolon.
  by_cases hxs : xs = []
  · have h : Shrinks (word w ++ mark .semicolon) [] := hw ▸ Shrinks.drop first letters _
    simpa [hxs, list] using h.ahead (word w ++ list ys)
  by_cases hys : ys = []
  · have h : Shrinks (mark .semicolon ++ word w) [] := .drop ';' [] _
    simpa [hys, list] using h.behind (word w ++ list xs)
  have h : Shrinks (mark .semicolon ++ word w) (mark .comma ++ []) :=
    (Shrinks.mark rfl rfl).append (hw ▸ Shrinks.drop first letters [])
  rw [list_append xs ys hxs hys, ← shrinks_compacted_iff]
  have hlists := h.between (word w ++ compacted (list xs)) (compacted (list ys))
  simpa only [comma, compacted_append, compacted_word, compacted_mark, compacted_space,
    compacted_nil, List.append_assoc, List.nil_append, List.append_nil] using hlists

section Variables

variable (span span' : Source.Span) (kind : VariableKind) (declarators : List (Declarator Node))

theorem plain_variableStatement :
    (Node.child ⟨span, .variableStatement ⟨span', .variableDeclaration kind declarators⟩⟩).plain =
      word (variableWord kind) ++
        list ((declarators.map (·.map Node.child)).map (declarator false)) := by
  rw [plain_eq_text rfl, text_eq]
  show (Node.child ⟨span', .variableDeclaration kind declarators⟩).plain = _
  rw [plain_eq_text rfl, text_eq]
  rfl

theorem containsIn_variableStatement :
    Node.containsIn ⟨span, .variableStatement ⟨span', .variableDeclaration kind declarators⟩⟩ ↔
      ∃ c ∈ declarators.flatMap Declarator.children, c.containsIn := by
  rw [containsIn_iff rfl, Shape.children, List.exists_mem_cons_iff, containsIn_iff rfl]
  simp [Shape.children]

end Variables

theorem rowTightens_joinedVariables {a b joined : Node} (h : joinedVariables? a b = some joined)
    (rest : List Node) : RowTightens (a :: b :: rest) (joined :: rest) := by
  obtain ⟨span, span', kind, first, second, rfl, ⟨spanB, spanB', rfl⟩, rfl⟩ :=
    joinedVariables?_eq_some h
  refine rowTightens_joined ?nonempty ?nonempty' ?nonempty'' ?ending ?text ?containsIn rest
  case text =>
    simp only [plain_variableStatement, List.map_append]
    exact shrinks_joinedLists _ _ _
  case containsIn =>
    simp only [containsIn_variableStatement, List.flatMap_append, List.mem_append, or_and_right,
      exists_or]
    exact id
  case ending => rfl
  all_goals exact Bool.false_ne_true

theorem keeps_tightens_joinVariables : Rule.Keeps joinVariables Tightens :=
  keeps_tightens_onStatements fun _ _ =>
    rowKept_tightens.onNeighbours fun _ _ _ h => rowTightens_joinedVariables h

/-! ## Blocks in a row -/

/-- A row in braces among other statements, behind what the row itself may stand behind. -/
theorem shrinks_spliced (body rest : List Node) (closed : Bool) {l l' : Layout}
    {e e' : Option Ending} (hnext : Shrinks (l ++ between e) (l' ++ between e'))
    (hlast : Shrinks (l ++ atEnd false e ++ mark .closeBrace) (l' ++ between e')) :
    Shrinks (l ++ Layout.row false e body ++ mark .closeBrace ++
        Layout.row closed (some .brace) rest)
      (l' ++ Layout.row closed e' (body ++ rest)) := by
  -- The closing brace stays behind the last statement of the body, whichever mark that one needs.
  induction body generalizing l l' e e' with
  | nil =>
    refine shrinks_row_same rest ?_ ?_
    · exact (List.append_nil _).symm ▸ hlast
    · have hend : atEnd closed (some .brace) = [] := by cases closed <;> rfl
      rw [hend, List.append_nil]
      exact hlast.trans (shrinks_atEnd l' closed e')
  | cons n body ih =>
    by_cases hempty : n.isEmptyStatement
    · rw [List.cons_append, row_cons_of_isEmpty hempty, row_cons_of_isEmpty hempty]
      exact ih hnext hlast
    · rw [List.cons_append, row_cons hempty, row_cons hempty, ← List.append_assoc,
        ← List.append_assoc, ← List.append_assoc, ← List.append_assoc]
      have hplain := hnext.ahead n.child.plain
      refine ih (hplain.ahead _) ?_
      rw [List.append_assoc _ _ (mark .closeBrace)]
      exact hplain.append (shrinks_atEnd_closeBrace _)

theorem shrinks_plain_block (span : Source.Span) (body : List Node) :
    Shrinks (Node.child ⟨span, .block body⟩).plain
      (mark .openBrace ++ Layout.row false none body ++ mark .closeBrace) := by
  rw [← shrinks_compacted_iff, plain_eq_text rfl, text_eq, compacted_append, compacted_append]
  exact compacted_block body ▸ .refl _

theorem shrinks_row_block (span : Source.Span) (body rest : List Node) (closed : Bool)
    (e : Option Ending) :
    Shrinks (Layout.row closed e (⟨span, .block body⟩ :: rest))
      (Layout.row closed e (body ++ rest)) := by
  have hempty : ¬Node.isEmptyStatement ⟨span, .block body⟩ := Bool.false_ne_true
  have hopen : Shrinks (between e ++ mark .openBrace) (between e) := by
    have h := (Shrinks.refl (between e)).append (.drop '\x7b' [] [])
    rwa [List.append_nil] at h
  have hclose : Shrinks (between e ++ mark .openBrace ++ atEnd false none ++ mark .closeBrace)
      (between e) := by
    have h := hopen.append (shrinks_atEnd_closeBrace none)
    rwa [← List.append_assoc, show between none = [] from rfl, List.append_nil] at h
  have hblock := (shrinks_plain_block span body).between (between e)
    (Layout.row closed (some .brace) rest)
  have hspliced := @shrinks_spliced body rest closed (between e ++ mark .openBrace) [] none e
    ((List.append_nil _).symm ▸ hopen) hclose
  rw [row_cons hempty]
  refine hblock.trans ?_
  simpa only [List.append_assoc, List.nil_append] using hspliced

theorem rowTightens_flattened (n : Node) (rest : List Node) :
    RowTightens (n :: rest) ((flattened? n).getD [n] ++ rest) := by
  cases h : flattened? n with
  | none => exact rowKept_tightens.refl _
  | some body =>
    obtain ⟨span, shape⟩ := n
    obtain ⟨rfl, rfl⟩ | rfl := flattened?_eq_some h
    · refine ⟨fun closed e => ?_, fun ⟨n, hn, hin⟩ => ⟨n, List.mem_cons_of_mem _ hn, hin⟩⟩
      rw [row_cons_of_isEmpty rfl]
      exact .refl _
    · refine ⟨shrinks_row_block span body rest, fun ⟨n, hn, hin⟩ => ?_⟩
      obtain hn | hn := List.mem_append.1 hn
      · exact ⟨_, List.mem_cons_self, containsIn_of_mem_children hn hin⟩
      · exact ⟨n, List.mem_cons_of_mem _ hn, hin⟩

theorem keeps_tightens_flattenBlocks : Rule.Keeps flattenBlocks Tightens := by
  refine keeps_tightens_onStatements fun row row' h => ?_
  obtain ⟨-, h⟩ := Option.ite_none_right_eq_some.1 h
  cases h
  exact rowKept_tightens.flatten rowTightens_flattened row

end ScriptMin.Rewrite
