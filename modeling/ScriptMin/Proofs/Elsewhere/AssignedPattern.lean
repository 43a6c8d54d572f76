import ScriptMin.Proofs.Elsewhere.PatternLiteral
import ScriptMin.Proofs.Reading.Grants

/-!
# Patterns before an equals sign

A pattern is read in two ways: behind a `var` by the reader of patterns, and in parentheses before an
equals sign by the reader of expressions, which turns what it read into a pattern. Parentheses are
tried as a parameter list first. There the pattern is read as well, with a default, but no arrow
stands behind it, so the list is taken back and the parentheses are read as a group.

The two ways come to the same pattern (`readExpression_assigned`), unless a shorthand in it has a
default: that is no part of an object literal.
-/

namespace ScriptMin.Grammar

open Source Parse Node

/-! ## The rest of the assignment -/

/-- An equals sign, a variable and a closing parenthesis, with nothing behind them. -/
structure AssignsVariable (c : Cursor) (name : String) : Prop where
  tokens : ∃ e x p c₁ c₂ c₃, c.Starts e c₁ ∧ e.kind = .punctuator .equals ∧
    c₁.Starts x c₂ ∧ x.kind.isBindingName ∧ x.text = name ∧
    c₂.Starts p c₃ ∧ p.kind = .punctuator .closeParenthesis ∧ c₃.rest = []

theorem AssignsVariable.alike {c d : Cursor} {name : String} (h : AssignsVariable c name)
    (hcd : c.Alike d) : AssignsVariable d name := by
  obtain ⟨e, x, p, c₁, c₂, c₃, he, hequals, hx, hname, htext, hp, hclose, hend⟩ := h.tokens
  obtain ⟨_, d₁, he, h₁⟩ := hcd.starts he
  obtain ⟨_, d₂, hx, h₂⟩ := h₁.starts hx
  obtain ⟨_, d₃, hp, h₃⟩ := h₂.starts hp
  exact ⟨_, _, _, d₁, d₂, d₃, he, hequals, hx, hname, htext, hp, hclose, h₃.rest ▸ hend⟩

/-- The end of the input is a token. -/
theorem starts_end {c : Cursor} (h : c.rest = []) :
    ∃ t c', c.Starts t c' ∧ t.kind = .endOfInput := by
  obtain ⟨rest, position⟩ := c
  obtain rfl : rest = [] := h
  refine ⟨⟨.endOfInput, "", ⟨position, position⟩, false⟩, ⟨[], position⟩, fun mode => ?_, rfl⟩
  cases position <;> cases mode <;> rfl

/-- The surroundings of a parameter in parentheses, as long as no arrow was found behind them. -/
def Frame.triedParameter (f : Frame) : Frame :=
  { f.arrow false with generator := f.generator }.parameters

section

variable {bound depth : Nat} {f : Frame} {e : Extent} {s : Reader} {c c₁ c₂ d : Cursor}
  {n u : Token}

theorem Frame.Plain.triedParameter (hf : f.Plain) : f.triedParameter.Plain :=
  ⟨hf.generator, rfl, hf.strict⟩

theorem Frame.Plain.grants (hf : f.Plain) : f.Grants f.triedParameter where
  noGenerator := hf.generator
  noGenerator' := hf.generator
  isAsync := hf.isAsync.symm
  strict := rfl
  allowsSuper := rfl
  inFunction _ := rfl

/-- A variable is all of an expression before a token that ends it. -/
theorem answers_variable {rules : Rules} (hf : f.Plain) (hn : c.Starts n c₁)
    (hname : n.kind.isBindingName) (hu : c₁.Starts u c₂) (hends : u.kind.endsTarget)
    (hstop : e.stops.contains u.kind) (hbound : 0 < rules.bound) (hs : s.Beside c) :
    (expression rules f e).Answers s c₁ (·.node.Alike ⟨n.span, .identifier n.text⟩) := by
  refine answers_operand (P := (·.Alike ⟨n.span, .identifier n.text⟩)) ?_ hu hstop hbound
  obtain ⟨span, d, hmeets, hd⟩ := hs.meets hn
  obtain ⟨span', d', hu', -⟩ := hd.starts hu
  exact ⟨_, _, operand_variable hf hmeets hname hu' hends,
    ⟨Reader.coherent_ahead (hu' .division), hd⟩, _, rfl, .mk rfl⟩

/-- A pattern is read from the next token on, whether that was looked at or not. -/
theorem pattern_fresh (rules : Rules) (f : Frame) (kind : Binding) {r : Reader} (h : r.Coherent) :
    pattern rules f kind r = pattern rules f kind ⟨r.cursor, none⟩ := by
  have hpeek : peek r = peek ⟨r.cursor, none⟩ := by
    show forward .division (fun _ => false) r = forward .division (fun _ => false) ⟨r.cursor, none⟩
    rw [forward_eq h, forward_eq (Reader.coherent_fresh r.cursor)]
  exact bind_eq hpeek

/-- A pattern of a declaration is read as a parameter as well. -/
theorem answers_parameter (hf : f.Plain) {bound' depth' : Nat} {p : Node} {r : Reader}
    (hp : (rules bound' depth').pattern f .declaration ⟨c, none⟩ = .ok (p, r))
    (h : Suffices bound (depth + 1) c) (hs : s.Beside c) :
    ((rules bound (depth + 1)).pattern f.triedParameter .parameter).Answers s r.cursor
      fun _ => True := by
  have hparameter := (monotone_rules bound' depth').pattern hf.grants hf.strict .declaration
    .parameter _ _ _ hp
  have hagrees := (agree_rules bound' bound depth' (depth + 1)).pattern f.triedParameter .parameter
  have hs' : Suffices bound (depth + 1) s.cursor := h.mono (hs.cursor.rest ▸ le_rfl)
  obtain ⟨source, hstands⟩ := s.cursor.exists_standsIn
  have hgood : Reader.Good source (s.cursor.rest.length + 1) ⟨s.cursor, none⟩ :=
    ⟨hstands, Reader.coherent_fresh _, Nat.lt_succ_self _⟩
  have hruns := (hs'.proceeds source).pattern f.triedParameter .parameter hgood
  have hanswers :=
    answers_of_agrees hagrees (hruns.mono fun _ _ hq => hq.good.coherent) hs.cursor hparameter
  exact .of_eq (pattern_fresh _ _ _ hs.coherent) (hanswers.mono fun _ _ => trivial)

end

/-! ## Parentheses at the end of the input -/

section

variable {rules : Rules} {f : Frame} {e : Extent} {s : Reader} {c c' : Cursor} {t : Token}

/-- Without an arrow behind them the parameters are taken back. -/
theorem parenthesisedArrow?_noArrow (start : Option Span)
    (hsignature : (signature rules { f.arrow false with generator := f.generator }).Answers s c
      fun _ => True)
    (ht : c.Starts t c') (hend : t.kind = .endOfInput) :
    parenthesisedArrow? rules f e false start s = .ok (none, ⟨s.cursor, none⟩) := by
  obtain ⟨parameters, s', hparameters, hs', -⟩ := hsignature
  obtain ⟨span, d, hmeets, -⟩ := hs'.meets ht
  have harrow : arrow s' = .error (.refused (Token.unexpected { t with span })) :=
    bind_error (expect_error hmeets (by rw [hend]; exact nofun))
  have hattempt : (attempt (· == .lineTerminatorBeforeArrow) do
      let parameters ← signature rules { f.arrow false with generator := f.generator }
      return (parameters, ← arrow)) s = .ok (none, ⟨s.cursor, none⟩) := by
    unfold attempt
    rw [bind_ok hparameters, bind_error harrow]
    simp [Token.unexpected, Token.error, hend]
  exact bind_ok hattempt

/-- The reading of a group in parentheses, and of nothing behind it. -/
theorem parenthesisedOperand_group {P : Node → Prop}
    (harrow : parenthesisedArrow? rules f e false none s = .ok (none, ⟨s.cursor, none⟩))
    (hgroup : (rules.parenthesised f).Answers ⟨s.cursor, none⟩ c fun n =>
      P (markParenthesised n))
    (ht : c.Starts t c') (hend : t.kind = .endOfInput) :
    (parenthesisedOperand rules f e).Answers s c fun o => ∃ n, o = .plain n ∧ P n := by
  refine .step harrow (hgroup.bind fun n s₁ hs₁ hn => ?_)
  refine .bind_peek hs₁ ht fun span s₂ hs₂ => ?_
  rw [if_neg (by simp [hend])]
  exact .pure hs₂ ⟨_, rfl, hn⟩

/-- A semicolon is inserted at the end of the input. -/
theorem operation_end {progress : Progress}
    (hinserted : progress.inserted = false) (he : e.mayInsert = true)
    (hstop : e.stops.contains .endOfInput = false) (ht : s.Meets t c) (hend : t.kind = .endOfInput) :
    operation rules f e progress s = .ok (.done ⟨progress.left, true⟩, ⟨s.cursor, none⟩) := by
  unfold operation
  simp only [hinserted, Bool.false_eq_true, if_false]
  refine (bind_ok (mark_ok s)).trans ((bind_ok (nextIn_ok ht _)).trans ?_)
  simp only [hend, hstop, he, Bool.false_eq_true, if_false]
  cases t.afterNewline <;> rfl

end

/-! ## The assignment -/

/-- A plain assignment of a variable. -/
def assigned (target : Node) (name : String) : Node :=
  ⟨⟨0, 0⟩, .assignment .assign target ⟨⟨0, 0⟩, .identifier name⟩⟩

theorem alike_assigned {n target : Node} {name : String} {span : Span}
    (h : n.CoversPart target (some ⟨span, .identifier name⟩)) :
    (markParenthesised n).Alike (assigned target name) := by
  cases h with
  | defaulted hn _ htarget hvalue =>
    subst hn
    exact .mk (by rw [Shape.map, Shape.map, htarget, hvalue]; rfl)

theorem bare_assigned (target : Node) (name : String) :
    (assigned target name).bare = assigned target.bare name := by
  rw [assigned, bare_eq, Shape.map, bare_eq ⟨_, .identifier name⟩]
  rfl

section

variable {bound depth : Nat} {f : Frame} {s : Reader} {c c₀ c₁ c₂ c₃ c' : Cursor} {o e x p : Token}
  {q : Node} (hf : f.Plain) (hc₀ : Suffices bound (depth + 1) c₀) (hs : s.Beside c₀)
  (ho : c₀.Starts o c) (hopen : o.kind = .punctuator .openParenthesis) (hq : IsPattern f c q c')
  (he : c'.Starts e c₁) (hequals : e.kind = .punctuator .equals) (hx : c₁.Starts x c₂)
  (hname : x.kind.isBindingName) (hp : c₂.Starts p c₃)
  (hclose : p.kind = .punctuator .closeParenthesis)

include hf hc₀ hs ho hopen hq he hequals hx hname hp hclose

/-- As a parameter list this is one parameter with a default. -/
theorem answers_signature (hpattern : ∀ s', s'.Beside c →
      ((rules bound (depth + 1)).pattern f.triedParameter .parameter).Answers s' c' fun _ => True) :
    (signature (rules bound (depth + 1)) { f.arrow false with generator := f.generator }).Answers
      s c₃ fun _ => True := by
  obtain ⟨bound, rfl⟩ := Nat.exists_eq_add_one.2 (Nat.zero_lt_of_lt hc₀.bound)
  obtain ⟨t, d, ht, hfirst⟩ := hq.first
  refine .step (mark_ok s) (.bind_expectPunctuator hs ho hopen fun _ d hd => ?_)
  refine .bind (R := fun _ => True) (c := c₃) ?_ fun _ s' hs' _ =>
    .step (spanFrom_ok _ s') (.pure hs' trivial)
  -- the only round is the last
  refine .bind (R := fun x => ∃ read, x = .done read) (c := c₃) ?_ ?_
  · refine .step (mark_ok _) (.notTook (.fresh hd) ht (Kind.ne_punctuator hfirst) fun s₁ hs₁ => ?_)
    refine .notTook hs₁ ht (Kind.ne_punctuator hfirst) fun s₂ hs₂ => ?_
    refine (hpattern s₂ hs₂).bind fun q s₃ hs₃ _ => ?_
    refine .bind (R := fun _ => True) (c := c₂) (.took hs₃ he hequals fun d hd => ?_)
      fun fallback s₄ hs₄ _ => .step (spanFrom_ok _ s₄) ?_
    · have hvalue : (expression (rules (bound + 1) depth) f.triedParameter
          (.single [.comma, .closeParenthesis])).Answers ⟨d, none⟩ c₂ _ :=
        answers_variable hf.triedParameter hx hname hp (by rw [hclose]; rfl)
          (by simp [Extent.single, hclose]) (by rw [bound_rules]; omega) (.fresh hd)
      have hsingle : ((rules (bound + 1) (depth + 1)).single f.triedParameter
          [.comma, .closeParenthesis]).Answers ⟨d, none⟩ c₂ fun _ => True :=
        .bind hvalue fun _ _ hs _ => .pure hs trivial
      exact .bind hsingle fun _ _ hs _ => .pure hs trivial
    · refine .notTook hs₄ hp (by simp [hclose]) fun s₅ hs₅ => ?_
      exact .bind_expectPunctuator hs₅ hp hclose fun _ _ hd => .pure (.fresh hd) ⟨_, rfl⟩
  · rintro _ s' hs' ⟨read, rfl⟩
    exact .pure hs' trivial

/-- As a group it is an assignment whose target is the pattern. -/
theorem answers_group (hplain : q.shorthandsPlain) :
    ((rules bound (depth + 1)).parenthesised f).Answers s c₃ fun n =>
      (markParenthesised n).Alike (assigned q x.text) := by
  have hc := hc₀.inner (ho.shorter hopen)
  obtain ⟨depth, rfl⟩ := hc.exists_inner
  have hbound : 1 < bound := by
    have := hc.bound
    have := hq.shorter
    omega
  have hcontains : (Extent.whole .closeParenthesis).stops.contains p.kind := by
    simp [Extent.whole, hclose]
  refine .bind_expectPunctuator hs ho hopen fun _ d hd => ?_
  have hoperand := hq.operand (e := .whole .closeParenthesis) hplain hc (.fresh hd) he
    (by rw [hequals]; rfl)
  have hright (d : Cursor) (hd : c₁.Alike d) :
      (expression (rules bound depth) f (Extent.whole .closeParenthesis).assignment).Answers
        ⟨d, none⟩ c₂ (·.node.Alike ⟨x.span, .identifier x.text⟩) :=
    answers_variable hf hx hname hp (by rw [hclose]; rfl) hcontains
      (by rw [bound_rules]; omega) (.fresh hd)
  have hwhole : ((rules bound (depth + 1 + 1)).whole f .closeParenthesis).Answers ⟨d, none⟩ c₂
      (·.CoversPart q (some ⟨x.span, .identifier x.text⟩)) :=
    .bind (answers_defaulted ⟨by decide, by decide⟩ hoperand he hequals hright hp hcontains
      (by rw [bound_rules]; omega)) fun _ _ hs hn => .pure hs hn
  exact hwhole.bind fun n _ hs hn =>
    .bind_expectPunctuator hs hp hclose fun _ _ hd => .pure (.fresh hd) (alike_assigned hn)

/-- At the end of the input it is all of an expression statement. -/
theorem answers_assigned (hplain : q.shorthandsPlain) (hpattern : ∀ s', s'.Beside c →
      ((rules bound (depth + 1)).pattern f.triedParameter .parameter).Answers s' c' fun _ => True)
    (hend : c₃.rest = []) :
    (expression (rules bound (depth + 1)) f .ofStatement).Answers s c₃ fun y =>
      y.node.Alike (assigned q x.text) ∧ y.inserted := by
  obtain ⟨t, c₄, ht, hkind⟩ := starts_end hend
  obtain ⟨span, d, hmeets, -⟩ := hs.meets ho
  have hs : Reader.Beside ⟨s.cursor, none⟩ c₀ := .fresh hs.cursor
  have hsignature :=
    answers_signature hf hc₀ hs ho hopen hq he hequals hx hname hp hclose hpattern
  have hgroup := answers_group hf hc₀ hs ho hopen hq he hequals hx hname hp hclose hplain
  have hoperand : (operand (rules bound (depth + 1)) f .ofStatement).Answers s c₃ _ :=
    .of_eq (operand_openParenthesis hmeets hopen)
      (parenthesisedOperand_group (P := (·.Alike (assigned q x.text)))
        (parenthesisedArrow?_noArrow none hsignature ht hkind) hgroup ht hkind)
  obtain ⟨_, s', hread, hs', n, rfl, hn⟩ := hoperand
  obtain ⟨span', d', hmeets', -⟩ := hs'.meets ht
  obtain ⟨limit, hlimit⟩ := Nat.exists_eq_add_one.2 (Nat.zero_lt_of_lt hc₀.bound)
  refine ⟨⟨n, true⟩, ⟨s'.cursor, none⟩, (bind_ok hread).trans ?_, .fresh hs'.cursor, hn, rfl⟩
  rw [bound_rules, hlimit]
  exact iterate_done limit _ _ (operation_end rfl rfl rfl hmeets' hkind)

end

/-! ## Both ways -/

/-- The pattern behind a `var` at the start of a source: its tree without spans, and the text that is
left behind it. -/
def readDeclared (f : Frame) (text : List Char) : Option (Node × List Char) :=
  (readSource (Word.varWord.spelling.toList ++ text) fun rules => do
    let _ ← expectWord .varWord
    let p ← rules.pattern f .declaration
    return (p.bare, (← mark).rest)).toOption

section

variable {f : Frame} {text rest : List Char} {target : Node}

/-- The word is all that is read before the pattern. -/
theorem next_var {text : List Char} {t : Token} {c : Cursor}
    (h : Cursor.next .division (.ofSource (Word.varWord.spelling.toList ++ text)) = .ok (t, c))
    (ht : t.kind = .word .varWord) : c = ⟨text, 3⟩ := by
  obtain ⟨trivia, kind, l, htrivia, htoken, rfl, rfl⟩ := Cursor.next_eq_ok.1 h
  have hhash : (Word.varWord.spelling.toList ++ text).head? ≠ some '#' :=
    (by decide : some 'v' ≠ some '#')
  have hnone := Lexer.triviaAt_of_startsTrivia rfl hhash 0
  obtain rfl : _ = trivia := Except.ok.inj (hnone.symm.trans htrivia)
  obtain rfl : kind = .word .varWord := ht
  obtain rfl := Lexer.eq_of_token_word htoken
  rfl

/-- What was declared was read as a pattern behind the word. -/
theorem exists_pattern_of_readDeclared (h : readDeclared f text = some (target, rest)) :
    ∃ bound depth p r, Suffices bound depth ⟨text, 3⟩ ∧
      (rules bound depth).pattern f .declaration ⟨⟨text, 3⟩, none⟩ = .ok (p, r) ∧
      p.bare = target ∧ r.cursor.rest = rest := by
  let length := (Word.varWord.spelling.toList ++ text).length
  have hgives : (do
      let _ ← expectWord .varWord
      let p ← (rulesFor length).pattern f .declaration
      return (p.bare, (← mark).rest) : Parse _).Gives
        (.ofSource (Word.varWord.spelling.toList ++ text)) fun x _ => ∃ p r,
          (rulesFor length).pattern f .declaration ⟨⟨text, 3⟩, none⟩ = .ok (p, r) ∧
            p.bare = x.1 ∧ r.cursor.rest = x.2 := by
    have hcoherent : (Reader.ofSource (Word.varWord.spelling.toList ++ text)).Coherent :=
      Reader.coherent_fresh _
    show (expectIn (· == .word .varWord) >>= fun _ => _).Gives _ _
    refine .bind_expectIn hcoherent fun t c ht hkind => ?_
    obtain rfl := next_var ht (beq_iff_eq.1 hkind)
    exact .bind (fun _ _ hp => hp) fun p r hp => .pure ⟨p, r, hp, rfl, rfl⟩
  unfold readDeclared readSource at h
  split at h
  case h_1 x r hrun =>
    cases h
    obtain ⟨p, r', hp, htarget, hrest⟩ := hgives _ _ hrun
    exact ⟨_, _, p, r', ⟨by simp [length]; omega, by simp [length]; omega⟩, hp, htarget, hrest⟩
  all_goals cases h

/-- A pattern is no empty text. -/
theorem position_lt_of_pattern {bound depth : Nat} {kind : Binding} {c : Cursor} {p : Node}
    {r : Reader} (h : Suffices bound depth c)
    (hp : (rules bound depth).pattern f kind ⟨c, none⟩ = .ok (p, r)) :
    c.position < r.cursor.position := by
  obtain ⟨source, hstands⟩ := c.exists_standsIn
  have hgood : Reader.Good source (c.rest.length + 1) ⟨c, none⟩ :=
    ⟨hstands, Reader.coherent_fresh c, Nat.lt_succ_self _⟩
  have hruns := (h.proceeds source).pattern f kind hgood
  unfold Runs at hruns
  rw [hp] at hruns
  exact hruns.passes.lt hstands

/-- A pattern is one wherever its text stands. -/
theorem IsPattern.alike {c d c' : Cursor} {p : Node} (h : IsPattern f c p c') (hcd : c.Alike d) :
    IsPattern f d p c' where
  shorter := hcd.rest ▸ h.shorter
  first := by
    obtain ⟨t, c₁, ht, hfirst⟩ := h.first
    obtain ⟨span, d₁, ht', -⟩ := hcd.starts ht
    exact ⟨_, d₁, ht', hfirst⟩
  operand hplain hd hs hu hends :=
    h.operand hplain (hd.mono (hcd.rest ▸ le_rfl)) (hs.alike hcd) hu hends

/-- What is read behind a `var` as a pattern, up to an equals sign, is read in parentheses as the
target of an assignment, if no shorthand in it has a default. -/
theorem readExpression_assigned {name : String} (hf : f.Plain)
    (hrest : AssignsVariable ⟨rest, 1⟩ name) (h : readDeclared f text = some (target, rest))
    (hplain : target.shorthandsPlain) :
    readExpression f .ofStatement ('(' :: text) = some (⟨assigned target name, true⟩, []) := by
  obtain ⟨bound, depth, q, r, hc, hq, rfl, rfl⟩ := exists_pattern_of_readDeclared h
  obtain ⟨-, hpattern⟩ := patternsCross hf bound depth .declaration ⟨⟨text, 3⟩, none⟩ hc
    (Reader.coherent_fresh _) q r hq
  have hposition : 0 < r.cursor.position := Nat.zero_lt_of_lt (position_lt_of_pattern hc hq)
  have hcd : Cursor.Alike ⟨text, 3⟩ ⟨text, 0 + 1⟩ := .behind text (by decide) (by decide)
  obtain ⟨e, x, p, c₁, c₂, c₃, he, hequals, hx, hname, rfl, hp, hclose, hend⟩ :=
    (hrest.alike (.behind _ Nat.one_pos hposition)).tokens
  have hc₀ : Suffices (text.length + 1 + 2) (4 * (text.length + 1) + 2 + 1) ⟨'(' :: text, 0⟩ :=
    ⟨by simp, by simp; omega⟩
  have hs : Reader.Beside (.ofSource ('(' :: text)) ⟨'(' :: text, 0⟩ := .fresh ⟨rfl, .rfl⟩
  obtain ⟨y, s, hread, hs, halike, hinserted⟩ := answers_assigned hf hc₀ hs
    (Cursor.starts_openParenthesis text 0) rfl (hpattern.alike hcd) he hequals hx hname hp hclose
    (by rwa [← shorthandsPlain_bare])
    (fun s hs => answers_parameter hf hq (hc₀.mono (Nat.le_succ _)) (hs.alike hcd)) hend
  have hnode : y.node.bare = assigned q.bare x.text := halike.trans (bare_assigned q x.text)
  have hrules : rulesBelow ('(' :: text).length =
      rules (text.length + 1 + 2) (4 * (text.length + 1) + 2 + 1) := rfl
  rw [readExpression_eq, hrules, hread]
  dsimp only
  rw [hnode, hinserted, ← hs.cursor.rest, hend]

/-- An array with a default, an object with a pattern in it, and a rest. -/
theorem readExpression_assigned_nested : ∃ target,
    readDeclared (.topLevel false) "[a=1,{b:{c}},...d]=x)".toList = some (target, "=x)".toList) ∧
      target.shorthandsPlain ∧
      readExpression (.topLevel false) .ofStatement "([a=1,{b:{c}},...d]=x)".toList =
        some (⟨assigned target "x", true⟩, []) := by
  have hx : AssignsVariable ⟨"=x)".toList, 1⟩ "x" :=
    ⟨_, _, _, _, _, _, (fun mode => by cases mode <;> rfl : Cursor.Starts _ _ _), rfl,
      (fun mode => by cases mode <;> rfl : Cursor.Starts _ _ _), rfl, rfl,
      (fun mode => by cases mode <;> rfl : Cursor.Starts _ _ _), rfl, rfl⟩
  have hdeclared : (readDeclared (.topLevel false) "[a=1,{b:{c}},...d]=x)".toList).any fun x =>
      x.1.shorthandsPlain && x.2 == "=x)".toList := by decide +kernel
  obtain ⟨hsome, h⟩ := Option.any_eq_true_iff_get _ _ |>.1 hdeclared
  obtain ⟨⟨target, rest⟩, hread⟩ := Option.isSome_iff_exists.1 hsome
  simp only [hread, Option.get_some, Bool.and_eq_true, beq_iff_eq] at h
  obtain ⟨hplain, rfl⟩ := h
  exact ⟨target, hread, hplain, readExpression_assigned ⟨rfl, rfl, rfl⟩ hx hread hplain⟩

/-- A shorthand with a default is read behind a `var`, but not in parentheses. -/
example :
    (readDeclared (.topLevel false) "{a=1}=x)".toList).map (·.2) = some "=x)".toList ∧
      readExpression (.topLevel false) .ofStatement "({a=1}=x)".toList = none := by
  decide +kernel

end

end ScriptMin.Grammar
