import ScriptMin.Proofs.Elsewhere.DeclaredPattern
import ScriptMin.Proofs.Elsewhere.LoneParameter

/-!
# Patterns read as literals

Where a pattern stands, an operand is read as a literal that stands for the pattern, in sloppy code
outside generators and async functions. The elements and properties that were found by
`IsElements` and `IsProperties` are met again one by one, by another reader: a target and its
default are one expression there, and the words `get`, `set` and `async` are looked at as modifiers
first.
-/

namespace ScriptMin.Grammar

open Source Parse Node

/-! ## Operands and assignments -/

/-- Code that is sloppy and stands neither in a generator nor in an async function. -/
structure Frame.Plain (f : Frame) : Prop where
  generator : f.generator = false
  isAsync : f.isAsync = false
  strict : f.strict = false

section

variable {f : Frame} (hf : f.Plain)

include hf

theorem Frame.Plain.checkReference (name : Name) : checkReference f name = .ok () := by
  simp [Grammar.checkReference, checkYield, hf.generator, hf.strict]

theorem Frame.Plain.checkNumber (t : Token) : checkNumber f t = .ok () := by
  simp [Grammar.checkNumber, hf.strict]

/-- A name is a variable where nothing follows that makes it a function. -/
theorem operand_variable {rules : Rules} {e : Extent} {s : Reader} {c c' : Cursor} {n u : Token}
    (hn : s.Meets n c) (hname : n.kind.isBindingName) (hu : c.Starts u c')
    (hends : u.kind.endsTarget) :
    operand rules f e s =
      .ok (.plain ⟨n.span, .identifier n.text⟩, ⟨c, some ⟨u, .division, c'⟩⟩) := by
  have hu := Reader.Meets.fresh hu
  obtain ⟨q, hq⟩ : ∃ q, u.kind = .punctuator q := by
    generalize u.kind = kind at hends ⊢
    cases kind <;> first | exact ⟨_, rfl⟩ | cases hends
  have harrow : (u.kind == .punctuator .arrow) = false := by
    rw [hq] at hends ⊢
    cases q <;> first | rfl | cases hends
  by_cases hasync : n.kind = .word .asyncWord
  · refine (operand_async hn hasync).trans ((bind_ok (peekIn_ok hu _)).trans ?_)
    rw [hq] at hends ⊢
    cases u.afterNewline
    case true => rfl
    case false => cases q <;> first | rfl | cases hends
  · refine (operand_name hn hname hasync (fun h => by simp [hf.isAsync] at h)
      fun h => by simp [hf.generator] at h).trans ?_
    refine (bind_ok (atPunctuator_ok hu _)).trans ?_
    rw [harrow, hf.checkReference]
    rfl

end

/-- The reach of an expression that can be an assignment. -/
structure Extent.TakesAssignment (e : Extent) : Prop where
  minimum : e.minimum ≤ assignmentPrecedence
  equals : e.stops.contains (.punctuator .equals) = false

section

variable {rules : Rules} {f : Frame} {e : Extent} {s : Reader} {c c' c₁ c₂ d : Cursor} {t u : Token}
  {p : Node}

/-- A token that ends the expression is left. -/
theorem operation_stop {progress : Progress} (hinserted : progress.inserted = false)
    (hu : s.Meets u d) (hstop : e.stops.contains u.kind) :
    operation rules f e progress s = .ok (.done progress.reading, ⟨s.cursor, none⟩) := by
  unfold operation
  simp only [hinserted, Bool.false_eq_true, if_false]
  refine (bind_ok (mark_ok s)).trans ((bind_ok (nextIn_ok hu _)).trans ?_)
  simp only [hstop, if_true]
  rfl

/-- An equals sign takes a target and a value. -/
theorem operation_assign {left target : Node} {right : Reading} {s' : Reader}
    (he : e.TakesAssignment) (hu : s.Meets u d) (hequals : u.kind = .punctuator .equals)
    (hleft : assignmentTarget .assign left = .ok target)
    (hright : rules.expression f e.assignment ⟨d, none⟩ = .ok (right, s')) :
    operation rules f e ⟨left, false, false, none⟩ s =
      .ok (.again ⟨⟨left.span.cover right.node.span, .assignment .assign target right.node⟩, false,
        right.inserted, none⟩, s') := by
  unfold operation
  simp only [Bool.false_eq_true, if_false]
  refine (bind_ok (mark_ok s)).trans ((bind_ok (nextIn_ok hu _)).trans ?_)
  have hrightOf : rightOf rules f e ⟨left, false, false, none⟩ (.assignment .assign) u ⟨d, none⟩ =
      .ok (⟨⟨left.span.cover right.node.span, .assignment .assign target right.node⟩, false,
        right.inserted, none⟩, s') := by
    have htarget : (check (assignmentTarget .assign left) : Parse Node) ⟨d, none⟩ =
        .ok (target, ⟨d, none⟩) := by
      rw [hleft]
      rfl
    exact (bind_ok htarget).trans (bind_ok hright)
  have hminimum : ¬ (Operator.assignment .assign).precedence < e.minimum :=
    Nat.not_lt.2 he.minimum
  simp only [hequals, he.equals, Bool.false_eq_true, if_false,
    show (Kind.punctuator .equals).operator? = some (.assignment .assign) from rfl, hminimum,
    Bool.false_and]
  exact bind_ok hrightOf

/-- An operand is all of an expression before a token that ends it. -/
theorem answers_operand {P : Node → Prop}
    (ho : (operand rules f e).Answers s c fun o => ∃ n, o = .plain n ∧ P n) (hu : c.Starts u c')
    (hstop : e.stops.contains u.kind) (hbound : 0 < rules.bound) :
    (expression rules f e).Answers s c fun x => P x.node := by
  obtain ⟨_, s', hoperand, hs', n, rfl, hn⟩ := ho
  obtain ⟨span, d, hmeets, -⟩ := hs'.meets hu
  obtain ⟨bound, hbound⟩ := Nat.exists_eq_add_one.2 hbound
  refine ⟨⟨n, false⟩, ⟨s'.cursor, none⟩, ?_, .fresh hs'.cursor, hn⟩
  refine (bind_ok hoperand).trans ?_
  rw [hbound]
  exact iterate_done bound _ _ (operation_stop rfl hmeets hstop)

/-- An operand that stands for a pattern is the target of an assignment before an equals sign. -/
theorem answers_defaulted {right : Node} (he : e.TakesAssignment)
    (ho : (operand rules f e).Answers s c (·.Covers p)) (hu : c.Starts u c')
    (hequals : u.kind = .punctuator .equals)
    (hright : ∀ d, c'.Alike d →
      (rules.expression f e.assignment).Answers ⟨d, none⟩ c₁ (·.node.Alike right))
    (ht : c₁.Starts t c₂) (hstop : e.stops.contains t.kind) (hbound : 1 < rules.bound) :
    (expression rules f e).Answers s c₁ (·.node.CoversPart p (some right)) := by
  obtain ⟨_, s', hoperand, hs', n, rfl, hn⟩ := ho
  obtain ⟨span, d, hmeets, hd⟩ := hs'.meets hu
  obtain ⟨target, hassigned, htarget, hp⟩ := hn.assigned
  obtain ⟨value, s₁, hvalue, hs₁, hright⟩ := hright d hd
  obtain ⟨bound, hbound⟩ : ∃ bound, rules.bound = bound + 1 + 1 := ⟨rules.bound - 2, by omega⟩
  have hround := operation_assign he hmeets hequals hassigned hvalue
  let node : Node := ⟨n.span.cover value.node.span, .assignment .assign target value.node⟩
  have hpart : node.CoversPart p (some right) := .defaulted rfl htarget hp hright
  have hexpression : expression rules f e s =
      iterate (operation rules f e) (bound + 1) ⟨node, false, value.inserted, none⟩ s₁ := by
    refine (bind_ok hoperand).trans ?_
    rw [hbound]
    exact bind_ok hround
  -- the second round ends the expression, with a semicolon or without one
  cases hinserted : value.inserted with
  | true =>
    refine ⟨⟨node, true⟩, s₁, hexpression.trans (iterate_done bound _ _ ?_), hs₁, hpart⟩
    rw [hinserted]
    rfl
  | false =>
    obtain ⟨span', d', hmeets', -⟩ := hs₁.meets ht
    refine ⟨⟨node, false⟩, ⟨s₁.cursor, none⟩, hexpression.trans (iterate_done bound _ _ ?_),
      .fresh hs₁.cursor, hpart⟩
    rw [hinserted]
    exact operation_stop rfl hmeets' hstop

end

/-! ## Parts with their defaults -/

section

variable {bound depth : Nat} {f : Frame} {s : Reader} {c c₀ c₁ c₂ d : Cursor} {t u : Token}
  {p : Node} {fallback : Option Node}

/-- A target and its default are read as one expression, up to the comma or bracket behind it. -/
theorem answers_part {stop : Punctuator} (hstop : stop = .closeBracket ∨ stop = .closeBrace)
    (hp : IsPattern f c p c₁) (hfallback : IsFallback f stop c₁ fallback c₂)
    (hplain : p.shorthandsPlain) (h : Suffices bound depth c) (hs : s.Beside c)
    (hu : c₂.Starts u d) (hends : u.kind = .punctuator .comma ∨ u.kind = .punctuator stop) :
    ((rules bound (depth + 1)).expression f (.single [.comma, stop])).Answers s c₂
      (·.node.CoversPart p fallback) := by
  have hbound : 1 < (rules bound depth).bound := by
    have := h.bound
    have := hp.shorter
    rw [bound_rules]
    omega
  have he : (Extent.single [.comma, stop]).TakesAssignment :=
    ⟨le_rfl, by rcases hstop with rfl | rfl <;> decide⟩
  have hcontains : (Extent.single [.comma, stop]).stops.contains u.kind := by
    rcases hends with hu | hu <;> simp [Extent.single, hu]
  cases hfallback with
  | none =>
    have hends : u.kind.endsTarget := by
      rcases hstop with rfl | rfl <;> rcases hends with hu | hu <;> rw [hu] <;> rfl
    exact (answers_operand (hp.operand hplain h hs hu hends) hu hcontains (by omega)).mono
      fun _ hn => .plain hn
  | some ht hequals hx =>
    have hoperand := hp.operand (e := .single [.comma, stop]) hplain h hs ht (by rw [hequals]; rfl)
    have hle := (ht.shorter hequals).le.trans hp.shorter.le
    exact answers_defaulted he hoperand ht hequals (fun d hd => hx.answers (h.mono hle) hd) hu
      hcontains hbound

theorem answers_single {stop : Punctuator} (hstop : stop = .closeBracket ∨ stop = .closeBrace)
    (hp : IsPattern f c p c₁) (hfallback : IsFallback f stop c₁ fallback c₂)
    (hplain : p.shorthandsPlain) (h : Suffices bound depth c) (hs : s.Beside c)
    (hu : c₂.Starts u d) (hends : u.kind = .punctuator .comma ∨ u.kind = .punctuator stop) :
    ((rules bound (depth + 1)).single f [.comma, stop]).Answers s c₂ (·.CoversPart p fallback) :=
  (answers_part hstop hp hfallback hplain h hs hu hends).bind fun _ _ hs hx => .pure hs hx

end

/-! ## Array literals -/

/-- What stands behind a part of a literal: a comma, or the bracket that ends it. -/
def behindPart {α : Type} (close : Punctuator) (read : List α) :
    Parse (Round (List α) (List α)) := do
  if ← atPunctuator close then return .done read
  else
    let _ ← expectPunctuator .comma
    return .again read

/-- A round of an array literal. -/
def arrayRound (rules : Rules) (f : Frame) (read : List (ArrayElement Node)) :
    Parse (Round (List (ArrayElement Node)) (List (ArrayElement Node))) := do
  if ← tookPunctuator .comma then return Round.again (.hole :: read)
  else if ← atPunctuator .closeBracket then return .done read
  else
    let isSpread ← tookPunctuator .ellipsis
    let value ← rules.single f [.comma, .closeBracket]
    behindPart .closeBracket ((if isSpread then .spread value else .item value) :: read)

theorem arrayLiteral_eq (rules : Rules) (f : Frame) (first : Token) :
    arrayLiteral rules f first = do
      let reversed ← iterate (arrayRound rules f) rules.bound []
      let close ← expectPunctuator .closeBracket
      return ⟨first.span.cover close.span, .arrayLiteral reversed.reverse⟩ := rfl

section

variable {α : Type} {rules : Rules} {f : Frame} {s : Reader} {c c₀ c₁ c₂ : Cursor} {t u : Token}

theorem behindPart_comma {close : Punctuator} (read : List α) (hs : s.Beside c)
    (hu : c.Starts u c₁) (hcomma : u.kind = .punctuator .comma)
    (hclose : close ≠ .comma := by decide) :
    (behindPart close read).Answers s c₁ (· = .again read) :=
  .if_notAt hs hu (by simpa [hcomma] using hclose.symm) fun _ hs =>
    .bind_expectPunctuator hs hu hcomma fun _ _ hd => .pure (.fresh hd) rfl

theorem behindPart_close {close : Punctuator} (read : List α) (hs : s.Beside c)
    (hu : c.Starts u c₁) (hclose : u.kind = .punctuator close) :
    (behindPart close read).Answers s c (· = .done read) :=
  .if_at hs hu hclose fun _ hs => .pure hs rfl

variable {read : List (ArrayElement Node)} {P : Node → Prop}

theorem arrayRound_hole (hs : s.Beside c) (ht : c.Starts t c₁)
    (hcomma : t.kind = .punctuator .comma) :
    (arrayRound rules f read).Answers s c₁ (· = .again (.hole :: read)) :=
  .took hs ht hcomma fun _ hd => .pure (.fresh hd) rfl

theorem arrayRound_close (hs : s.Beside c) (ht : c.Starts t c₁)
    (hclose : t.kind = .punctuator .closeBracket) :
    (arrayRound rules f read).Answers s c (· = .done read) :=
  .notTook hs ht (by simp [hclose]) fun _ hs => .if_at hs ht hclose fun _ hs => .pure hs rfl

/-- An element, and what the round comes to by what stands behind it. -/
theorem arrayRound_item {y : List (ArrayElement Node) → Round _ _} (hs : s.Beside c)
    (ht : c.Starts t c₀) (hfirst : t.kind.startsPattern)
    (hvalue : ∀ s', s'.Beside c → (rules.single f [.comma, .closeBracket]).Answers s' c₁ P)
    (hbehind : ∀ n s', s'.Beside c₁ →
      (behindPart .closeBracket (.item n :: read)).Answers s' c₂ (· = y (.item n :: read))) :
    (arrayRound rules f read).Answers s c₂ fun x => ∃ n, x = y (.item n :: read) ∧ P n :=
  .notTook hs ht (Kind.ne_punctuator hfirst) fun _ hs =>
    .if_notAt hs ht (Kind.ne_punctuator hfirst) fun _ hs =>
      .notTook hs ht (Kind.ne_punctuator hfirst) fun _ hs =>
        (hvalue _ hs).bind fun n _ hs hn => (hbehind n _ hs).mono fun _ hx => ⟨n, hx, hn⟩

theorem arrayRound_spread {y : List (ArrayElement Node) → Round _ _} (hs : s.Beside c)
    (ht : c.Starts t c₀) (hellipsis : t.kind = .punctuator .ellipsis)
    (hvalue : ∀ s', s'.Beside c₀ → (rules.single f [.comma, .closeBracket]).Answers s' c₁ P)
    (hbehind : ∀ n s', s'.Beside c₁ →
      (behindPart .closeBracket (.spread n :: read)).Answers s' c₂ (· = y (.spread n :: read))) :
    (arrayRound rules f read).Answers s c₂ fun x => ∃ n, x = y (.spread n :: read) ∧ P n :=
  .notTook hs ht (by simp [hellipsis]) fun _ hs => .if_notAt hs ht (by simp [hellipsis]) fun _ hs =>
    .took hs ht hellipsis fun _ hd => (hvalue _ (.fresh hd)).bind fun n _ hs hn =>
      (hbehind n _ hs).mono fun _ hx => ⟨n, hx, hn⟩

end

section

variable {bound depth : Nat} {f : Frame} {c c₁ c₂ c' d : Cursor} {t u : Token}
  {elements : List (Option (Defaulted Node))} {rest : Option Node}

/-- The elements of a pattern are read as the elements of a literal that stand for them. -/
theorem IsElements.answers (h : IsElements f c elements rest c')
    (hplain : ∀ e ∈ elements, ∀ d ∈ e, d.target.shorthandsPlain)
    (hrest : ∀ p ∈ rest, p.shorthandsPlain) (hu : c'.Starts u d)
    (hclose : u.kind = .punctuator .closeBracket) (hc : Suffices bound depth c) {limit : Nat}
    (hlimit : c.rest.length < limit) {s : Reader} (hs : s.Beside c)
    (read : List (ArrayElement Node)) :
    (iterate (arrayRound (rules bound (depth + 1)) f) limit read).Answers s c' fun result =>
      ∃ body last, result = (body ++ last).reverse ++ read ∧
        List.Forall₂ ArrayElement.Covers body elements ∧ CoversRest last rest := by
  induction h generalizing limit s read with
  | close =>
    obtain ⟨limit, rfl⟩ := Nat.exists_eq_add_one.2 (Nat.zero_lt_of_lt hlimit)
    refine .bind (arrayRound_close hs hu hclose) ?_
    rintro _ _ hs rfl
    exact .pure hs ⟨[], [], rfl, .nil, .none⟩
  | @rest c c₁ _ t p ht hellipsis hp =>
    obtain ⟨limit, rfl⟩ := Nat.exists_eq_add_one.2 (Nat.zero_lt_of_lt hlimit)
    have hc₁ := hc.mono (ht.shorter hellipsis).le
    have hvalue (s : Reader) (hs : s.Beside c₁) :=
      answers_single (.inl rfl) hp .none (hrest _ rfl) hc₁ hs hu (.inr hclose)
    refine .bind (arrayRound_spread hs ht hellipsis hvalue fun n _ hs =>
      behindPart_close _ hs hu hclose) ?_
    rintro _ _ hs ⟨n, rfl, hn⟩
    cases hn with
    | plain hn => exact .pure hs ⟨[], [.spread n], rfl, .nil, .some hn⟩
  | hole ht hcomma _ ih =>
    obtain ⟨limit, rfl⟩ := Nat.exists_eq_add_one.2 (Nat.zero_lt_of_lt hlimit)
    have hshorter := ht.shorter hcomma
    refine .bind (arrayRound_hole hs ht hcomma) ?_
    rintro _ s₁ hs₁ rfl
    refine (ih (fun e he => hplain e (List.mem_cons_of_mem _ he)) hrest hu (hc.mono hshorter.le)
      (by omega) hs₁ _).mono ?_
    rintro _ ⟨body, last, rfl, hbody, hlast⟩
    exact ⟨.hole :: body, last, by simp, .cons .hole hbody, hlast⟩
  | @last c _ _ p fallback hp hfallback =>
    obtain ⟨limit, rfl⟩ := Nat.exists_eq_add_one.2 (Nat.zero_lt_of_lt hlimit)
    obtain ⟨t, c₀, ht, hfirst⟩ := hp.first
    have hvalue (s : Reader) (hs : s.Beside c) :=
      answers_single (.inl rfl) hp hfallback (hplain _ List.mem_cons_self _ rfl) hc hs hu
        (.inr hclose)
    refine .bind (arrayRound_item hs ht hfirst hvalue fun n _ hs =>
      behindPart_close _ hs hu hclose) ?_
    rintro _ _ hs ⟨n, rfl, hn⟩
    exact .pure hs ⟨[.item n], [], rfl, .cons (.item hn) .nil, .none⟩
  | @item c _ _ _ _ _ p fallback elements rest hp hfallback hnext hcomma _ ih =>
    obtain ⟨limit, rfl⟩ := Nat.exists_eq_add_one.2 (Nat.zero_lt_of_lt hlimit)
    obtain ⟨t, c₀, ht, hfirst⟩ := hp.first
    have hvalue (s : Reader) (hs : s.Beside c) :=
      answers_single (.inl rfl) hp hfallback (hplain _ List.mem_cons_self _ rfl) hc hs hnext
        (.inl hcomma)
    have hshorter := (hnext.shorter hcomma).trans_le (hfallback.le.trans hp.shorter.le)
    refine .bind (arrayRound_item hs ht hfirst hvalue fun n _ hs =>
      behindPart_comma _ hs hnext hcomma) ?_
    rintro _ s₁ hs₁ ⟨n, rfl, hn⟩
    refine (ih (fun e he => hplain e (List.mem_cons_of_mem _ he)) hrest hu (hc.mono hshorter.le)
      (by omega) hs₁ _).mono ?_
    rintro _ ⟨body, last, rfl, hbody, hlast⟩
    exact ⟨.item n :: body, last, by simp, .cons (.item hn) hbody, hlast⟩

theorem operand_openBracket {rules : Rules} {e : Extent} {s : Reader} (ht : s.Meets t c)
    (hopen : t.kind = .punctuator .openBracket) :
    operand rules f e s = (do return .plain (← arrayLiteral rules f t) : Parse _) ⟨c, none⟩ := by
  refine (bind_ok (mark_ok s)).trans ((bind_ok (nextIn_ok ht _)).trans ?_)
  simp only [hopen]
  rfl

/-- A pattern in brackets is an array literal. -/
theorem isPattern_array (span : Span) (ht : c.Starts t c₁)
    (hopen : t.kind = .punctuator .openBracket) (h : IsElements f c₁ elements rest c₂)
    (hu : c₂.Starts u c') (hclose : u.kind = .punctuator .closeBracket) :
    IsPattern f c ⟨span, .arrayPattern elements rest⟩ c' where
  shorter := (hu.shorter hclose).trans_le (h.le.trans (ht.shorter hopen).le)
  first := ⟨t, c₁, ht, by rw [hopen]; rfl⟩
  operand {bound depth e s} _ _ hplain hc hs _ _ := by
    obtain ⟨depth, rfl⟩ := hc.exists_inner
    obtain ⟨span', d, hmeets, hd⟩ := hs.meets ht
    obtain ⟨helements, hrest⟩ := shorthandsPlain_array.1 hplain
    have hc₁ := hc.inner (ht.shorter hopen)
    have hrounds := h.answers helements hrest hu hclose hc₁ hc₁.bound (.fresh hd) []
    refine .of_eq (operand_openBracket hmeets hopen) (.bind (.bind hrounds ?_) fun n _ hs hn =>
      .pure hs ⟨n, rfl, hn⟩)
    rintro _ s hs ⟨body, last, rfl, hbody, hlast⟩
    refine .bind_expectPunctuator hs hu hclose fun _ d hd => .pure (.fresh hd) ?_
    rw [List.append_nil, List.reverse_reverse]
    exact covers_array hbody hlast

end

/-! ## Object literals -/

/-- A round of an object literal. -/
def objectRound (rules : Rules) (f : Frame) (read : List Node) :
    Parse (Round (List Node) (List Node)) := do
  if ← atPunctuator .closeBrace then return Round.done read
  else
    let place ← mark
    let content ←
      if ← tookPunctuator .ellipsis then
        pure (.spread (← rules.single f [.comma, .closeBrace]))
      else
        let (key, value) ← member rules f .object
        pure (objectMemberContent key value)
    let span ← spanFrom place
    behindPart .closeBrace (⟨span, .objectMember content⟩ :: read)

theorem objectLiteral_eq (rules : Rules) (f : Frame) (first : Token) :
    objectLiteral rules f first = do
      let reversed ← iterate (objectRound rules f) rules.bound []
      let close ← expectPunctuator .closeBrace
      return ⟨first.span.cover close.span, .objectLiteral reversed.reverse⟩ := rfl

/-! ### Members -/

section

variable {bound depth : Nat} {f : Frame} {s : Reader} {c c₁ c₂ c' d : Cursor} {t u : Token}
  {k : Key Node} {p : Node}

/-- A word before the end of a key is no modifier. -/
theorem answers_modifier (hs : s.Beside c) (ht : c.Starts t c₁)
    (hbehind : (Modifier.ofKind? t.kind).isSome → ∃ u c₂, c₁.Starts u c₂ ∧ u.kind.endsKey) :
    (modifier .object).Answers s c (· = none) := by
  refine .step (mark_ok s) ?_
  cases hmodifier : Modifier.ofKind? t.kind with
  | none =>
    refine .bind_takeIf_none hs ht (by simp [hmodifier]) fun s₁ hs₁ => ?_
    exact .pure hs₁ rfl
  | some m =>
    obtain ⟨u, c₂, hu, hends⟩ := hbehind (by rw [hmodifier]; rfl)
    refine .bind_takeIf hs ht (by simp [hmodifier]) fun _ d hd => ?_
    simp only [Option.bind_some, hmodifier]
    refine .bind_peek (.fresh hd) hu fun span s₂ hs₂ => ?_
    have hkey : endsKey .object { u with span } = true := by
      unfold Kind.endsKey at hends
      split at hends
      case h_4 => cases hends
      all_goals next hu => simp [endsKey, MemberHost.valueMark, MemberHost.separator, hu]
    simp only [hkey, Bool.true_or, if_true]
    exact .step (rewind_ok s.cursor s₂) (.pure (.fresh hs.cursor) rfl)

/-- A key is read as the same key. -/
theorem IsKey.answers (hf : f.Plain) (h : IsKey f c k c') (hc : Suffices bound depth c)
    (hs : s.Beside c) :
    (key (rules bound depth) f).Answers s c' fun k' => k'.map bare = k.map bare := by
  cases h with
  | @direct _ t ht hname =>
    have hopen : t.kind ≠ .punctuator .openBracket := by
      intro hopen
      rw [hopen] at hname
      cases hname
    refine .notTook hs ht hopen fun s₁ hs₁ => ?_
    refine .bind_expectIn hs₁ ht hname fun span d hd => ?_
    rw [hf.checkNumber]
    exact .pure (.fresh hd) rfl
  | computed ht hopen hx hu hclose =>
    refine .took hs ht hopen fun d hd => ?_
    refine (hx.whole (hc.mono (ht.shorter hopen).le) hd).bind fun x s₁ hs₁ hx => ?_
    exact .bind_expectPunctuator hs₁ hu hclose fun _ _ hd => .pure (.fresh hd)
      (congrArg Key.computed hx)

/-- A member that is a key and a property. -/
theorem answers_member {V : Key Node → MemberValue Node → Prop} (hf : f.Plain)
    (hkey : IsKey f c k c₁) (hc : Suffices bound (depth + 1) c) (hs : s.Beside c)
    (hu : c₁.Starts u d) (hends : u.kind.endsKey)
    (hproperty : ∀ t c₀ span k' s', c.Starts t c₀ → s'.Beside c₁ → k'.map bare = k.map bare →
      (property (rules bound (depth + 1)) f .object { t with span } k').Answers s' c' (V k')) :
    (member (rules bound (depth + 1)) f .object).Answers s c' fun (k', v) =>
      k'.map bare = k.map bare ∧ V k' v := by
  obtain ⟨t, c₀, ht, hfirst, hword⟩ := hkey.first
  refine .bind (answers_modifier hs ht fun h => ⟨u, d, hword h ▸ hu, hends⟩) ?_
  rintro _ s₁ hs₁ rfl
  refine .notTook hs₁ ht (Kind.ne_punctuator hfirst) fun s₂ hs₂ => ?_
  refine .bind_peek hs₂ ht fun span s₃ hs₃ => ?_
  refine (hkey.answers hf hc hs₃).bind fun k' s₄ hs₄ hk => ?_
  refine .if_notAt hs₄ hu (Kind.ne_punctuator hends) fun s₅ hs₅ => ?_
  exact (hproperty t c₀ span k' s₅ ht hs₅ hk).bind fun v s₆ hs₆ hv => .pure hs₆ ⟨hk, hv⟩

/-- A key alone is a shorthand. -/
theorem property_shorthand {rules : Rules} (hf : f.Plain) (first : Token)
    (hname : first.kind.isBindingName) (name : String) (hs : s.Beside c) (hu : c.Starts u d)
    (hends : u.kind = .punctuator .comma ∨ u.kind = .punctuator .closeBrace) :
    (property rules f .object first (.direct name)).Answers s c (· = .property none) := by
  unfold property
  extract_lets shorthand extent rest
  refine .bind_peek hs hu fun span s₁ hs₁ => ?_
  have hbare : endsMember .object { u with span } = true := by
    rcases hends with hu | hu <;> simp [endsMember, MemberHost.separator, hu]
  rw [hbare]
  show (if first.kind.isBindingName then _ else _ : Parse _).Answers s₁ c _
  rw [if_pos hname, hf.checkReference]
  exact .pure hs₁ rfl

/-- A key with a value. -/
theorem property_valued {rules : Rules} {first : Token} {P : Node → Prop} (k : Key Node)
    (hs : s.Beside c) (hu : c.Starts u c₁) (hcolon : u.kind = .punctuator .colon)
    (hvalue : ∀ s', s'.Beside c₁ →
      (rules.expression f (.single [.comma, .closeBrace])).Answers s' c₂ fun x => P x.node) :
    (property rules f .object first k).Answers s c₂ fun v => ∃ n, v = .property (some n) ∧ P n := by
  unfold property
  extract_lets shorthand extent rest
  have hrest {s : Reader} (hs : s.Beside c) :
      (rest false).Answers s c₂ fun v => ∃ n, v = .property (some n) ∧ P n := by
    refine .bind_expectPunctuator hs hu hcolon fun _ d hd => ?_
    exact (hvalue _ (.fresh hd)).bind fun x s₂ hs₂ hx => .pure hs₂ ⟨x.node, rfl, hx⟩
  cases k with
  | computed => exact hrest hs
  | direct name =>
    refine .bind_peek hs hu fun span s₁ hs₁ => ?_
    have hbare : endsMember .object { u with span } = false := by
      simp [endsMember, MemberHost.separator, hcolon]
    rw [hbare]
    exact hrest hs₁

/-- A property is read as a member that stands for it. -/
theorem IsProperty.answers (hf : f.Plain) (h : IsProperty f c p c') (hplain : p.shorthandsPlain)
    (hc : Suffices bound depth c) (hs : s.Beside c) (hu : c'.Starts u d)
    (hends : u.kind = .punctuator .comma ∨ u.kind = .punctuator .closeBrace) :
    (member (rules bound (depth + 1)) f .object).Answers s c' fun (key, value) => ∀ span,
      CoversProperty ⟨span, .objectMember (objectMemberContent key value)⟩ p := by
  cases h with
  | @shorthand _ _ t fallback span' ht hname hfallback =>
    obtain ⟨hnone, -⟩ := shorthandsPlain_property.1 hplain
    obtain rfl := hnone rfl
    cases hfallback
    have hkey : IsKey f c (.direct t.text) c' :=
      .direct ht (Kind.isPropertyName_of_isBindingName hname)
    have hends' : u.kind.endsKey := by rcases hends with hu | hu <;> rw [hu] <;> rfl
    refine (answers_member (V := fun _ v => v = .property none) hf hkey hc.succ hs hu hends'
      fun t' c₀ span k s ht' hs hk => ?_).mono ?_
    · obtain ⟨rfl, rfl⟩ : t' = t ∧ c₀ = c' := by simpa [ht .division, eq_comm] using ht' .division
      cases k with
      | computed => cases hk
      | direct name => exact property_shorthand hf { t' with span } hname name hs hu hends
    · rintro ⟨k, v⟩ ⟨hk, rfl⟩ span
      cases k with
      | computed => cases hk
      | direct name =>
        obtain rfl : name = t.text := by simpa [Key.map] using hk
        exact .shorthand span span' t.span t.text
  | @valued c₁ c₂ c₃ _ t key p fallback span' hkey ht hcolon hp hfallback =>
    have hc₂ := hc.mono ((ht.shorter hcolon).trans hkey.shorter).le
    obtain ⟨-, hplain⟩ := shorthandsPlain_property.1 hplain
    refine (answers_member (V := fun _ v => ∃ n, v = .property (some n) ∧ n.CoversPart p fallback) hf
      hkey hc.succ hs ht (by rw [hcolon]; rfl) fun _ _ _ k s _ hs _ => ?_).mono ?_
    · exact property_valued k hs ht hcolon fun s hs =>
        answers_part (.inr rfl) hp hfallback hplain hc₂ hs hu hends
    · rintro ⟨k, v⟩ ⟨hk, n, rfl, hn⟩ span
      have hcontent : objectMemberContent k (.property (some n)) =
          .valued k (.property (some n)) := by
        cases k <;> rfl
      rw [hcontent]
      exact .valued span span' hk hn

end

/-! ### Members in a row -/

section

variable {rules : Rules} {f : Frame} {s : Reader} {c c₀ c₁ c₂ : Cursor} {t u : Token}
  {read : List Node} {y : List Node → Round (List Node) (List Node)}

theorem objectRound_close (hs : s.Beside c) (ht : c.Starts t c₁)
    (hclose : t.kind = .punctuator .closeBrace) :
    (objectRound rules f read).Answers s c (· = .done read) :=
  .if_at hs ht hclose fun _ hs => .pure hs rfl

theorem objectRound_member {M : Key Node × MemberValue Node → Prop} (hs : s.Beside c)
    (ht : c.Starts t c₀) (hfirst : t.kind.startsKey)
    (hmember : ∀ s', s'.Beside c → (member rules f .object).Answers s' c₁ M)
    (hbehind : ∀ n s', s'.Beside c₁ →
      (behindPart .closeBrace (n :: read)).Answers s' c₂ (· = y (n :: read))) :
    (objectRound rules f read).Answers s c₂ fun x => ∃ span key value, M (key, value) ∧
      x = y (⟨span, .objectMember (objectMemberContent key value)⟩ :: read) := by
  refine .if_notAt hs ht (Kind.ne_punctuator hfirst) fun s₁ hs₁ => .step (mark_ok s₁) ?_
  extract_lets rest
  refine .notTook hs₁ ht (Kind.ne_punctuator hfirst) fun s₂ hs₂ => ?_
  refine (hmember s₂ hs₂).bind fun ⟨key, value⟩ s₃ hs₃ hm => ?_
  have hrest : (rest (objectMemberContent key value)).Answers s₃ c₂ _ :=
    .step (spanFrom_ok _ s₃) (hbehind _ s₃ hs₃)
  exact hrest.mono fun x hx => ⟨_, key, value, hm, hx⟩

theorem objectRound_spread {P : Node → Prop} (hs : s.Beside c) (ht : c.Starts t c₀)
    (hellipsis : t.kind = .punctuator .ellipsis)
    (hvalue : ∀ s', s'.Beside c₀ → (rules.single f [.comma, .closeBrace]).Answers s' c₁ P)
    (hbehind : ∀ n s', s'.Beside c₁ →
      (behindPart .closeBrace (n :: read)).Answers s' c₂ (· = y (n :: read))) :
    (objectRound rules f read).Answers s c₂ fun x => ∃ span n, P n ∧
      x = y (⟨span, .objectMember (.spread n)⟩ :: read) := by
  refine .if_notAt hs ht (by simp [hellipsis]) fun s₁ hs₁ => .step (mark_ok s₁) ?_
  extract_lets rest
  refine .took hs₁ ht hellipsis fun d hd => ?_
  refine (hvalue _ (.fresh hd)).bind fun n s₂ hs₂ hn => ?_
  have hrest : (rest (.spread n)).Answers s₂ c₂ _ := .step (spanFrom_ok _ s₂) (hbehind _ s₂ hs₂)
  exact hrest.mono fun x hx => ⟨_, n, hn, hx⟩

end

section

variable {bound depth : Nat} {f : Frame} {c c₁ c₂ c' d : Cursor} {t u : Token}
  {properties : List Node} {rest : Option Node} (hf : f.Plain)

include hf

/-- A name is a variable. -/
theorem isPattern_name (ht : c.Starts t c') (hname : t.kind.isBindingName) :
    IsPattern f c (bindingNode t) c' where
  shorter := ht.shorter_name (Kind.isPropertyName_of_isBindingName hname)
  first := ⟨t, c', ht, by simp [Kind.startsPattern, hname]⟩
  operand _ _ hs hu hends := by
    obtain ⟨span, d, hmeets, hd⟩ := hs.meets ht
    obtain ⟨span', d', hu', -⟩ := hd.starts hu
    exact ⟨_, _, operand_variable hf hmeets hname hu' hends,
      ⟨Reader.coherent_ahead (hu' .division), hd⟩, _, rfl, covers_name span t.span t.text⟩

/-- The properties of a pattern are read as the members of a literal that stand for them. -/
theorem IsProperties.answers (h : IsProperties f c properties rest c')
    (hplain : ∀ p ∈ properties, p.shorthandsPlain) (hu : c'.Starts u d)
    (hclose : u.kind = .punctuator .closeBrace) (hc : Suffices bound depth c) {limit : Nat}
    (hlimit : c.rest.length < limit) {s : Reader} (hs : s.Beside c) (read : List Node) :
    (iterate (objectRound (rules bound (depth + 1)) f) limit read).Answers s c' fun result =>
      ∃ body last, result = (body ++ last).reverse ++ read ∧
        List.Forall₂ CoversProperty body properties ∧ CoversOthers last rest := by
  induction h generalizing limit s read with
  | close =>
    obtain ⟨limit, rfl⟩ := Nat.exists_eq_add_one.2 (Nat.zero_lt_of_lt hlimit)
    refine .bind (objectRound_close hs hu hclose) ?_
    rintro _ _ hs rfl
    exact .pure hs ⟨[], [], rfl, .nil, .none⟩
  | @rest c c₁ _ t n ht hellipsis hn hname =>
    obtain ⟨limit, rfl⟩ := Nat.exists_eq_add_one.2 (Nat.zero_lt_of_lt hlimit)
    have hc₁ := hc.mono (ht.shorter hellipsis).le
    have hvalue (s : Reader) (hs : s.Beside c₁) :=
      answers_single (.inr rfl) (isPattern_name hf hn hname) .none rfl hc₁ hs hu (.inr hclose)
    refine .bind (objectRound_spread hs ht hellipsis hvalue fun n _ hs =>
      behindPart_close _ hs hu hclose) ?_
    rintro _ _ hs ⟨span, n, hn, rfl⟩
    cases hn with
    | plain hn => exact .pure hs ⟨[], [_], rfl, .nil, .some span hn⟩
  | last hp =>
    obtain ⟨limit, rfl⟩ := Nat.exists_eq_add_one.2 (Nat.zero_lt_of_lt hlimit)
    obtain ⟨t, c₀, ht, hfirst⟩ := hp.first
    refine .bind (objectRound_member hs ht hfirst (fun s hs =>
      hp.answers hf (hplain _ List.mem_cons_self) hc hs hu (.inr hclose)) fun n _ hs =>
        behindPart_close _ hs hu hclose) ?_
    rintro _ _ hs ⟨span, key, value, hm, rfl⟩
    exact .pure hs ⟨[_], [], rfl, .cons (hm span) .nil, .none⟩
  | next hp hnext hcomma _ ih =>
    obtain ⟨limit, rfl⟩ := Nat.exists_eq_add_one.2 (Nat.zero_lt_of_lt hlimit)
    obtain ⟨t, c₀, ht, hfirst⟩ := hp.first
    have hshorter := (hnext.shorter hcomma).trans hp.shorter
    refine .bind (objectRound_member hs ht hfirst (fun s hs =>
      hp.answers hf (hplain _ List.mem_cons_self) hc hs hnext (.inl hcomma)) fun n _ hs =>
        behindPart_comma _ hs hnext hcomma) ?_
    rintro _ s₁ hs₁ ⟨span, key, value, hm, rfl⟩
    refine (ih (fun p hp => hplain p (List.mem_cons_of_mem _ hp)) hu (hc.mono hshorter.le)
      (by omega) hs₁ _).mono ?_
    rintro _ ⟨body, last, rfl, hbody, hlast⟩
    exact ⟨_ :: body, last, by simp, .cons (hm span) hbody, hlast⟩

end

section

variable {bound depth : Nat} {f : Frame} {c c₁ c₂ c' d : Cursor} {t u : Token}
  {properties : List Node} {rest : Option Node}

theorem operand_openBrace {rules : Rules} {e : Extent} {s : Reader} (ht : s.Meets t c)
    (hopen : t.kind = .punctuator .openBrace) :
    operand rules f e s = (do return .plain (← objectLiteral rules f t) : Parse _) ⟨c, none⟩ := by
  refine (bind_ok (mark_ok s)).trans ((bind_ok (nextIn_ok ht _)).trans ?_)
  simp only [hopen]
  rfl

variable (hf : f.Plain)

include hf

/-- A pattern in braces is an object literal. -/
theorem isPattern_object (span : Span) (ht : c.Starts t c₁)
    (hopen : t.kind = .punctuator .openBrace) (h : IsProperties f c₁ properties rest c₂)
    (hu : c₂.Starts u c') (hclose : u.kind = .punctuator .closeBrace) :
    IsPattern f c ⟨span, .objectPattern properties rest⟩ c' where
  shorter := (hu.shorter hclose).trans_le (h.le.trans (ht.shorter hopen).le)
  first := ⟨t, c₁, ht, by rw [hopen]; rfl⟩
  operand {bound depth e s} _ _ hplain hc hs _ _ := by
    obtain ⟨depth, rfl⟩ := hc.exists_inner
    obtain ⟨span', d, hmeets, hd⟩ := hs.meets ht
    obtain ⟨hproperties, -⟩ := shorthandsPlain_object.1 hplain
    have hc₁ := hc.inner (ht.shorter hopen)
    have hrounds := h.answers hf hproperties hu hclose hc₁ hc₁.bound (.fresh hd) []
    refine .of_eq (operand_openBrace hmeets hopen) (.bind (.bind hrounds ?_) fun n _ hs hn =>
      .pure hs ⟨n, rfl, hn⟩)
    rintro _ s hs ⟨body, last, rfl, hbody, hlast⟩
    refine .bind_expectPunctuator hs hu hclose fun _ d hd => .pure (.fresh hd) ?_
    rw [List.append_nil, List.reverse_reverse]
    exact covers_object hbody hlast

/-! ## Patterns of a declaration -/

/-- What is read as a pattern is read as a literal that stands for it. -/
theorem gives_pattern (hpatterns : PatternsCross bound depth f) (kind : Binding) {r : Reader}
    (h : Suffices bound (depth + 1) r.cursor) (hr : r.Coherent) :
    (pattern (rules bound depth) f kind).Gives r fun p r' =>
      r'.Coherent ∧ IsPattern f r.cursor p r'.cursor := by
  refine .bind_peek hr fun t c ht => ?_
  split
  case h_1 hopen =>
    have ht := Cursor.starts_punctuator ht hopen
    have hc := h.inner (ht.shorter hopen)
    refine .step (skip_ahead ..) ?_
    refine (gives_patternProperties hpatterns kind (r := ⟨c, none⟩) hc (Reader.coherent_fresh c)).bind
      fun (properties, rest) r' ⟨hr', hproperties⟩ => ?_
    exact .bind_expectPunctuator hr' fun u c' hu hclose => .pure ⟨Reader.coherent_fresh c',
      isPattern_object hf _ ht hopen hproperties (Cursor.starts_punctuator hu hclose) hclose⟩
  case h_2 hopen =>
    have ht := Cursor.starts_punctuator ht hopen
    have hc := h.inner (ht.shorter hopen)
    refine .step (skip_ahead ..) ?_
    refine (gives_patternElements hpatterns kind (r := ⟨c, none⟩) hc (Reader.coherent_fresh c)).bind
      fun (elements, rest) r' ⟨hr', helements⟩ => ?_
    exact .bind_expectPunctuator hr' fun u c' hu hclose => .pure ⟨Reader.coherent_fresh c',
      isPattern_array _ ht hopen helements (Cursor.starts_punctuator hu hclose) hclose⟩
  case h_3 =>
    refine (gives_patternName kind (Reader.coherent_ahead ht)).mono ?_
    rintro _ r' ⟨hr', t, rfl, hname, ht⟩
    exact ⟨hr', isPattern_name hf ht hname⟩

theorem patternsCross (bound depth : Nat) : PatternsCross bound depth f := by
  induction depth with
  | zero => exact fun _ _ _ _ => .exhausted
  | succ depth ih => exact fun kind r h hr => gives_pattern hf ih kind h hr

end

end ScriptMin.Grammar
