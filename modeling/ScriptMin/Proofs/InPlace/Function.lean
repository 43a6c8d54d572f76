import ScriptMin.Grammar.Class
import ScriptMin.Proofs.InPlace.Session

/-!
# Patterns, functions and classes in place

The constructs that have a frame of their own, read with one stack of frames. The frame of a
function is pushed before its parameters and popped after its body, where a directive may have made
it strict, and the one of a class is there from its name on. Each reader here follows the one that
is handed its frame.
-/

namespace ScriptMin.Grammar.InPlace

open Parse

/-! ## The constructs that contain one another -/

/-- The constructs, read in place. -/
structure Rules where
  bound : Nat
  expression : Extent → InPlace Reading
  statement : InPlace Node
  pattern : Binding → InPlace Node
  construct : Token → InPlace Node

/-- On every frame, the constructs are read as by rules that are handed the frame. -/
structure Rules.Track (rules : Rules) (rules' : Grammar.Rules) : Prop where
  bound : rules.bound = rules'.bound
  expression (f : Frame) (e : Extent) : (rules.expression e).Tracks (rules'.expression f e) f
  statement (f : Frame) : rules.statement.TracksStatement (rules'.statement f) f
  pattern (f : Frame) (kind : Binding) : (rules.pattern kind).Tracks (rules'.pattern f kind) f
  construct (f : Frame) (t : Token) : (rules.construct t).Tracks (rules'.construct f t) f

namespace Rules

def whole (rules : Rules) (stop : Punctuator) : InPlace Node :=
  return (← rules.expression (.whole stop)).node

def single (rules : Rules) (stops : List Punctuator) : InPlace Node :=
  return (← rules.expression (.single stops)).node

def fallback (rules : Rules) (stop : Punctuator) : InPlace (Option Node) := do
  if ← tookPunctuator .equals then return some (← rules.single [.comma, stop])
  else return none

def parenthesised (rules : Rules) : InPlace Node := do
  let _ ← expectPunctuator .openParenthesis
  let value ← rules.whole .closeParenthesis
  let _ ← expectPunctuator .closeParenthesis
  return value

end Rules

section

variable {rules : Rules} {rules' : Grammar.Rules} (hr : rules.Track rules') (f : Frame)
include hr

namespace Rules.Track

theorem whole (stop : Punctuator) : (rules.whole stop).Tracks (rules'.whole f stop) f :=
  (hr.expression f _).bind fun _ => .same _

theorem single (stops : List Punctuator) : (rules.single stops).Tracks (rules'.single f stops) f :=
  (hr.expression f _).bind fun _ => .same _

theorem fallback (stop : Punctuator) : (rules.fallback stop).Tracks (rules'.fallback f stop) f :=
  .step _ fun _ => .ite (fun _ => (hr.single f _).bind fun _ => .same _) fun _ => .same _

theorem parenthesised : rules.parenthesised.Tracks (rules'.parenthesised f) f :=
  .step _ fun _ => (hr.whole f _).bind fun _ => .step _ fun _ => .same _

/-- A statement without labels before it leaves the frame as it is. -/
theorem plain {f : Frame} (hf : f.directLabels = 0) :
    rules.statement.Tracks (rules'.statement f) f := (hr.statement f).tracks hf

end Rules.Track

/-! ## Keys and patterns -/

omit hr

def key (rules : Rules) : InPlace (Key Node) := do
  if ← tookPunctuator .openBracket then
    let expression ← rules.whole .closeBracket
    let _ ← expectPunctuator .closeBracket
    return .computed expression
  else
    let name ← expectIn Kind.isPropertyName
    check (checkNumber (← frame) name)
    return .direct name.text

include hr in
theorem tracks_key : (key rules).Tracks (Grammar.key rules' f) f := by
  refine .step _ fun _ => .ite (fun _ => ?_) fun _ => ?_
  · exact (hr.whole f _).bind fun _ => .step _ fun _ => .same _
  · exact .step _ fun _ => .frame (.step _ fun _ => .same _)

def patternName (kind : Binding) : InPlace Node := do
  Grammar.patternName (← frame) kind

theorem tracks_patternName (kind : Binding) :
    (patternName kind).Tracks (Grammar.patternName f kind) f := .frame (.lift _)

def patternProperty (rules : Rules) (kind : Binding) (first : Token) : InPlace Node := do
  let key ← key rules
  let (target, shorthand) ←
    if ← tookPunctuator .colon then pure (← rules.pattern kind, false)
    else
      match key with
      | .direct _ =>
        if first.kind.isBindingName then
          check (checkBinding (← frame) kind (.ofToken first))
          pure (bindingNode first, true)
        else unexpected (← peek)
      | .computed _ => unexpected (← peek)
  let fallback ← rules.fallback .closeBrace
  let last := fallback.getD target
  return ⟨first.span.cover last.span, .patternProperty key target fallback shorthand⟩

include hr in
theorem tracks_patternProperty (kind : Binding) (first : Token) :
    (patternProperty rules kind first).Tracks (Grammar.patternProperty rules' f kind first) f := by
  refine (tracks_key hr f).bind fun key => .step _ fun _ => ?_
  extract_lets rest rest'
  have hrest (x : Node × Bool) : (rest x).Tracks (rest' x) f :=
    (hr.fallback f _).bind fun _ => .same _
  have hunexpected : Tracks (do let t ← peek; rest (← (unexpected t : Parse (Node × Bool))))
      (do let t ← peek; rest' (← unexpected t)) f :=
    .step _ fun _ => .step _ hrest
  refine .ite (fun _ => (hr.pattern f kind).bind fun _ => hrest (_, false)) fun _ => ?_
  cases key with
  | direct text =>
    refine .ite (fun _ => ?_) fun _ => hunexpected
    exact .frame (.step _ fun _ => hrest (bindingNode first, true))
  | computed expression => exact hunexpected

def patternProperties (rules : Rules) (kind : Binding) :
    InPlace (List Node × Option Node) := do
  let (reversed, rest) ← iterate
    (fun (read : List Node) => do
      let first ← peek
      if first.kind == .punctuator .closeBrace then return Round.done (read, none)
      else if ← tookPunctuator .ellipsis then return .done (read, some (← patternName kind))
      else
        let property ← patternProperty rules kind first
        if ← tookPunctuator .comma then return .again (property :: read)
        else return .done (property :: read, none))
    rules.bound []
  return (reversed.reverse, rest)

include hr in
theorem tracks_patternProperties (kind : Binding) :
    (patternProperties rules kind).Tracks (Grammar.patternProperties rules' f kind) f := by
  unfold patternProperties
  rw [hr.bound]
  refine (Tracks.iterate (fun read => .step _ fun first => ?_) _ []).bind fun _ => .same _
  refine .ite (fun _ => .same _) fun _ => .step _ fun _ => .ite (fun _ => ?_) fun _ => ?_
  · exact (tracks_patternName f kind).bind fun _ => .same _
  · exact (tracks_patternProperty hr f kind first).bind fun _ => .step _ fun _ =>
      .ite (fun _ => .same _) fun _ => .same _

def patternElements (rules : Rules) (kind : Binding) :
    InPlace (List (Option (Defaulted Node)) × Option Node) := do
  let (reversed, rest) ← iterate
    (fun (read : List (Option (Defaulted Node))) => do
      if ← atPunctuator .closeBracket then return Round.done (read, none)
      else if ← tookPunctuator .ellipsis then return .done (read, some (← rules.pattern kind))
      else if ← tookPunctuator .comma then return .again (none :: read)
      else
        let target ← rules.pattern kind
        let fallback ← rules.fallback .closeBracket
        if ← tookPunctuator .comma then return .again (some ⟨target, fallback⟩ :: read)
        else return .done (some ⟨target, fallback⟩ :: read, none))
    rules.bound []
  return (reversed.reverse, rest)

include hr in
theorem tracks_patternElements (kind : Binding) :
    (patternElements rules kind).Tracks (Grammar.patternElements rules' f kind) f := by
  unfold patternElements
  rw [hr.bound]
  refine (Tracks.iterate (fun read => .step _ fun _ => ?_) _ []).bind fun _ => .same _
  refine .ite (fun _ => .same _) fun _ => .step _ fun _ => .ite (fun _ => ?_) fun _ => ?_
  · exact (hr.pattern f kind).bind fun _ => .same _
  refine .step _ fun _ => .ite (fun _ => .same _) fun _ => ?_
  exact (hr.pattern f kind).bind fun _ => (hr.fallback f _).bind fun _ => .step _ fun _ =>
    .ite (fun _ => .same _) fun _ => .same _

def pattern (rules : Rules) (kind : Binding) : InPlace Node := do
  let t ← peek
  match t.kind with
  | .punctuator .openBrace =>
    skip
    let (properties, rest) ← patternProperties rules kind
    let close ← expectPunctuator .closeBrace
    return ⟨t.span.cover close.span, .objectPattern properties rest⟩
  | .punctuator .openBracket =>
    skip
    let (elements, rest) ← patternElements rules kind
    let close ← expectPunctuator .closeBracket
    return ⟨t.span.cover close.span, .arrayPattern elements rest⟩
  | _ => patternName kind

include hr in
theorem tracks_pattern (kind : Binding) :
    (pattern rules kind).Tracks (Grammar.pattern rules' f kind) f := by
  refine .step _ fun t => ?_
  generalize t.kind = tkind
  split
  case h_1 =>
    exact .step _ fun _ => (tracks_patternProperties hr f kind).bind fun _ => .step _ fun _ =>
      .same _
  case h_2 =>
    exact .step _ fun _ => (tracks_patternElements hr f kind).bind fun _ => .step _ fun _ =>
      .same _
  case h_3 =>

    (try split) <;> first | contradiction | exact tracks_patternName f kind

/-! ## Functions -/

/-- The parameters, with the flag that says so set up to the closing parenthesis. -/
def signature (rules : Rules) : InPlace Node := do
  let start ← mark
  let _ ← expectPunctuator .openParenthesis
  let reversed ← withFlag .parameters <| iterate
    (fun (read : List Node) => do
      let place ← mark
      if ← tookPunctuator .closeParenthesis then return Round.done read
      else
        let isRest ← tookPunctuator .ellipsis
        let pattern ← rules.pattern .parameter
        let fallback ← rules.fallback .closeParenthesis
        let read := ⟨← spanFrom place, .parameter isRest pattern fallback⟩ :: read
        let more ← if isRest then pure false else tookPunctuator .comma
        if more then return .again read
        else
          let _ ← expectPunctuator .closeParenthesis
          return .done read)
    rules.bound []
  return ⟨← spanFrom start, .signature reversed.reverse⟩

include hr in
theorem tracks_signature : (signature rules).Tracks (Grammar.signature rules' f) f := by
  unfold signature
  rw [hr.bound]
  refine .step _ fun _ => .step _ fun _ => (Tracks.withFlag ?_).bind fun _ => .step _ fun _ =>
    .same _
  refine Tracks.iterate (fun read => .step _ fun place => .step _ fun _ => ?_) _ []
  refine .ite (fun _ => .same _) fun _ => .step _ fun isRest => ?_
  refine (hr.pattern f.parameters _).bind fun pattern => ?_
  refine (hr.fallback f.parameters _).bind fun fallback => .step _ fun span => ?_
  extract_lets read goesOn goesOn'
  have hgoesOn (more : Bool) : (goesOn more).Tracks (goesOn' more) f.parameters :=
    .ite (fun _ => .same _) fun _ => .step _ fun _ => .same _
  exact .ite (fun _ => hgoesOn false) fun _ => .step _ hgoesOn

/-- The directives at the start of a body or of a program. One of them can make the frame at hand
strict. -/
def prologue (bound : Nat) : InPlace (List Node) := do
  let directives ← collect bound do
    let found ← directive
    if let some t := found then
      if t.shown == "use strict" then modifyFrame fun f => { f with strict := true }
    return found
  return directives.map fun t => ⟨t.span, .directive t.text⟩

/-- The frame after some directives. -/
def afterDirectives (f : Frame) (directives : List Token) : Frame :=
  { f with strict := f.strict || directives.any (·.shown == "use strict") }

theorem follows_prologue (bound : Nat) :
    (prologue bound).Follows (Grammar.prologue bound f.strict) f fun a b g =>
      a = b.1 ∧ g = { f with strict := b.2 } := by
  let R (a b : List Token) (g : Frame) : Prop := a = b ∧ g = afterDirectives f a
  refine Follows.bind (R := R) ?_ ?_
  · refine (Follows.iterate (I := R) (R := R) ?_ bound ⟨rfl, by simp [afterDirectives]⟩).bind ?_
    · rintro read _ _ ⟨rfl, rfl⟩
      refine Follows.bind (R := fun a b g => a = b ∧ g = afterDirectives f (a.toList ++ read)) ?_ ?_
      · refine .last _ fun found => ?_
        cases found with
        | none => exact .pure ⟨rfl, rfl⟩
        | some t =>
          dsimp only
          split
          case isTrue ht => exact .modifyFrame (.pure ⟨rfl, by simp [afterDirectives, ht]⟩)
          case isFalse ht => exact .pure ⟨rfl, by simp [afterDirectives, ht]⟩
      · rintro found _ _ ⟨rfl, rfl⟩
        cases found with
        | none => exact .pure (.done ⟨rfl, rfl⟩)
        | some t => exact .pure (.again ⟨rfl, rfl⟩)
    · rintro read _ _ ⟨rfl, rfl⟩
      exact .pure ⟨rfl, by simp [afterDirectives]⟩
  · rintro directives _ _ ⟨rfl, rfl⟩
    exact .pure ⟨rfl, rfl⟩

/-- The statements up to a closing brace, which is consumed, and that brace. -/
def statements (rules : Rules) : InPlace (List Node × Token) := do
  let (reversed, close) ← iterate
    (fun (read : List Node) => do
      match ← takeIf (· == .punctuator .closeBrace) with
      | some close => return Round.done (read, close)
      | none => return .again ((← rules.statement) :: read))
    rules.bound []
  return (reversed.reverse, close)

include hr in
theorem tracks_statements (hf : f.directLabels = 0) :
    (statements rules).Tracks (Grammar.statements rules' f) f := by
  unfold statements
  rw [hr.bound]
  refine (Tracks.iterate (fun read => .step _ fun close => ?_) _ []).bind fun _ => .same _
  cases close with
  | some close => exact .same _
  | none => exact (hr.plain hf).bind fun _ => .same _

def functionBody (rules : Rules) : InPlace Node := do
  let first ← expectPunctuator .openBrace
  let directives ← prologue rules.bound
  let (body, close) ← statements rules
  return ⟨first.span.cover close.span, .block (directives ++ body)⟩

include hr in
/-- What a body says about its strictness is left in the frame. -/
theorem follows_functionBody (hf : f.directLabels = 0) :
    (functionBody rules).Follows (Grammar.functionBody rules' f) f fun a b g =>
      a = b.1 ∧ g = { f with strict := b.2 } := by
  unfold functionBody
  rw [hr.bound]
  refine .step _ fun first => (follows_prologue f _).bind ?_
  rintro directives ⟨_, strict⟩ _ ⟨rfl, rfl⟩
  exact (tracks_statements hr { f with strict } hf).bind fun _ => .pure ⟨rfl, rfl⟩

/-- The parameters and the body of a function with the frame `inner`. -/
def functionParts (rules : Rules) (inner : Frame) (unique : Bool) : InPlace FunctionParts := do
  let outer ← frame
  let ((parameters, body), inner) ← withFrame inner do
    let parameters ← signature rules
    return (parameters, ← functionBody rules)
  check (checkParameters outer.strict inner.strict unique parameters)
  return ⟨parameters, body, inner.strict && !outer.strict⟩

include hr in
theorem tracks_functionParts {inner : Frame} (hinner : inner.directLabels = 0) (unique : Bool) :
    (functionParts rules inner unique).Tracks (Grammar.functionParts rules' f inner unique) f := by
  have hparts : Grammar.functionParts rules' f inner unique = ((do
      let parameters ← Grammar.signature rules' inner
      return (parameters, ← Grammar.functionBody rules' inner)) >>=
        fun (parameters, body, strict) => do
      check (checkParameters f.strict strict unique parameters)
      return ⟨parameters, body, strict && !f.strict⟩) := by
    simp only [Grammar.functionParts, bind_assoc, pure_bind]
  rw [hparts]
  refine .frame ((Follows.withFrame (R := fun a b g => a = (b.1, b.2.1) ∧
    g = { inner with strict := b.2.2 }) ?_).bind ?_)
  · refine (tracks_signature hr inner).bind fun parameters => ?_
    refine (follows_functionBody hr inner hinner).bind ?_
    rintro body ⟨_, strict⟩ _ ⟨rfl, rfl⟩
    exact .pure ⟨rfl, rfl⟩
  · rintro ⟨_, _⟩ ⟨parameters, body, strict⟩ _ ⟨⟨rfl, rfl⟩, rfl⟩
    exact .step _ fun _ => .same _

/-- A function from its first token on, whose name passes a check. -/
def functionFrom (rules : Rules) (checkName : Bool → Option Token → InPlace Unit)
    (shape : Bool → Bool → Option Node → Node → Node → Shape Node) : InPlace Node := do
  let start ← mark
  let isAsync ← tookWord .asyncWord
  let _ ← expectWord .functionWord
  let generator ← tookPunctuator .asterisk
  let name ← takeIf Kind.isBindingName
  checkName generator name
  let parts ← functionParts rules ((← frame).function generator isAsync) false
  check (checkStrictName parts name)
  return ⟨← spanFrom start,
    shape isAsync generator (name.map definitionNode) parts.parameters parts.body⟩

include hr in
theorem tracks_functionFrom {checkName : Bool → Option Token → InPlace Unit}
    {checkName' : Bool → Option Token → Parse Unit}
    (hcheck : ∀ generator name, (checkName generator name).Tracks (checkName' generator name) f)
    (shape : Bool → Bool → Option Node → Node → Node → Shape Node) :
    (functionFrom rules checkName shape).Tracks (Grammar.functionFrom rules' f checkName' shape)
      f := by
  refine .step _ fun start => .step _ fun isAsync => .step _ fun _ => .step _ fun generator => ?_
  refine .step _ fun name => (hcheck generator name).bind fun _ => .frame ?_
  exact (tracks_functionParts hr f rfl false).bind fun _ => .step _ fun _ => .step _ fun _ =>
    .same _

def functionExpression (rules : Rules) : InPlace Node :=
  functionFrom rules
    (fun generator name => do
      match name with
      | some t => check (checkYield generator (← frame).strict .declaration (.ofToken t))
      | none => pure ())
    .functionExpression

include hr in
theorem tracks_functionExpression :
    (functionExpression rules).Tracks (Grammar.functionExpression rules' f) f := by
  refine tracks_functionFrom hr f (fun generator name => ?_) _
  cases name with
  | none => exact .same _
  | some t => exact .frame (.lift _)

def functionDeclaration (rules : Rules) (needsName : Bool) : InPlace Node :=
  functionFrom rules
    (fun _ name => do
      match name with
      | some t => check (checkBinding (← frame) .declaration (.ofToken t))
      | none => if needsName then unexpected (← peek))
    .functionDeclaration

include hr in
theorem tracks_functionDeclaration (needsName : Bool) :
    (functionDeclaration rules needsName).Tracks (Grammar.functionDeclaration rules' f needsName)
      f := by
  refine tracks_functionFrom hr f (fun generator name => ?_) _
  cases name with
  | none => exact .ite (fun _ => .step _ fun _ => .lift _) fun _ => .same _
  | some t => exact .frame (.lift _)

/-! ## Members -/

def getter (rules : Rules) : InPlace (MemberValue Node) := do
  let (body, _) ← withFrame ((← frame).method false false) do
    let _ ← expectPunctuator .openParenthesis
    let _ ← expectPunctuator .closeParenthesis
    functionBody rules
  return .getter body

include hr in
theorem tracks_getter : (getter rules).Tracks (Grammar.getter rules' f) f := by
  have hbody : Grammar.getter rules' f = ((do
      let _ ← expectPunctuator .openParenthesis
      let _ ← expectPunctuator .closeParenthesis
      Grammar.functionBody rules' (f.method false false)) >>= fun (body, _) =>
      return .getter body) := by
    simp only [Grammar.getter, bind_assoc]
  rw [hbody]
  refine .frame ((Follows.withFrame (.step _ fun _ => .step _ fun _ =>
    follows_functionBody hr _ rfl)).bind ?_)
  rintro ⟨_, _⟩ ⟨body, strict⟩ _ ⟨⟨rfl, _⟩, rfl⟩
  exact .same _

def setter (rules : Rules) : InPlace (MemberValue Node) := do
  let outer ← frame
  let ((parameter, body), inner) ← withFrame (outer.method false false) do
    let _ ← expectPunctuator .openParenthesis
    let parameter ← withFlag .parameters (rules.pattern .parameter)
    let _ ← expectPunctuator .closeParenthesis
    return (parameter, ← functionBody rules)
  check (checkParameterNames outer.strict inner.strict true [] (boundNames parameter))
  return .setter parameter body

include hr in
theorem tracks_setter : (setter rules).Tracks (Grammar.setter rules' f) f := by
  have hparts : Grammar.setter rules' f = ((do
      let _ ← expectPunctuator .openParenthesis
      let parameter ← rules'.pattern (f.method false false).parameters .parameter
      let _ ← expectPunctuator .closeParenthesis
      return (parameter, ← Grammar.functionBody rules' (f.method false false))) >>=
      fun (parameter, body, strict) => do
        check (checkParameterNames f.strict strict true [] (boundNames parameter))
        return .setter parameter body) := by
    simp only [Grammar.setter, bind_assoc, pure_bind]
  rw [hparts]
  refine .frame ((Follows.withFrame (R := fun a b g => a = (b.1, b.2.1) ∧
    g = { f.method false false with strict := b.2.2 }) ?_).bind ?_)
  · refine .step _ fun _ => (Tracks.withFlag (hr.pattern _ _)).bind fun parameter =>
      .step _ fun _ => (follows_functionBody hr _ rfl).bind ?_
    rintro body ⟨_, strict⟩ _ ⟨rfl, rfl⟩
    exact .pure ⟨rfl, rfl⟩
  · rintro ⟨_, _⟩ ⟨parameter, body, strict⟩ _ ⟨⟨rfl, rfl⟩, rfl⟩
    exact .step _ fun _ => .same _

def method (rules : Rules) (isAsync generator : Bool) : InPlace (MemberValue Node) := do
  let parts ← functionParts rules ((← frame).method generator isAsync) true
  return .method isAsync generator parts.parameters parts.body

include hr in
theorem tracks_method (isAsync generator : Bool) :
    (method rules isAsync generator).Tracks (Grammar.method rules' f isAsync generator) f :=
  .frame ((tracks_functionParts hr f rfl true).bind fun _ => .same _)

/-- The value of a property. A field of a class has a frame of its own. -/
def property (rules : Rules) (host : MemberHost) (first : Token) (key : Key Node) :
    InPlace (MemberValue Node) := do
  let isBare ←
    match key with
    | .direct _ => pure (endsMember host (← peek))
    | .computed _ => pure false
  if isBare then
    if host == .object then
      if first.kind.isBindingName then check (checkReference (← frame) (.ofToken first))
      else unexpected (← peek)
    return .property none
  else
    let _ ← expectPunctuator host.valueMark
    let extent := Extent.single [host.separator, .closeBrace]
    match host with
    | .object => return .property (some (← rules.expression extent).node)
    | .classBody =>
      let (value, _) ← withFrame ((← frame).method false false)
        (rules.expression { extent with mayInsert := true })
      return .property (some value.node)

include hr in
theorem tracks_property (host : MemberHost) (first : Token) (key : Key Node) :
    (property rules host first key).Tracks (Grammar.property rules' f host first key) f := by
  unfold property Grammar.property
  extract_lets bare extent rest bare' rest'
  have hrest (isBare : Bool) : (rest isBare).Tracks (rest' isBare) f := by
    refine .ite (fun _ => ?_) fun _ => .step _ fun _ => ?_
    · refine .ite (fun _ => .ite (fun _ => ?_) fun _ => ?_) fun _ => .same _
      · exact .frame (.step _ fun _ => .same _)
      · exact .step _ fun _ => .step _ fun _ => .same _
    · cases host with
      | object => exact (hr.expression f _).bind fun _ => .same _
      | classBody =>
        exact .frame (Tracks.withFrame (hr.expression _ _) fun _ => .same _)
  cases key with
  | direct text => exact .step _ fun _ => hrest _
  | computed expression => exact hrest false

/-- A member: its key and its value. -/
def member (rules : Rules) (host : MemberHost) : InPlace (Key Node × MemberValue Node) := do
  let modifier ← modifier host
  if modifier == some .getter || modifier == some .setter then
    if ← atPunctuator .asterisk then unexpected (← peek)
  let generator ← tookPunctuator .asterisk
  let first ← peek
  let key ← key rules
  match modifier with
  | some .getter => return (key, ← getter rules)
  | some .setter => return (key, ← setter rules)
  | some .isAsync => return (key, ← method rules true generator)
  | none =>
    let isMethod ← if generator then pure true else atPunctuator .openParenthesis
    if isMethod then
      return (key, ← method rules false generator)
    else return (key, ← property rules host first key)

include hr in
theorem tracks_member (host : MemberHost) :
    (member rules host).Tracks (Grammar.member rules' f host) f := by
  refine .step _ fun modifier => ?_
  extract_lets rest rest'
  have hrest (u : Unit) : (rest u).Tracks (rest' u) f := by
    refine .step _ fun generator => .step _ fun first => (tracks_key hr f).bind fun key => ?_
    rcases modifier with _ | _ | _ | _
    · extract_lets valued valued'
      have hvalued (isMethod : Bool) : (valued isMethod).Tracks (valued' isMethod) f := by
        refine .ite (fun _ => ?_) fun _ => ?_
        · exact (tracks_method hr f false generator).bind fun _ => .same _
        · exact (tracks_property hr f host first key).bind fun _ => .same _
      exact .ite (fun _ => hvalued true) fun _ => .step _ hvalued
    · exact (tracks_getter hr f).bind fun _ => .same _
    · exact (tracks_setter hr f).bind fun _ => .same _
    · exact (tracks_method hr f true generator).bind fun _ => .same _
  refine .ite (fun _ => .step _ fun _ => .ite (fun _ => ?_) fun _ => hrest ()) fun _ => hrest ()
  exact .step _ fun _ => .step _ hrest

/-! ## Classes -/

/-- The members of a class in braces, and the closing brace. -/
def classBody (rules : Rules) : InPlace (List (ClassMember Node) × Token) := do
  let _ ← expectPunctuator .openBrace
  let reversed ← iterate
    (fun (read : List (ClassMember Node)) => do
      if ← atPunctuator .closeBrace then return Round.done read
      else if ← tookPunctuator .semicolon then return .again read
      else
        let isStatic ← staticModifier
        let (key, value) ← member rules .classBody
        let _ ← tookPunctuator .semicolon
        return .again (⟨key, isStatic, value⟩ :: read))
    rules.bound []
  return (reversed.reverse, ← expectPunctuator .closeBrace)

include hr in
theorem tracks_classBody : (classBody rules).Tracks (Grammar.classBody rules' f) f := by
  unfold classBody
  rw [hr.bound]
  refine .step _ fun _ => (Tracks.iterate (fun read => .step _ fun _ => ?_) _ []).bind fun _ =>
    .step _ fun _ => .same _
  refine .ite (fun _ => .same _) fun _ => .step _ fun _ => .ite (fun _ => .same _) fun _ => ?_
  exact .step _ fun _ => (tracks_member hr f _).bind fun _ => .step _ fun _ => .same _

/-- A class from its first token on. It has a frame of its own from its name on. -/
def classFrom (rules : Rules) (needsName : Bool)
    (shape : Option Node → Option Node → List (ClassMember Node) → Shape Node) : InPlace Node := do
  let first ← expectWord .classWord
  let ((name, parent, members, close), _) ← withFrame (← frame).classBody do
    let name ← takeIf Kind.isBindingName
    match name with
    | some t => check (checkBinding (← frame) .declaration (.ofToken t))
    | none => if needsName then unexpected (← peek)
    let parent ←
      if ← tookWord .extendsWord then pure (some (← rules.whole .openBrace)) else pure none
    let (members, close) ← classBody rules
    return (name, parent, members, close)
  return ⟨first.span.cover close.span, shape (name.map definitionNode) parent members⟩

theorem ite_bind {α β : Type} {c : Prop} [Decidable c] (p q : Parse α) (k : α → Parse β) :
    (if c then p else q) >>= k = if c then p >>= k else q >>= k := by
  split <;> rfl

include hr in
theorem tracks_classFrom (needsName : Bool)
    (shape : Option Node → Option Node → List (ClassMember Node) → Shape Node) :
    (classFrom rules needsName shape).Tracks (Grammar.classFrom rules' f needsName shape) f := by
  have hparts : Grammar.classFrom rules' f needsName shape = (do
      let first ← expectWord .classWord
      (do
        let name ← takeIf Kind.isBindingName
        match name with
        | some t => check (checkBinding f.classBody .declaration (.ofToken t))
        | none => if needsName then unexpected (← peek)
        let parent ←
          if ← tookWord .extendsWord then pure (some (← rules'.whole f.classBody .openBrace))
          else pure none
        let (members, close) ← Grammar.classBody rules' f.classBody
        return (name, parent, members, close) : Parse _) >>= fun (name, parent, members, close) =>
        return ⟨first.span.cover close.span, shape (name.map definitionNode) parent members⟩) := by
    refine bind_congr fun first => ?_
    simp only [bind_assoc, pure_bind]
    refine bind_congr fun name => ?_
    cases name <;> simp only [ite_bind, bind_assoc, pure_bind]
  rw [hparts]
  refine .step _ fun first => .frame (Tracks.withFrame (.step _ fun name => ?_) fun _ => .same _)
  · extract_lets finish rest finish' rest'
    have hfinish (parent : Option Node) : (finish parent).Tracks (finish' parent) f.classBody :=
      (tracks_classBody hr _).bind fun _ => .same _
    have hrest (u : Unit) : (rest u).Tracks (rest' u) f.classBody :=
      .step _ fun _ => .ite (fun _ => (hr.whole _ _).bind fun _ => hfinish (some _)) fun _ =>
        hfinish none
    cases name with
    | none => exact .ite (fun _ => .step _ fun _ => .step _ hrest) fun _ => hrest ()
    | some t => exact .frame (.step _ hrest)

def classExpression (rules : Rules) : InPlace Node := classFrom rules false .classExpression

include hr in
theorem tracks_classExpression :
    (classExpression rules).Tracks (Grammar.classExpression rules' f) f :=
  tracks_classFrom hr f false _

def classDeclaration (rules : Rules) (needsName : Bool) : InPlace Node :=
  classFrom rules needsName .classDeclaration

include hr in
theorem tracks_classDeclaration (needsName : Bool) :
    (classDeclaration rules needsName).Tracks (Grammar.classDeclaration rules' f needsName) f :=
  tracks_classFrom hr f needsName _

end

end ScriptMin.Grammar.InPlace
