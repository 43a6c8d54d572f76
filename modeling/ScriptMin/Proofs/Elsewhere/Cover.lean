import ScriptMin.Proofs.Elsewhere.Tree

/-!
# Literals that stand for patterns

Before an equals sign a pattern is read as a literal, part by part, and then turned into a pattern.
`n.Covers p` says that the expression `n` is turned into the pattern `p`, up to places. A part with
a default was an assignment by itself, whose left side is a pattern already; a shorthand with a
default is no part of a literal.
-/

namespace ScriptMin

open Source Grammar

namespace Node

/-- The expressions that a plain assignment turns into patterns. -/
def isCover (n : Node) : Bool :=
  n.shape matches .identifier _ | .arrayLiteral _ | .objectLiteral _

/-- The expression stands for the pattern before an equals sign. -/
structure Covers (n p : Node) : Prop where
  isCover : n.isCover
  target : ∃ q, target n = .ok q ∧ q.Alike p

/-- The expression stands for a part of a pattern: for a target, or as an assignment for a target
with its default. -/
inductive CoversPart (n : Node) (p : Node) : Option Node → Prop
  | plain (h : n.Covers p) : CoversPart n p none
  | defaulted {span : Span} {left value fallback : Node}
      (hn : n = ⟨span, .assignment .assign left value⟩) (hleft : Grammar.target left = .ok left)
      (htarget : left.Alike p) (hvalue : value.Alike fallback) : CoversPart n p (some fallback)

/-- The member of an object literal stands for the property of a pattern. -/
inductive CoversProperty : Node → Node → Prop
  | shorthand (s s' s'' : Span) (name : String) :
    CoversProperty ⟨s, .objectMember (.shorthand name)⟩
      ⟨s', .patternProperty (.direct name) ⟨s'', .bindingName name⟩ none true⟩
  | valued (s s' : Span) {key key' : Key Node} {n p : Node} {fallback : Option Node}
      (hkey : key.map bare = key'.map bare) (h : n.CoversPart p fallback) :
    CoversProperty ⟨s, .objectMember (.valued key (.property (some n)))⟩
      ⟨s', .patternProperty key' p fallback false⟩

end Node

/-- The element of an array literal stands for the element of a pattern. -/
inductive ArrayElement.Covers : ArrayElement Node → Option (Defaulted Node) → Prop
  | hole : Covers .hole none
  | item {n p : Node} {fallback : Option Node} (h : n.CoversPart p fallback) :
    Covers (.item n) (some ⟨p, fallback⟩)

/-! ## Patterns without such shorthands -/

/-- A shorthand with a default. -/
def Shape.isShorthandDefault {α : Type} : Shape α → Bool
  | .patternProperty _ _ (some _) true => true
  | _ => false

namespace Node

/-- No shorthand of the pattern has a default. -/
def shorthandsPlain (p : Node) : Bool :=
  p.fold fun _ s => !s.isShorthandDefault && s.patterns.all (·.2)

theorem shorthandsPlain_eq (p : Node) :
    p.shorthandsPlain =
      (!p.shape.isShorthandDefault && p.shape.patterns.all shorthandsPlain) := by
  rw [shorthandsPlain, fold_eq, Shape.patterns_map, List.all_map]
  congr 2
  obtain ⟨span, shape⟩ := p
  cases shape
  case patternProperty key target fallback shorthand => cases fallback <;> cases shorthand <;> rfl
  all_goals rfl

theorem shorthandsPlain_array {s : Span} {elements : List (Option (Defaulted Node))}
    {rest : Option Node} : shorthandsPlain ⟨s, .arrayPattern elements rest⟩ ↔
      (∀ e ∈ elements, ∀ d ∈ e, d.target.shorthandsPlain) ∧ ∀ p ∈ rest, p.shorthandsPlain := by
  rw [shorthandsPlain_eq]
  simp only [Shape.isShorthandDefault, Shape.patterns, Bool.not_false, Bool.true_and,
    List.all_append, List.all_flatMap, List.all_map, Bool.and_eq_true, List.all_eq_true,
    Option.mem_toList, Option.mem_def, Function.comp_apply]

theorem shorthandsPlain_object {s : Span} {properties : List Node} {rest : Option Node} :
    shorthandsPlain ⟨s, .objectPattern properties rest⟩ ↔
      (∀ p ∈ properties, p.shorthandsPlain) ∧ ∀ p ∈ rest, p.shorthandsPlain := by
  rw [shorthandsPlain_eq]
  simp only [Shape.isShorthandDefault, Shape.patterns, Bool.not_false, Bool.true_and,
    List.all_append, Bool.and_eq_true, List.all_eq_true, Option.mem_toList, Option.mem_def]

theorem shorthandsPlain_property {s : Span} {key : Key Node} {target : Node}
    {fallback : Option Node} {shorthand : Bool} :
    shorthandsPlain ⟨s, .patternProperty key target fallback shorthand⟩ ↔
      (shorthand = true → fallback = none) ∧ target.shorthandsPlain := by
  rw [shorthandsPlain_eq]
  cases fallback <;> cases shorthand <;> simp [Shape.isShorthandDefault, Shape.patterns]

theorem shorthandsPlain_bare (p : Node) : p.bare.shorthandsPlain = p.shorthandsPlain := by
  induction p using Node.induction with
  | h p ih =>
    have hpatterns : p.bare.shape.patterns.all shorthandsPlain =
        p.shape.patterns.all shorthandsPlain := by
      rw [shape_bare, Shape.patterns_map, List.all_map, Bool.eq_iff_iff, List.all_eq_true,
        List.all_eq_true]
      exact forall_congr' fun c => forall_congr' fun hc => by
        rw [Function.comp_apply, ih c (Shape.mem_children_of_mem_patterns hc)]
    rw [shorthandsPlain_eq, shorthandsPlain_eq p, hpatterns, shape_bare]
    congr 2
    obtain ⟨span, shape⟩ := p
    cases shape
    case patternProperty key target fallback shorthand => cases fallback <;> cases shorthand <;> rfl
    all_goals rfl

end Node

/-! ## Parts -/

namespace Node

variable {n p : Node} {fallback : Option Node}

theorem ne_assignment_of_isCover (h : n.isCover) (s : Span) (left right : Node) :
    n = ⟨s, .assignment .assign left right⟩ → False := by
  rintro rfl
  cases h

/-- An assignment turns the expression into the pattern, and a further one leaves that as it is. -/
theorem Covers.assigned (h : n.Covers p) :
    ∃ q, assignmentTarget .assign n = .ok q ∧ Grammar.target q = .ok q ∧ q.Alike p := by
  obtain ⟨hcover, q, hq, hp⟩ := h
  obtain ⟨span, shape⟩ := n
  cases shape
  case identifier name =>
    cases hq
    exact ⟨_, rfl, rfl, hp⟩
  case arrayLiteral elements =>
    refine ⟨q, hq, ?_, hp⟩
    simp only [Grammar.target] at hq
    cases htargets : arrayTargets span elements with
    | error e => rw [htargets] at hq; cases hq
    | ok targets => rw [htargets] at hq; cases hq; rfl
  case objectLiteral members =>
    refine ⟨q, hq, ?_, hp⟩
    simp only [Grammar.target] at hq
    cases htargets : objectTargets span members with
    | error e => rw [htargets] at hq; cases hq
    | ok targets => rw [htargets] at hq; cases hq; rfl
  all_goals cases hcover

end Node

namespace Grammar

open Node

/-- What an array literal ends with where a pattern takes the rest. -/
inductive CoversRest : List (ArrayElement Node) → Option Node → Prop
  | none : CoversRest [] none
  | some {n p : Node} (h : n.Covers p) : CoversRest [.spread n] (some p)

/-- What an object literal ends with where a pattern takes the rest. -/
inductive CoversOthers : List Node → Option Node → Prop
  | none : CoversOthers [] none
  | some (s : Span) {n p : Node} (h : n.Covers p) :
    CoversOthers [⟨s, .objectMember (.spread n)⟩] (some p)

/-- An array literal is turned into the pattern that its elements stand for. -/
theorem arrayTargets_of_covers (whole : Span) {elements last : List (ArrayElement Node)}
    {targets : List (Option (Defaulted Node))} {rest : Option Node}
    (h : List.Forall₂ ArrayElement.Covers elements targets) (hlast : CoversRest last rest) :
    ∃ r, arrayTargets whole (elements ++ last) = .ok r ∧ ElementsAlike r (targets, rest) := by
  induction h with
  | nil =>
    cases hlast with
    | none => exact ⟨_, rfl, rfl, rfl⟩
    | some h =>
      obtain ⟨q, hq, hp⟩ := h.target
      refine ⟨([], some q), ?_, rfl, congrArg some hp⟩
      simp only [List.nil_append, arrayTargets, hq]
      rfl
  | @cons element target elements targets helement _ ih =>
    obtain ⟨⟨targets', rest'⟩, htargets, halike⟩ := ih
    rw [List.cons_append]
    cases helement with
    | hole =>
      refine ⟨(none :: targets', rest'), ?_, List.cons_eq_cons.2 ⟨rfl, halike.1⟩, halike.2⟩
      simp only [arrayTargets, htargets]
      rfl
    | @item n p fallback hpart =>
      cases hpart with
      | plain h =>
        obtain ⟨q, hq, hp⟩ := h.target
        refine ⟨(some ⟨q, none⟩ :: targets', rest'), ?_, .cons ?_ halike⟩
        · rw [arrayTargets.eq_5 _ _ _ (ne_assignment_of_isCover h.isCover), hq, htargets]
          rfl
        · simp only [Defaulted.map, hp, Option.map_none]
      | @defaulted span left value fallback hn hleft htarget hvalue =>
        subst hn
        refine ⟨(some ⟨left, some value⟩ :: targets', rest'), ?_, .cons ?_ halike⟩
        · simp only [arrayTargets, hleft, htargets]
          rfl
        · simp only [Defaulted.map, htarget, hvalue, Option.map_some]

/-- An object literal is turned into the pattern that its members stand for. -/
theorem objectTargets_of_covers (whole : Span) {members last properties : List Node}
    {rest : Option Node} (h : List.Forall₂ CoversProperty members properties)
    (hlast : CoversOthers last rest) :
    ∃ r, objectTargets whole (members ++ last) = .ok r ∧ PropertiesAlike r (properties, rest) := by
  induction h with
  | nil =>
    cases hlast with
    | none => exact ⟨_, rfl, rfl, rfl⟩
    | some s h =>
      obtain ⟨q, hq, hp⟩ := h.target
      refine ⟨([], some q), ?_, rfl, congrArg some hp⟩
      simp only [List.nil_append, objectTargets, hq]
      rfl
  | @cons member property members properties hmember _ ih =>
    obtain ⟨⟨properties', rest'⟩, htargets, halike⟩ := ih
    rw [List.cons_append]
    cases hmember with
    | shorthand s s' s'' name =>
      refine ⟨(⟨s, .patternProperty (.direct name) ⟨nameAtEnd s name, .bindingName name⟩ none
        true⟩ :: properties', rest'), ?_, .cons (.mk rfl) halike⟩
      simp only [objectTargets, htargets]
      rfl
    | @valued s s' key key' n p fallback hkey hpart =>
      cases hpart with
      | plain h =>
        obtain ⟨q, hq, hp⟩ := h.target
        refine ⟨(⟨s, .patternProperty key q none false⟩ :: properties', rest'), ?_,
          .cons (.mk ?_) halike⟩
        · rw [objectTargets.eq_5 _ _ _ _ _ (ne_assignment_of_isCover h.isCover), hq, htargets]
          rfl
        · simp only [Shape.map, hp, hkey]
      | @defaulted span left value fallback hn hleft htarget hvalue =>
        subst hn
        refine ⟨(⟨s, .patternProperty key left (some value) false⟩ :: properties', rest'), ?_,
          .cons (.mk ?_) halike⟩
        · simp only [objectTargets, hleft, htargets]
          rfl
        · simp only [Shape.map, htarget, hkey, hvalue, Option.map_some]

end Grammar

/-! ## Literals as a whole -/

namespace Node

theorem covers_name (s s' : Span) (name : String) :
    Covers ⟨s, .identifier name⟩ ⟨s', .bindingName name⟩ where
  isCover := rfl
  target := ⟨_, rfl, .mk rfl⟩

theorem covers_array {s s' : Span} {elements last : List (ArrayElement Node)}
    {targets : List (Option (Defaulted Node))} {rest : Option Node}
    (h : List.Forall₂ ArrayElement.Covers elements targets) (hlast : CoversRest last rest) :
    Covers ⟨s, .arrayLiteral (elements ++ last)⟩ ⟨s', .arrayPattern targets rest⟩ where
  isCover := rfl
  target := by
    obtain ⟨r, hr, halike⟩ := arrayTargets_of_covers s h hlast
    refine ⟨⟨s, .arrayPattern r.1 r.2⟩, ?_, .mk ?_⟩
    · simp only [Grammar.target, hr]
      rfl
    · simp only [Shape.map, halike.1, halike.2]

theorem covers_object {s s' : Span} {members last properties : List Node} {rest : Option Node}
    (h : List.Forall₂ CoversProperty members properties) (hlast : CoversOthers last rest) :
    Covers ⟨s, .objectLiteral (members ++ last)⟩ ⟨s', .objectPattern properties rest⟩ where
  isCover := rfl
  target := by
    obtain ⟨r, hr, halike⟩ := objectTargets_of_covers s h hlast
    refine ⟨⟨s, .objectPattern r.1 r.2⟩, ?_, .mk ?_⟩
    · simp only [Grammar.target, hr]
      rfl
    · simp only [Shape.map, halike.1, halike.2]

end Node

end ScriptMin
