import ScriptMin.Layout.OfNode

/-!
# What is seen of a node from its place

A node is laid out in its place by what can be told of it from outside: how tight it binds, what it
starts with, and whether it goes on or ends an optional chain. `Node.edge` gathers this. It is known
from the edges of the children, so a node with other children in the places of its own looks the
same if each of them does.
-/

namespace ScriptMin

open Number

/-- What the first token of a node would be read as. -/
structure Start where
  statement : Bool
  block : Bool
  declaration : Bool
deriving DecidableEq

/-- What is seen of a node from outside. -/
structure Edge where
  precedence : Nat
  start : Start
  closesChain : Bool
  continuesChain : Bool
  containsCall : Bool
  takesPoint : Bool
  isBlock : Bool
  /-- The operator at the root. -/
  operator : Option BinaryOperator
  /-- The name that the node binds, if it is one. -/
  name : Option String
  isPlainParameter : Bool
  isSingleName : Bool
deriving DecidableEq

namespace Node

def start (n : Node) : Start :=
  ⟨n.startsLikeStatement, n.startsLikeBlock, n.startsLikeDeclaration⟩

/-- The operator at the root of a node. -/
def operator? (n : Node) : Option BinaryOperator :=
  match n.shape with
  | .binary op _ _ => some op
  | _ => none

/-- The name that a node is. -/
def name? (n : Node) : Option String :=
  match n.shape with
  | .bindingName name => some name
  | _ => none

/-- Whether a node is a parameter that is a plain name. -/
def isPlainParameter (n : Node) : Bool :=
  match n.shape with
  | .parameter false pattern none => pattern.name?.isSome
  | _ => false

def edge (n : Node) : Edge where
  precedence := n.precedence
  start := n.start
  closesChain := n.closesChain
  continuesChain := n.continuesChain
  containsCall := n.containsCall
  takesPoint := Layout.takesPoint n
  isBlock := n.shape matches .block _
  operator := n.operator?
  name := n.name?
  isPlainParameter := n.isPlainParameter
  isSingleName := Layout.isSingleName n

theorem mixesNullish_eq (n : Node) (operator : BinaryOperator) :
    n.mixesNullish operator = n.operator?.any fun op =>
      operator.isLogical && op.isLogical &&
        (operator == .nullishCoalescing) != (op == .nullishCoalescing) := by
  obtain ⟨span, shape⟩ := n
  cases shape <;> rfl

/-! ## Edges from the edges of children -/

/-- A node starts like the one that is written first in it. -/
theorem start_eq {n m : Node} (h : n.leftmost = m.leftmost) : n.start = m.start := by
  simp only [start, startsLikeStatement, startsLikeBlock, startsLikeDeclaration, h]

/-- The edge of an access or a call. It starts like its object, unless parentheses end its chain. -/
def linkEdge (isOptional parenthesised : Bool) (object : Edge) : Edge :=
  let chained := isOptional || object.continuesChain
  { edge ⟨⟨0, 0⟩, .nullLiteral⟩ with
    precedence := memberPrecedence
    start := if parenthesised && chained then ⟨false, false, false⟩ else object.start
    closesChain := parenthesised && chained
    continuesChain := !parenthesised && chained
    containsCall := object.containsCall }

theorem edge_link {n object : Node} {isOptional parenthesised : Bool}
    (hcloses : n.closesChain = (parenthesised && (isOptional || object.continuesChain)))
    (hleft : n.leftmost = if n.closesChain then n else object.leftmost)
    (hself : n.leftmost = n → n.start = ⟨false, false, false⟩)
    (hrest : n.edge = { linkEdge isOptional parenthesised object.edge with
      start := n.start, closesChain := n.closesChain, containsCall := n.containsCall }) :
    n.edge = { linkEdge isOptional parenthesised object.edge with
      containsCall := n.containsCall } := by
  have hstart : n.start = if n.closesChain then ⟨false, false, false⟩ else object.start := by
    split
    case isTrue h => exact hself (by rw [hleft, if_pos h])
    case isFalse h => exact start_eq (by rw [hleft, if_neg h])
  rw [hrest, hstart, hcloses]
  rfl

section Links

variable (span : Source.Span) (isOptional parenthesised : Bool) (object : Node)

theorem edge_member (name : String) :
    edge ⟨span, .member isOptional parenthesised object name⟩ =
      linkEdge isOptional parenthesised object.edge :=
  edge_link (by cases parenthesised <;> rfl) (by rw [leftmost])
    (fun h => by simp [start, startsLikeStatement, startsLikeBlock, startsLikeDeclaration, h]) rfl

theorem edge_index (subscript : Node) :
    edge ⟨span, .index isOptional parenthesised object subscript⟩ =
      linkEdge isOptional parenthesised object.edge :=
  edge_link (by cases parenthesised <;> rfl) (by rw [leftmost])
    (fun h => by simp [start, startsLikeStatement, startsLikeBlock, startsLikeDeclaration, h]) rfl

theorem edge_call (arguments : List Node) :
    edge ⟨span, .call isOptional parenthesised object arguments⟩ =
      { linkEdge isOptional parenthesised object.edge with containsCall := true } :=
  edge_link (by cases parenthesised <;> rfl) (by rw [leftmost])
    (fun h => by simp [start, startsLikeStatement, startsLikeBlock, startsLikeDeclaration, h]) rfl

end Links

theorem isSingleName_signature (span : Source.Span) (parameters : List Node) :
    Layout.isSingleName ⟨span, .signature parameters⟩ =
      match parameters with
      | [parameter] => parameter.isPlainParameter
      | _ => false := by
  obtain - | ⟨⟨span, shape⟩, - | ⟨second, rest⟩⟩ := parameters
  · rfl
  · cases shape
    case parameter isRest pattern fallback =>
      obtain ⟨span', shape'⟩ := pattern
      cases isRest <;> cases fallback <;> cases shape' <;> rfl
    all_goals rfl
  · simp [Layout.isSingleName]

/-- A node looks the same with other children if they look the same. -/
theorem edge_congr {span span' : Source.Span} {s : Shape (Node × Node)}
    (h : ∀ p ∈ s.children, p.2.edge = p.1.edge) :
    edge ⟨span', s.map Prod.snd⟩ = edge ⟨span, s.map Prod.fst⟩ := by
  have hstart {p : Node × Node} (hp : p ∈ s.children) : p.2.start = p.1.start :=
    congrArg Edge.start (h p hp)
  cases s
  case member isOptional parenthesised object name =>
    simp only [Shape.map, edge_member, h object List.mem_cons_self]
  case index isOptional parenthesised object subscript =>
    simp only [Shape.map, edge_index, h object List.mem_cons_self]
  case call isOptional parenthesised callee arguments =>
    simp only [Shape.map, edge_call, h callee List.mem_cons_self]
  -- What starts like its first child has nothing else from it.
  case binary op left right =>
    show { edge ⟨span, .binary op left.1 right.1⟩ with start := left.2.start } = _
    rw [hstart List.mem_cons_self]
    rfl
  case assignment op target value =>
    show { edge ⟨span, .assignment op target.1 value.1⟩ with start := target.2.start } = _
    rw [hstart List.mem_cons_self]
    rfl
  case conditional test consequent alternate =>
    show { edge ⟨span, .conditional test.1 consequent.1 alternate.1⟩ with
      start := test.2.start } = _
    rw [hstart List.mem_cons_self]
    rfl
  case postfixed op operand =>
    show { edge ⟨span, .postfixed op operand.1⟩ with start := operand.2.start } = _
    rw [hstart List.mem_cons_self]
    rfl
  case sequence elements =>
    cases elements with
    | nil => rfl
    | cons first rest =>
      show { edge ⟨span, .sequence (first.1 :: rest.map Prod.fst)⟩ with
        start := first.2.start } = _
      rw [hstart List.mem_cons_self]
      rfl
  case taggedTemplate tag parts =>
    show { edge ⟨span, .taggedTemplate tag.1 (parts.map (·.map Prod.fst))⟩ with
      start := tag.2.start, containsCall := tag.2.edge.containsCall } = _
    rw [hstart List.mem_cons_self, h tag List.mem_cons_self]
    rfl
  case parameter isRest pattern fallback =>
    have hname : pattern.2.name? = pattern.1.name? :=
      congrArg Edge.name (h pattern List.mem_cons_self)
    cases isRest <;> cases fallback <;>
      simp only [edge, isPlainParameter, Shape.map, Option.map, hname] <;> rfl
  case signature parameters =>
    have hsingle : Layout.isSingleName ⟨span', .signature (parameters.map Prod.snd)⟩ =
        Layout.isSingleName ⟨span, .signature (parameters.map Prod.fst)⟩ := by
      rw [isSingleName_signature, isSingleName_signature]
      obtain - | ⟨parameter, - | ⟨second, rest⟩⟩ := parameters
      · rfl
      · exact congrArg Edge.isPlainParameter (h parameter List.mem_cons_self)
      · rfl
    simp only [edge, Shape.map, hsingle]
    rfl
  all_goals rfl

end Node

end ScriptMin
