import ScriptMin.SyntaxError
import ScriptMin.Tree.Chain

/-!
# Targets of assignments

What stands before an assignment operator is read as an expression and then turned into a target:
a variable and a literal become patterns, and a member access stays what it is as long as no
optional chain leads to it.
-/

namespace ScriptMin.Grammar

open Source

def invalidTarget (s : Span) : SyntaxError := ⟨.invalidAssignmentTarget, s.start⟩

/-- A member access as a target. -/
def accessTarget (access : Node) : Except SyntaxError Node :=
  if access.continuesChain then .error (invalidTarget access.span) else .ok access

/-- The span of the name that ends at the end of `s`. -/
def nameAtEnd (s : Span) (name : String) : Span :=
  ⟨s.stop - byteLength name.toList, s.stop⟩

mutual

/-- The target that an expression stands for. The parts of a literal that are assignments already
have targets on their left. -/
def target : Node → Except SyntaxError Node
  | ⟨span, .member isOptional parenthesised object name⟩ =>
    accessTarget ⟨span, .member isOptional parenthesised object name⟩
  | ⟨span, .index isOptional parenthesised object subscript⟩ =>
    accessTarget ⟨span, .index isOptional parenthesised object subscript⟩
  | ⟨span, .identifier name⟩ => .ok ⟨span, .bindingName name⟩
  | ⟨span, .bindingName name⟩ => .ok ⟨span, .bindingName name⟩
  | ⟨span, .arrayPattern elements rest⟩ => .ok ⟨span, .arrayPattern elements rest⟩
  | ⟨span, .objectPattern properties rest⟩ => .ok ⟨span, .objectPattern properties rest⟩
  | ⟨span, .arrayLiteral elements⟩ => do
    let (elements, rest) ← arrayTargets span elements
    return ⟨span, .arrayPattern elements rest⟩
  | ⟨span, .objectLiteral members⟩ => do
    let (properties, rest) ← objectTargets span members
    return ⟨span, .objectPattern properties rest⟩
  | ⟨span, _⟩ => .error (invalidTarget span)

/-- The targets in the array literal `whole`. Nothing may follow what takes the rest. -/
def arrayTargets (whole : Span) : List (ArrayElement Node) →
    Except SyntaxError (List (Option (Defaulted Node)) × Option Node)
  | [] => .ok ([], none)
  | .hole :: elements => do
    let (targets, rest) ← arrayTargets whole elements
    return (none :: targets, rest)
  | .spread value :: elements => do
    let rest ← target value
    if elements.isEmpty then return ([], some rest) else .error (invalidTarget whole)
  | .item ⟨_, .assignment .assign left value⟩ :: elements => do
    let left ← target left
    let (targets, rest) ← arrayTargets whole elements
    return (some ⟨left, some value⟩ :: targets, rest)
  | .item value :: elements => do
    let value ← target value
    let (targets, rest) ← arrayTargets whole elements
    return (some ⟨value, none⟩ :: targets, rest)

/-- The targets in the object literal `whole`. Methods and accessors are none. -/
def objectTargets (whole : Span) : List Node → Except SyntaxError (List Node × Option Node)
  | [] => .ok ([], none)
  | ⟨span, .objectMember (.shorthand name)⟩ :: members => do
    let (properties, rest) ← objectTargets whole members
    let binding := ⟨nameAtEnd span name, .bindingName name⟩
    return (⟨span, .patternProperty (.direct name) binding none true⟩ :: properties, rest)
  | ⟨_, .objectMember (.spread value)⟩ :: members => do
    let rest ← target value
    if members.isEmpty then return ([], some rest) else .error (invalidTarget whole)
  | ⟨span, .objectMember (.valued key (.property (some ⟨_, .assignment .assign left value⟩)))⟩ ::
      members => do
    let left ← target left
    let (properties, rest) ← objectTargets whole members
    return (⟨span, .patternProperty key left (some value) false⟩ :: properties, rest)
  | ⟨span, .objectMember (.valued key (.property (some value)))⟩ :: members => do
    let value ← target value
    let (properties, rest) ← objectTargets whole members
    return (⟨span, .patternProperty key value none false⟩ :: properties, rest)
  | ⟨span, _⟩ :: _ => .error (invalidTarget span)

end

/-- The target of an assignment with this operator. Only a plain assignment takes a literal
apart. -/
def assignmentTarget (operator : AssignmentOperator) (left : Node) : Except SyntaxError Node :=
  match left.shape with
  | .identifier _ | .member .. | .index .. => target left
  | .arrayLiteral _ | .objectLiteral _ =>
    if operator == .assign then target left else .error (invalidTarget left.span)
  | _ => .error (invalidTarget left.span)

/-- Refuses an operand that `++` and `--` cannot change. -/
def checkUpdate (operand : Node) : Except SyntaxError Unit :=
  match operand.shape with
  | .identifier _ => .ok ()
  | .member .. | .index .. =>
    if operand.continuesChain then .error (invalidTarget operand.span) else .ok ()
  | _ => .error (invalidTarget operand.span)

end ScriptMin.Grammar
