import ScriptMin.Tree.Node

/-!
# Optional chains

The links of a chain are calls and accesses. An optional link such as `?.a` makes the whole chain to
its right optional, up to parentheses, which end it.
-/

namespace ScriptMin.Node

/-- Whether a node goes on an optional chain from its left. -/
def continuesChain : Node → Bool
  | ⟨_, .member isOptional parenthesised object _⟩ =>
    !parenthesised && (isOptional || continuesChain object)
  | ⟨_, .index isOptional parenthesised object _⟩ =>
    !parenthesised && (isOptional || continuesChain object)
  | ⟨_, .call isOptional parenthesised callee _⟩ =>
    !parenthesised && (isOptional || continuesChain callee)
  | _ => false

/-- Whether the parentheses around a node end an optional chain. All others can be dropped. -/
def closesChain (n : Node) : Bool :=
  match n.shape with
  | .member isOptional true object _ => isOptional || object.continuesChain
  | .index isOptional true object _ => isOptional || object.continuesChain
  | .call isOptional true callee _ => isOptional || callee.continuesChain
  | _ => false

end ScriptMin.Node
