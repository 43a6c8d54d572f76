import ScriptMin.Grammar.Rules
import ScriptMin.Proofs.Reading.Tokens

/-!
# What the rules read

`Rules.Proceeds` is what a construct assumes of the constructs inside it: from any place with few
enough characters left each of them ends, and what it reads is one node, after at least one token.
The limit is what makes the nesting end: a construct that passed a token has fewer characters left.
-/

namespace ScriptMin.Grammar

open Source Parse Reader

/-- From a place with fewer than `limit` characters left, the constructs that stand in statements
end, and each reads one node and passes a token. -/
structure Rules.ProceedsBelow (source : List Char) (limit : Nat) (rules : Rules) : Prop where
  bound : limit ≤ rules.bound
  expression (f : Frame) (e : Extent) {r : Reader} (h : r.Good source limit) :
    (rules.expression f e).Runs r fun reading => Reads source limit r.cursor [reading.node]
  pattern (f : Frame) (kind : Binding) {r : Reader} (h : r.Good source limit) :
    (rules.pattern f kind).Runs r fun n => Reads source limit r.cursor [n]
  construct (f : Frame) {t : Token} {r : Reader} {lo : Nat} (h : r.Good source limit)
    (ht : Encloses source lo t.span [] r.cursor.position) :
    (rules.construct f t).Runs r fun n r' => Reads source limit r.cursor [] r' ∧
      Row source lo [n] r'.cursor.position

/-- From a place with fewer than `limit` characters left, all constructs do. -/
structure Rules.Proceeds (source : List Char) (limit : Nat) (rules : Rules) : Prop extends
    Rules.ProceedsBelow source limit rules where
  statement (f : Frame) {r : Reader} (h : r.Good source limit) :
    (rules.statement f).Runs r fun n => Reads source limit r.cursor [n]

namespace Rules.Proceeds

variable {source : List Char} {limit : Nat} {rules : Rules} {r : Reader}

variable (hr : rules.Proceeds source limit)

include hr

theorem whole (f : Frame) (stop : Punctuator) (h : r.Good source limit) :
    (rules.whole f stop).Runs r fun n => Reads source limit r.cursor [n] :=
  (hr.expression f _ h).bind fun _ _ hx => .pure hx

theorem single (f : Frame) (stops : List Punctuator) (h : r.Good source limit) :
    (rules.single f stops).Runs r fun n => Reads source limit r.cursor [n] :=
  (hr.expression f _ h).bind fun _ _ hx => .pure hx

theorem fallback (f : Frame) (stop : Punctuator) (h : r.Good source limit) :
    (rules.fallback f stop).Runs r fun o => Spans source limit r.cursor o.toList := by
  refine if_tookPunctuator h (fun t r₁ ht => ?_) fun t r₁ hs => ?_
  · exact (hr.single f _ (ht.good h.weaken)).bind fun n r₂ hn =>
      .pure ((ht.spans h.weaken).append hn.toSpans)
  · exact .pure ((Spans.refl h).sees hs)

theorem parenthesised (f : Frame) (h : r.Good source (limit + 1)) :
    (rules.parenthesised f).Runs r fun n => Reads source limit r.cursor [n] := by
  refine bind_expectPunctuator h fun t r₁ ht => ?_
  refine (hr.whole f _ (ht.good h)).bind fun n r₂ hn => ?_
  exact bind_expectPunctuator hn.good fun t r₃ hclose =>
    .pure (((ht.reads h).append hn.toSpans).append (hclose.spans hn.good.weaken))

end Rules.Proceeds

end ScriptMin.Grammar
