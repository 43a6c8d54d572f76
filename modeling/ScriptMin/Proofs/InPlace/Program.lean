import ScriptMin.Grammar.Program
import ScriptMin.Proofs.InPlace.Statement
import ScriptMin.Proofs.Reading.Gives

/-!
# A failed attempt leaves no trace

`InPlace.rules` ties the constructs together as `rules` does, with one stack of frames. On every
frame the two read the same, whatever lies below it. So whatever was read on the way to no arrow,
and wherever it was refused, the stack is as it was before.
-/

namespace ScriptMin.Grammar.InPlace

open Parse

/-- The constructs, nested at most `depth` deep and read in place. -/
def rules (bound : Nat) : Nat → Rules
  | 0 =>
    { bound
      expression := fun _ => exhausted
      statement := exhausted
      pattern := fun _ => exhausted
      construct := fun _ => exhausted }
  | depth + 1 =>
    { bound
      expression := fun e => expression (rules bound depth) e
      statement := statement (rules bound depth)
      pattern := fun kind => pattern (rules bound depth) kind
      construct := fun t => construct (rules bound depth) t }

theorem track_rules (bound depth : Nat) :
    (rules bound depth).Track (Grammar.rules bound depth) := by
  induction depth with
  | zero =>
    exact ⟨rfl, fun _ _ _ _ => .error rfl, fun _ _ _ => .error rfl, fun _ _ _ _ => .error rfl,
      fun _ _ _ _ => .error rfl⟩
  | succ depth ih =>
    exact ⟨rfl, tracks_expression ih, tracks_statement ih, tracks_pattern ih, tracks_construct ih⟩

/-- No arrow is read where the attempt gave nothing: the reader is at the place of the start. -/
theorem parenthesisedArrow?_none {rules : Grammar.Rules} {f : Frame} {e : Extent} {isAsync : Bool}
    {start : Option Source.Span} {r r' : Reader}
    (h : Grammar.parenthesisedArrow? rules f e isAsync start r = .ok (none, r')) :
    r' = ⟨r.cursor, none⟩ := by
  have hgives : (Grammar.parenthesisedArrow? rules f e isAsync start).Gives r
      fun o r' => o = none → r' = ⟨r.cursor, none⟩ := by
    refine Gives.bind Gives.attempt_value fun head r' hhead => ?_
    cases head with
    | none => exact .pure fun _ => hhead rfl
    | some head => exact .bind_any fun _ _ => .bind_any fun _ _ => .pure nofun
  exact hgives _ _ h rfl

/-- Read in place, an arrow function from its parenthesis on is the one that is read by the frame at
hand. Where it is none, the reader stands at its start again, and every frame of the stack is as it
was, whatever was read in between and wherever that was refused. -/
theorem failedArrow_leaves_no_trace (bound depth : Nat) (e : Extent) (isAsync : Bool)
    (start : Option Source.Span) (s : Session) :
    (parenthesisedArrow? (rules bound depth) e isAsync start s).1 =
      (Grammar.parenthesisedArrow? (Grammar.rules bound depth) s.frame e isAsync start
        s.reader).map Prod.fst ∧
    ∀ s', parenthesisedArrow? (rules bound depth) e isAsync start s = (.ok none, s') →
      s' = { s with reader := ⟨s.reader.cursor, none⟩ } := by
  have htracks := tracks_parenthesisedArrow? (track_rules bound depth) s.frame e isAsync start
  refine ⟨htracks.result, fun s' hnone => ?_⟩
  obtain ⟨r, hr, rfl⟩ := htracks.leaves hnone
  rw [parenthesisedArrow?_none hr]

/-- The attempt is given up within a function that has made itself strict, behind a label. -/
theorem failedArrow_leaves_no_trace_function :
    let s : Session := ⟨.ofSource "(a=function()\x7b\"use strict\";l:for(;;)break l;b c\x7d)".toList,
      .topLevel false, [.topLevel true]⟩
    ∃ s', parenthesisedArrow? (rules 60 60) .ofStatement false none s = (.ok none, s') ∧
      s'.reader.cursor = s.reader.cursor ∧ s'.frame = s.frame ∧ s'.below = s.below := by
  intro s
  have hnone : (parenthesisedArrow? (rules 60 60) .ofStatement false none s).1.toOption.any
      Option.isNone := by
    decide +kernel
  rcases hrun : parenthesisedArrow? (rules 60 60) .ofStatement false none s with
    ⟨_ | _ | _, s'⟩ <;> rw [hrun] at hnone
  · cases hnone
  · refine ⟨s', rfl, ?_⟩
    rw [(failedArrow_leaves_no_trace 60 60 .ofStatement false none s).2 s' hrun]
    exact ⟨rfl, rfl, rfl⟩
  · cases hnone

end ScriptMin.Grammar.InPlace
