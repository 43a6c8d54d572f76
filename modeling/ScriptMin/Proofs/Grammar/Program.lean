import ScriptMin.Grammar.Program
import ScriptMin.Proofs.Grammar.Statement

/-!
# Programs are well formed

Each level of nesting is sound because the level below is, so every program that is read is well
formed: an induction on the levels.
-/

namespace ScriptMin

open Grammar Parse Node

namespace Grammar

theorem sound_rules (bound depth : Nat) : (rules bound depth).Sound := by
  induction depth with
  | zero =>
    exact ⟨fun _ _ => .exhausted, fun _ => .exhausted, fun _ _ => .exhausted, fun _ _ => .exhausted⟩
  | succ depth ih =>
    exact ⟨ensures_expression ih, ensures_statement ih, ensures_pattern ih, ensures_construct ih⟩

section ReadSource

variable {α : Type} {source : List Char} {read : Rules → Parse α} {value : α} {post : α → Prop}

/-- What a whole source is read as satisfies what its reader ensures. -/
theorem ensures_of_readSource (h : readSource source read = .ok value)
    (hread : (read (rulesFor source.length)).Ensures post) : post value := by
  unfold readSource at h
  split at h <;> cases h
  case h_1 reader hvalue => exact hread _ _ reader hvalue

theorem of_readSource (hread : ∀ rules : Rules, rules.Sound → (read rules).Ensures post)
    (h : readSource source read = .ok value) : post value :=
  ensures_of_readSource h (hread _ (sound_rules _ _))

end ReadSource

end Grammar

namespace Program

/-- The root of a program holds statements. -/
theorem ensures_read (mode : Mode) (stop : Nat) {rules : Rules} (hr : rules.Sound) :
    (read mode stop rules).Ensures fun p =>
      p.mode = mode ∧ p.root.WellFormed ∧ ∃ body, p.root.shape = .program body := by
  refine .bind (ensures_prologue _ _) ?_
  rintro ⟨directives, strict⟩ hdirectives
  refine .bind (.collect (Q := Fits .statement) (.bind_any fun _ => ?_) rules.bound)
    fun statements hstatements => .pure ⟨rfl, wellFormed_iff.2 ?_, _, rfl⟩
  · refine .ite (fun _ => .pure nofun) fun _ => ?_
    exact .bind (hr.statement _) fun n hn => .pure (by simpa using hn)
  · simpa [Shape.places, or_imp, forall_and] using ⟨hdirectives, hstatements⟩

variable {mode : Mode} {source : List Char} {p : Program}

theorem wellFormed_of_parse (h : parse mode source = .ok p) : p.root.WellFormed :=
  (of_readSource (fun _ hr => ensures_read mode _ hr) h).2.1

theorem mode_of_parse (h : parse mode source = .ok p) : p.mode = mode :=
  (of_readSource (fun _ hr => ensures_read mode _ hr) h).1

theorem shape_of_parse (h : parse mode source = .ok p) :
    ∃ body, p.root.shape = .program body :=
  (of_readSource (fun _ hr => ensures_read mode _ hr) h).2.2

/-- A source that is known to be read as a program that passes a check. -/
theorem exists_of_parse (check : Program → Bool)
    (h : (parse mode source).toOption.any check = true) :
    ∃ p, parse mode source = .ok p ∧ check p = true := by
  generalize parse mode source = result at h ⊢
  cases result with
  | error e => cases h
  | ok p => exact ⟨p, rfl, h⟩

end Program

end ScriptMin
