import ScriptMin.Minify
import ScriptMin.Proofs.Grammar.Program
import ScriptMin.Proofs.Rename.WellFormed
import ScriptMin.Proofs.Rewrite.Checked
import ScriptMin.Proofs.Rewrite.Fires

/-!
# No assumption is ever broken

What rewriting and printing take for granted holds of every tree that is read, and whatever is done
to a program keeps it. So `minifyChecked` gives what `minify` does (`minifyChecked_eq`), and
the only reason for which a source has no code is that it was refused.
-/

namespace ScriptMin

open Rewrite

namespace Program

/-- One step of what can be done to a program: a rule at any node of its tree, or new names. -/
inductive Changes : Program → Program → Prop
  | rewrites {p : Program} {root : Node} (h : Fires RewriteOptions.all.rules p.root root) :
      Changes p { p with root }
  | renames (p : Program) (o : RenameOptions) : Changes p (p.rename o)

variable {p q : Program}

theorem Changes.wellFormed (h : Changes p q) (hp : p.root.WellFormed) : q.root.WellFormed := by
  cases h with
  | rewrites h => exact (h.keepsForm (List.Subset.refl _) hp).wellFormed
  | renames o => exact wellFormed_rename o hp

theorem wellFormed_of_changes (h : Relation.ReflTransGen Changes p q) (hp : p.root.WellFormed) :
    q.root.WellFormed := by
  induction h with
  | refl => exact hp
  | tail _ hlast ih => exact hlast.wellFormed ih

end Program

/-- The steps between reading and printing keep a tree well formed. -/
theorem Options.wellFormed_transform (o : Options) {p : Program} (hp : p.root.WellFormed) :
    (o.transform p).root.WellFormed := by
  have hrewritten : (o.rewrite.elim p fun rules => p.rewrite rules).root.WellFormed := by
    cases o.rewrite with
    | none => exact hp
    | some rules => exact Program.wellFormed_rewrite rules hp
  unfold Options.transform
  cases o.rename with
  | none => exact hrewritten
  | some names => exact Program.wellFormed_rename names hrewritten

theorem Options.transformChecked_eq (o : Options) {p : Program} (hp : p.root.WellFormed) :
    o.transformChecked p = .ok (o.transform p) := by
  unfold transformChecked transform
  cases o.rewrite with
  | none => rfl
  | some rules =>
    simp only [Option.elim_some, p.rewriteChecked_eq rules hp]
    rfl

/-- With checks and without, a source is minified to the same code or is refused. -/
theorem minifyChecked_eq (o : Options) (source : List Char) :
    minifyChecked o source = (minify o source).mapError .parsing := by
  unfold minifyChecked minify
  cases hparse : Program.parse o.mode source with
  | error e => rfl
  | ok p =>
    have hp := Program.wellFormed_of_parse hparse
    have hprints := (o.wellFormed_transform hp).printChecked o.style
    simp only [Except.mapError, bind, Except.bind, o.transformChecked_eq hp, Program.printChecked,
      hprints]
    rfl

/-- No source breaks an assumption. It is minified to code or refused, whatever the options are. Its
tree is well formed and can be printed, and at any node of it each rule, whatever it is told of the
program, finds what it relies on. So it stays when rules are applied anywhere and declarations are
renamed, in any order. Of operators nothing has to be said, since each has a spelling, nor of nodes
that were taken out of a tree, since rules make new trees. -/
theorem minify_breaks_no_assumption (o : Options) (source : List Char) :
    ((∃ code, minifyChecked o source = .ok code) ∨
        ∃ e, minifyChecked o source = .error (.parsing e)) ∧
      ∀ p, Program.parse o.mode source = .ok p →
        ∀ q, Relation.ReflTransGen Program.Changes p q →
          q.root.WellFormed ∧ ∀ n ∈ q.root.nodes, n.printFault? = none ∧
            List.Forall₂ (fun checked rule => ∀ context, checked context n = .ok (rule context n))
              RewriteOptions.all.checkedRules RewriteOptions.all.rules := by
  refine ⟨?_, fun p hparse q hq => ?_⟩
  · rw [minifyChecked_eq]
    cases minify o source with
    | ok code => exact .inl ⟨code, rfl⟩
    | error e => exact .inr ⟨e, rfl⟩
  · have hwell := Program.wellFormed_of_changes hq (Program.wellFormed_of_parse hparse)
    refine ⟨hwell, fun n hn => ⟨(hwell.of_mem_nodes hn).printFault?_eq_none, ?_⟩⟩
    exact (Checked.agrees_rules .all).imp fun _ _ h context => h context n (hwell.of_mem_nodes hn)

/-- A module with aliases and variables, whose declarations are renamed before it is printed. -/
theorem minify_breaks_no_assumption_aliases :
    ∃ p, Program.parse .module "import{a as b}from'c';var d=b;export{d as e}".toList = .ok p ∧
      (p.rename .default).root.printFault? = none := by
  obtain ⟨p, hparse, -⟩ := Program.exists_of_parse (fun _ => true)
    (show (Program.parse .module "import{a as b}from'c';var d=b;export{d as e}".toList).toOption.any
      _ = true by decide +kernel)
  have hkept := (minify_breaks_no_assumption ⟨.module, none, none, .compact⟩ _).2 p hparse
    (p.rename .default) (.single (.renames p .default))
  refine ⟨p, hparse, (hkept.2 _ ?_).1⟩
  rw [Node.nodes_eq]
  exact List.mem_cons_self

end ScriptMin
