import ScriptMin.Proofs.Grammar.Program
import ScriptMin.Proofs.Rewrite.Fires
import ScriptMin.Proofs.Rewrite.Unreached

/-!
# Rewriting settles

Each firing takes away weight, so there are no more firings than the weight of the tree, whatever
their order is. The loop over the rules at a node and the loop of the passes end for the same reason,
with no limit on how often they run, and what they come to is a tree to which no rule applies.
-/

namespace ScriptMin

open Rewrite

namespace Rewrite

open Node

variable {rules : List Rule} {k : Nat} {context : Context} {n n' : Node}

/-! ## Firings -/

/-- Each rule gives a lighter tree. -/
theorem lightens_of_mem_rules {o : RewriteOptions} {rule : Rule} (hk : k ≤ 1)
    (hrule : rule ∈ o.rules) (hn : n.WellFormed) (h : rule context n = some n') :
    Lightens k n n' := by
  obtain ⟨-, rfl⟩ | ⟨-, rfl⟩ | ⟨-, rfl⟩ | ⟨-, rfl⟩ | ⟨-, rfl⟩ | ⟨-, rfl⟩ | ⟨-, rfl⟩ | ⟨-, rfl⟩ |
    ⟨-, rfl⟩ | ⟨-, rfl⟩ | ⟨-, rfl⟩ | ⟨-, rfl⟩ | ⟨-, rfl⟩ | ⟨-, rfl⟩ | ⟨-, rfl⟩ | ⟨-, rfl⟩ :=
    mem_rules hrule
  · exact lightens_dropDebugger h
  · exact lightens_dropUnreached hk hn h
  · exact lightens_dropConstantBranch hk h
  · exact lightens_shortenYield hk h
  · exact lightens_shortenUndefined hk h
  · exact lightens_foldConstants hk h
  · exact lightens_dropPure hk h
  · exact lightens_shortenAccess h
  · exact lightens_shortenKey h
  · exact lightens_flattenBlocks hk h
  · exact lightens_unwrapBlocks hk h
  · exact lightens_joinVariables hk h
  · exact lightens_loopForever hk h
  · exact lightens_returnChoice h
  · exact lightens_ifToExpression hk h
  · exact lightens_joinExpressions h

theorem Fires.lightens (hrules : rules ⊆ RewriteOptions.all.rules) (hk : k ≤ 1)
    (h : Fires rules n n') (hn : n.WellFormed) : Lightens k n n' := by
  induction h with
  | here context hrule h => exact lightens_of_mem_rules hk (hrules hrule) hn h
  | @child span s before after c c' hs h ih =>
    have hc : (c, c') ∈ s.children := by simp [hs]
    have hchild := ih (hn.child (by
      rw [Shape.children_map]
      exact List.mem_map_of_mem hc))
    refine lightens_children ?_ ⟨_, hc, hchild⟩
    exact forall_mem_children_of_child (P := fun p => p.2.weight k ≤ p.1.weight k) hs
      (fun n => le_rfl) ((Nat.le_add_right _ k).trans hchild)

/-- A sequence of firings keeps trees well formed, and has no more steps than the tree has weight. -/
theorem weight_add_le_of_fires (hrules : rules ⊆ RewriteOptions.all.rules) {f : ℕ → Node}
    (hf : (f 0).WellFormed) {steps : ℕ} (h : ∀ i < steps, Fires rules (f i) (f (i + 1))) :
    (f steps).WellFormed ∧ (f steps).weight 1 + steps ≤ (f 0).weight 1 := by
  induction steps with
  | zero => exact ⟨hf, le_rfl⟩
  | succ i ih =>
    obtain ⟨hwell, hle⟩ := ih fun j hj => h j (Nat.lt_succ_of_lt hj)
    have hfires := h i (Nat.lt_succ_self i)
    have hlightens := hfires.lightens hrules le_rfl hwell
    refine ⟨(hfires.keepsForm hrules hwell).wellFormed, ?_⟩
    rw [Lightens] at hlightens
    omega

theorem exists_not_fires (hrules : rules ⊆ RewriteOptions.all.rules) {f : ℕ → Node}
    (hf : (f 0).WellFormed) : ∃ i, ¬ Fires rules (f i) (f (i + 1)) := by
  by_contra hall
  simp only [not_exists, not_not] at hall
  have hle := (weight_add_le_of_fires hrules hf fun i (_ : i < (f 0).weight 1) => hall i).2
  have hpos := one_le_weight 1 (f ((f 0).weight 1))
  omega

/-- What a sequence of firings leads to is well formed and has no more nodes. -/
theorem size_le_of_fires (hrules : rules ⊆ RewriteOptions.all.rules) (hn : n.WellFormed)
    (h : Relation.ReflTransGen (Fires rules) n n') : n'.WellFormed ∧ n'.size ≤ n.size := by
  induction h with
  | refl => exact ⟨hn, le_rfl⟩
  | @tail m n' _ hfires ih =>
    obtain ⟨hm, hle⟩ := ih
    have hlightens := hfires.lightens hrules (Nat.zero_le 1) hm
    rw [Lightens, weight_zero, weight_zero] at hlightens
    exact ⟨(hfires.keepsForm hrules hm).wellFormed, hlightens.trans hle⟩

/-! ## The loop at a node -/

/-- What a node has come to: another one in its place, lighter by the rules that were applied. -/
structure Lightened (n : Node) (count : ℕ) (p : Progress) : Prop where
  keepsForm : KeepsForm n p.node
  count_le : count ≤ p.count
  weight_le : p.node.weight 1 + p.count ≤ n.weight 1 + count
  size_le : p.node.size ≤ n.size

theorem Lightened.refl {p : Progress} (hp : p.node.WellFormed) : Lightened p.node p.count p :=
  ⟨.refl hp, le_rfl, le_rfl, le_rfl⟩

theorem Lightened.trans {count : ℕ} {p q : Progress} (h : Lightened n count p)
    (h' : Lightened p.node p.count q) : Lightened n count q :=
  ⟨h.keepsForm.trans h'.keepsForm, h.count_le.trans h'.count_le, h'.weight_le.trans h.weight_le,
    h'.size_le.trans h.size_le⟩

section Loops

variable (hrules : rules ⊆ RewriteOptions.all.rules)

include hrules

theorem lightened_apply (context : Context) {rule : Rule} (hrule : rule ∈ rules) {p : Progress}
    (hp : p.node.WellFormed) : Lightened p.node p.count (p.apply context rule) := by
  unfold Progress.apply
  cases h : rule context p.node with
  | none => exact .refl hp
  | some n =>
    have hweight := lightens_of_mem_rules le_rfl (hrules hrule) hp h
    have hsize := lightens_of_mem_rules (Nat.zero_le 1) (hrules hrule) hp h
    simp only [Lightens, weight_zero] at hweight hsize
    refine ⟨keepsForm_of_mem_rules (hrules hrule) hp h, Nat.le_succ _, ?_, hsize⟩
    simp only
    omega

/-- A round of the rules applies at least one of them, or none applies. -/
theorem lightened_round (context : Context) {p : Progress} (hp : p.node.WellFormed) :
    Lightened p.node p.count (rules.foldl (Progress.apply context) p) ∧
      ((rules.foldl (Progress.apply context) p).count = p.count →
        rules.foldl (Progress.apply context) p = p ∧ Settled rules context p.node) := by
  induction rules generalizing p with
  | nil => exact ⟨.refl hp, fun _ => ⟨rfl, nofun⟩⟩
  | cons rule rest ih =>
    have happly := lightened_apply hrules context List.mem_cons_self hp
    obtain ⟨hrest, hsame⟩ := ih (fun r hr => hrules (List.mem_cons_of_mem _ hr))
      happly.keepsForm.wellFormed
    refine ⟨happly.trans hrest, fun hcount => ?_⟩
    have hle := hrest.count_le
    have hle' := happly.count_le
    rw [List.foldl_cons] at hcount ⊢
    cases h : rule context p.node with
    | none =>
      have hp' : p.apply context rule = p := by simp [Progress.apply, h]
      rw [hp'] at hsame hcount ⊢
      obtain ⟨heq, hsettled⟩ := hsame hcount
      exact ⟨heq, List.forall_mem_cons.2 ⟨h, hsettled⟩⟩
    | some n =>
      have hp' : (p.apply context rule).count = p.count + 1 := by simp [Progress.apply, h]
      omega

theorem lightened_settle (context : Context) (rounds : ℕ) {p : Progress} (hp : p.node.WellFormed) :
    Lightened p.node p.count (settle rules context rounds p) ∧
      ((settle rules context rounds p).count = p.count → settle rules context rounds p = p) := by
  induction rounds generalizing p with
  | zero => exact ⟨.refl hp, fun _ => rfl⟩
  | succ rounds ih =>
    obtain ⟨hround, hsame⟩ := lightened_round hrules context hp
    simp only [settle]
    split
    case isTrue hcount => exact ⟨hround, fun _ => (hsame hcount).1⟩
    case isFalse hcount =>
      have hrest := (ih hround.keepsForm.wellFormed).1
      have hle := hround.count_le
      have hle' := hrest.count_le
      exact ⟨hround.trans hrest, fun hsame => by omega⟩

/-- With as many rounds as a node has weight, or more, the rules are tried until none applies. -/
theorem settle_eq (context : Context) {p : Progress} (hp : p.node.WellFormed) :
    ∃ q, Settled rules context q.node ∧
      ∀ rounds, p.node.weight 1 ≤ rounds → settle rules context rounds p = q := by
  induction hw : p.node.weight 1 using Nat.strongRecOn generalizing p with
  | ind w ih =>
    obtain ⟨hround, hsame⟩ := lightened_round hrules context hp
    have hpos := one_le_weight 1 p.node
    by_cases hcount : (rules.foldl (Progress.apply context) p).count = p.count
    · obtain ⟨heq, hsettled⟩ := hsame hcount
      refine ⟨p, hsettled, fun rounds hrounds => ?_⟩
      obtain ⟨rounds, rfl⟩ : ∃ r, rounds = r + 1 := ⟨rounds - 1, by omega⟩
      rw [settle, if_pos hcount, heq]
    · have hle := hround.count_le
      have hweight := hround.weight_le
      obtain ⟨q, hsettled, hq⟩ := ih _ (by omega) hround.keepsForm.wellFormed rfl
      refine ⟨q, hsettled, fun rounds hrounds => ?_⟩
      obtain ⟨rounds, rfl⟩ : ∃ r, rounds = r + 1 := ⟨rounds - 1, by omega⟩
      rw [settle, if_neg hcount]
      exact hq rounds (by omega)

end Loops

/-! ## The loop of the passes -/

/-- A pass in which the rules are tried at each node at most `rounds` times. -/
def passWithin (rounds : ℕ) (rules : List Rule) (context : Context) (root : Node) : Progress :=
  root.fold fun n children =>
    settle rules context rounds
      ⟨n.withShape (children.map (·.2.node)), (children.children.map (·.2.count)).foldl (· + ·) 0⟩

/-- At most `limit` passes, with the rules tried at each node at most `rounds` times. -/
def passesWithin (rounds : ℕ) (rules : List Rule) : ℕ → Node → Node
  | 0, root => root
  | limit + 1, root =>
    let rewritten := passWithin rounds rules (Context.ofRoot root) root
    if rewritten.count = 0 then rewritten.node
    else passesWithin rounds rules limit rewritten.node

/-- The passes of a program are of this kind. -/
theorem passes_eq (limit : ℕ) (root : Node) :
    passes rules limit root = passesWithin roundLimit rules limit root := by
  induction limit generalizing root with
  | zero => rfl
  | succ limit ih =>
    simp only [passes, passesWithin, ih]
    rfl

/-- A node whose children have been through a pass. -/
def passBelow (rounds : ℕ) (rules : List Rule) (context : Context) (n : Node) : Progress :=
  ⟨n.withShape (n.shape.map fun c => (passWithin rounds rules context c).node),
    (n.shape.children.map fun c => (passWithin rounds rules context c).count).sum⟩

theorem passWithin_eq (rounds : ℕ) (n : Node) :
    passWithin rounds rules context n =
      settle rules context rounds (passBelow rounds rules context n) := by
  rw [passWithin, fold_eq, Shape.map_map, Shape.children_map, List.map_map, passBelow,
    List.sum_eq_foldl]
  rfl

section Passes

variable (hrules : rules ⊆ RewriteOptions.all.rules)

include hrules

omit hrules in
theorem count_eq_zero_of_passBelow {rounds : ℕ} {c : Node}
    (h : (passBelow rounds rules context n).count = 0) (hc : c ∈ n.shape.children) :
    (passWithin rounds rules context c).count = 0 := by
  have hle := List.le_sum_of_mem
    (List.mem_map_of_mem (f := fun c => (passWithin rounds rules context c).count) hc)
  exact Nat.eq_zero_of_le_zero (hle.trans h.le)

omit hrules in
theorem lightened_passBelow (rounds : ℕ) (hn : n.WellFormed)
    (h : ∀ c ∈ n.shape.children, Lightened c 0 (passWithin rounds rules context c) ∧
      ((passWithin rounds rules context c).count = 0 →
        (passWithin rounds rules context c).node = c)) :
    Lightened n 0 (passBelow rounds rules context n) ∧
      ((passBelow rounds rules context n).count = 0 →
        passBelow rounds rules context n = ⟨n, 0⟩) := by
  obtain ⟨span, shape⟩ := n
  refine ⟨⟨.map hn fun c hc => (h c hc).1.keepsForm, Nat.zero_le _, ?_, ?_⟩, fun hcount => ?_⟩
  · have hsum : (shape.children.map fun c => (passWithin rounds rules context c).node.weight 1 +
        (passWithin rounds rules context c).count).sum ≤ weights 1 shape.children :=
      List.sum_le_sum fun c hc => (h c hc).1.weight_le
    rw [List.sum_map_add] at hsum
    simp only [passBelow, Node.withShape, weight_mk, Shape.children_map, Shape.surplus_map, weights,
      List.map_map, Function.comp_def] at hsum ⊢
    omega
  · have hsum := List.sum_le_sum fun c hc => (h c hc).1.size_le
    simp only [passBelow, Node.withShape, size_eq, Shape.children_map, List.map_map,
      Function.comp_def] at hsum ⊢
    exact Nat.add_le_add_right hsum 1
  · have hid : shape.map (fun c => (passWithin rounds rules context c).node) = shape := by
      rw [Shape.map_congr fun c hc => (h c hc).2 (count_eq_zero_of_passBelow hcount hc)]
      exact shape.map_id
    rw [← hcount]
    simp only [passBelow, hid, Node.withShape]

theorem lightened_pass (context : Context) (rounds : ℕ) (hn : n.WellFormed) :
    Lightened n 0 (passWithin rounds rules context n) ∧
      ((passWithin rounds rules context n).count = 0 →
        (passWithin rounds rules context n).node = n) := by
  induction n using Node.induction with
  | h n ih =>
    obtain ⟨hbelow, hsame⟩ := lightened_passBelow rounds hn
      fun c hc => ih c hc (hn.child hc)
    obtain ⟨hsettle, hsettled⟩ := lightened_settle hrules context rounds
      hbelow.keepsForm.wellFormed
    rw [passWithin_eq]
    refine ⟨hbelow.trans hsettle, fun hcount => ?_⟩
    have hle := hsettle.count_le
    have hzero : (passBelow rounds rules context n).count = 0 := by omega
    rw [hsettled (by omega), hsame hzero]

/-- A pass with as many rounds as a tree has weight, or more, tries the rules at each node until
none applies. If it applies none at all, then none applies anywhere. -/
theorem passWithin_eq_of_le (context : Context) (hn : n.WellFormed) :
    ∃ q, (∀ rounds, n.weight 1 ≤ rounds → passWithin rounds rules context n = q) ∧
      (q.count = 0 → ∀ m ∈ n.nodes, Settled rules context m) := by
  induction n using Node.induction with
  | h n ih =>
    have hbelow (rounds : ℕ) := lightened_passBelow rounds hn
      fun c hc => lightened_pass hrules context rounds (hn.child hc)
    have hlt {c : Node} (hc : c ∈ n.shape.children) : c.weight 1 ≤ n.weight 1 :=
      (weight_lt_of_mem_children hc).le
    -- The children have come to the same in all these passes.
    have hchild {rounds : ℕ} (h : n.weight 1 ≤ rounds) : ∀ c ∈ n.shape.children,
        passWithin rounds rules context c = passWithin (n.weight 1) rules context c := by
      intro c hc
      obtain ⟨q, hq, -⟩ := ih c hc (hn.child hc)
      rw [hq rounds ((hlt hc).trans h), hq _ (hlt hc)]
    have hsame {rounds : ℕ} (h : n.weight 1 ≤ rounds) : passBelow rounds rules context n =
        passBelow (n.weight 1) rules context n := by
      have hnodes := Shape.map_congr fun c hc => congrArg Progress.node (hchild h c hc)
      have hcounts := List.map_congr_left fun c hc => congrArg Progress.count (hchild h c hc)
      rw [passBelow, passBelow, hnodes, hcounts]
    obtain ⟨hbelow, hunchanged⟩ := hbelow (n.weight 1)
    obtain ⟨q, hsettled, hq⟩ := settle_eq hrules context hbelow.keepsForm.wellFormed
    have hweight := hbelow.weight_le
    refine ⟨q, fun rounds h => ?_, fun hcount m hm => ?_⟩
    · rw [passWithin_eq, hsame h]
      exact hq rounds (by omega)
    · have hsettle := lightened_settle hrules context (n.weight 1)
        hbelow.keepsForm.wellFormed
      rw [hq (n.weight 1) (by omega)] at hsettle
      obtain ⟨hsettle, hstays⟩ := hsettle
      have hle := hsettle.count_le
      have hzero : (passBelow (n.weight 1) rules context n).count = 0 := by omega
      rw [nodes_eq] at hm
      obtain rfl | hm := List.mem_cons.1 hm
      · rw [hstays (by omega), hunchanged hzero] at hsettled
        exact hsettled
      · obtain ⟨c, hc, hm⟩ := List.mem_flatMap.1 hm
        obtain ⟨r, hr, hrest⟩ := ih c hc (hn.child hc)
        refine hrest ?_ m hm
        rw [← hr _ (hlt hc)]
        exact count_eq_zero_of_passBelow hzero hc

/-- Passes of any number and length do not make a tree grow. -/
theorem size_passesWithin_le (rounds limit : ℕ) (hn : n.WellFormed) :
    (passesWithin rounds rules limit n).size ≤ n.size := by
  induction limit generalizing n with
  | zero => exact le_rfl
  | succ limit ih =>
    have hpass := (lightened_pass hrules (Context.ofRoot n) rounds hn).1
    simp only [passesWithin]
    split
    · exact hpass.size_le
    · exact (ih hpass.keepsForm.wellFormed).trans hpass.size_le

/-- With as many passes as a tree has weight, or more, they end with one that changes nothing. -/
theorem passesWithin_eq (hn : n.WellFormed) :
    ∃ t, (∀ m ∈ t.nodes, Settled rules (Context.ofRoot t) m) ∧
      ∀ rounds limit, n.weight 1 ≤ rounds → n.weight 1 ≤ limit →
        passesWithin rounds rules limit n = t := by
  induction hw : n.weight 1 using Nat.strongRecOn generalizing n with
  | ind w ih =>
    obtain ⟨q, hq, hsettled⟩ := passWithin_eq_of_le hrules (Context.ofRoot n) hn
    obtain ⟨hpass, hsame⟩ := lightened_pass hrules (Context.ofRoot n) (n.weight 1) hn
    rw [hq _ le_rfl] at hpass hsame
    have hpos := one_le_weight 1 n
    by_cases hcount : q.count = 0
    · refine ⟨n, hsettled hcount, fun rounds limit hrounds hlimit => ?_⟩
      obtain ⟨limit, rfl⟩ : ∃ l, limit = l + 1 := ⟨limit - 1, by omega⟩
      simp only [passesWithin, hq rounds (by omega), if_pos hcount, hsame hcount]
    · have hweight := hpass.weight_le
      obtain ⟨t, ht, hpasses⟩ := ih _ (by omega) hpass.keepsForm.wellFormed rfl
      refine ⟨t, ht, fun rounds limit hrounds hlimit => ?_⟩
      obtain ⟨limit, rfl⟩ : ∃ l, limit = l + 1 := ⟨limit - 1, by omega⟩
      simp only [passesWithin, hq rounds (by omega), if_neg hcount]
      exact hpasses rounds limit (by omega) (by omega)

end Passes

end Rewrite

/-- A program does not grow by being rewritten. -/
theorem Program.size_rewrite_le {mode : Mode} {source : List Char} {p : Program}
    (hparse : Program.parse mode source = .ok p) (o : RewriteOptions) :
    (p.rewrite o).root.size ≤ p.root.size := by
  rw [Program.rewrite, passes_eq]
  exact size_passesWithin_le (rules_subset_all o) _ _ (Program.wellFormed_of_parse hparse)

/-- Rewriting settles and never makes a tree grow. From the tree of an accepted program no sequence
of firings goes on for ever, whatever the rules, their order and the nodes are. No tree that firings
lead to has more nodes. The loop over the rules at a node of such a tree ends where no rule applies,
and so do the passes over it: from a number on that is twice the size, limits make no difference. -/
theorem Program.rewriting_settles {mode : Mode} {source : List Char} {p : Program}
    (hparse : Program.parse mode source = .ok p) {rules : List Rule}
    (hrules : rules ⊆ RewriteOptions.all.rules) :
    (∀ f : ℕ → Node, f 0 = p.root → ∃ i, ¬ Fires rules (f i) (f (i + 1))) ∧
      ∀ t, Relation.ReflTransGen (Fires rules) p.root t →
        t.size ≤ p.root.size ∧
        (∀ n ∈ t.nodes, ∀ context count, ∃ q, Settled rules context q.node ∧
          ∀ rounds, 2 * n.size ≤ rounds → settle rules context rounds ⟨n, count⟩ = q) ∧
        (∀ rounds limit, (passesWithin rounds rules limit t).size ≤ t.size) ∧
        ∃ t', (∀ n ∈ t'.nodes, Settled rules (Context.ofRoot t') n) ∧
          ∀ rounds limit, 2 * t.size ≤ rounds → 2 * t.size ≤ limit →
            passesWithin rounds rules limit t = t' := by
  have hroot := Program.wellFormed_of_parse hparse
  refine ⟨fun f hf => exists_not_fires hrules (hf ▸ hroot), fun t ht => ?_⟩
  obtain ⟨hwell, hsize⟩ := size_le_of_fires hrules hroot ht
  refine ⟨hsize, fun n hn context count => ?_, fun rounds limit =>
    size_passesWithin_le hrules rounds limit hwell, ?_⟩
  · obtain ⟨q, hsettled, hq⟩ := settle_eq hrules context (p := ⟨n, count⟩) (hwell.of_mem_nodes hn)
    exact ⟨q, hsettled, fun rounds hrounds => hq rounds ((Node.weight_le 1 n).trans hrounds)⟩
  · obtain ⟨t', hsettled, ht'⟩ := passesWithin_eq hrules hwell
    have hle := Node.weight_le 1 t
    exact ⟨t', hsettled, fun rounds limit hrounds hlimit =>
      ht' rounds limit (hle.trans hrounds) (hle.trans hlimit)⟩

/-- Every rule, on statements that become one expression. -/
theorem rewriting_settles_branches :
    ∃ p, Program.parse .global "if(a){b()}else;".toList = .ok p ∧
      ∀ f : ℕ → Node, f 0 = p.root →
        ∃ i, ¬ Fires RewriteOptions.all.rules (f i) (f (i + 1)) := by
  obtain ⟨p, hparse, -⟩ := Program.exists_of_parse (fun _ => true)
    (show (Program.parse .global "if(a){b()}else;".toList).toOption.any _ = true by decide +kernel)
  exact ⟨p, hparse, (Program.rewriting_settles hparse (List.Subset.refl _)).1⟩

end ScriptMin
