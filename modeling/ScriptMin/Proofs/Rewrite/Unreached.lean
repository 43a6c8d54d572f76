import ScriptMin.Proofs.Rewrite.Weight
import ScriptMin.Proofs.Rewrite.WellFormed

/-!
# What is left after a jump is lighter

The statements after a jump are replaced by one `var` with the names that they declare. That is not
heavier, since each name has a node of its own in a statement that is left out, below at least two
more: the statement and its list of variables. It is lighter since a statement that is nothing but a
`var` of plain names is not left out.
-/

namespace ScriptMin

open Rewrite

/-! ## Names and nodes -/

theorem Shape.patterns_sublist {α : Type} (s : Shape α) : s.patterns.Sublist s.children := by
  cases s
  case arrayPattern elements rest =>
    refine List.Sublist.append_right ?_ _
    induction elements with
    | nil => exact List.Sublist.refl _
    | cons e elements ih =>
      refine List.Sublist.append ?_ ih
      cases e <;> simp [Defaulted.children]
  case patternProperty key target fallback shorthand =>
    simp [patterns, children]
  case objectPattern => exact List.Sublist.refl _
  all_goals exact List.nil_sublist _

namespace Node

theorem sum_size_le_of_sublist {ns ms : List Node} (h : ns.Sublist ms) :
    (ns.map size).sum ≤ (ms.map size).sum :=
  (h.map size).sum_le_sum (by simp)

theorem length_boundNames_lt_of_children {n : Node} (h : ∀ name, n.shape ≠ .bindingName name)
    (hchildren : ∀ c ∈ n.shape.children, c.boundNames.length ≤ c.size) :
    n.boundNames.length < n.size := by
  have hpatterns := n.shape.patterns_sublist
  have hle := List.sum_le_sum fun c hc => hchildren c (hpatterns.subset hc)
  have hsub := sum_size_le_of_sublist hpatterns
  rw [boundNames_eq h, size_eq, List.length_flatMap]
  omega

/-- Each name that a pattern binds has a node of its own. -/
theorem length_boundNames_le (n : Node) : n.boundNames.length ≤ n.size := by
  induction n using Node.induction with
  | h n ih =>
    by_cases hname : ∃ name, n.shape = .bindingName name
    · obtain ⟨span, shape⟩ := n
      obtain ⟨name, rfl⟩ := hname
      rw [size_eq]
      exact Nat.le_add_left _ _
    · exact (length_boundNames_lt_of_children (not_exists.1 hname) ih).le

/-- A pattern that is no plain name has a node that is none of its names. -/
theorem length_boundNames_lt {n : Node} (h : ∀ name, n.shape ≠ .bindingName name) :
    n.boundNames.length < n.size :=
  length_boundNames_lt_of_children h fun c _ => length_boundNames_le c

/-- A node that has none of its own names has those of its children. -/
theorem hoistedNames_eq_flatMap {n : Node} (h : n.hoistedNames ≠ [])
    (hn : ∀ declarators, n.shape ≠ .variableDeclaration .hoisted declarators) :
    n.hoistedNames = n.shape.children.flatMap hoistedNames := by
  have hown : hoistedAt n.shape = none := by
    unfold hoistedAt
    split
    case h_1 declarators hshape => exact absurd hshape (hn declarators)
    case h_2 => rfl
  rw [hoistedNames_eq, collect_eq] at h ⊢
  split at h
  · exact absurd rfl h
  case isFalse hfunction =>
    rw [if_neg hfunction, hown, Option.getD_none]
    exact List.flatMap_congr fun c _ => (hoistedNames_eq c).symm

section Variables

variable (span : Source.Span) (declarators : List (Declarator Node))

theorem length_hoistedNames_variables :
    (hoistedNames ⟨span, .variableDeclaration .hoisted declarators⟩).length =
      (declarators.map fun d => d.pattern.boundNames.length).sum := by
  have hnames : hoistedNames ⟨span, .variableDeclaration .hoisted declarators⟩ =
      declarators.flatMap fun d => d.pattern.boundNames.map (·.1) := by
    rw [hoistedNames_eq, collect_eq]
    rfl
  simp [hnames, List.length_flatMap]

theorem size_variables (kind : VariableKind) :
    size ⟨span, .variableDeclaration kind declarators⟩ =
      (declarators.map fun d => d.pattern.size + (d.initializer.toList.map size).sum).sum + 1 := by
  rw [size_eq, Shape.children, List.map_flatMap, List.flatMap_def, List.sum_flatten, List.map_map]
  rfl

theorem length_variables_lt :
    (hoistedNames ⟨span, .variableDeclaration .hoisted declarators⟩).length <
      size ⟨span, .variableDeclaration .hoisted declarators⟩ := by
  rw [length_hoistedNames_variables, size_variables, Nat.lt_succ_iff]
  exact List.sum_le_sum fun d _ => Nat.le_add_right_of_le (length_boundNames_le d.pattern)

/-- A `var` with a value or with a pattern has a node that is none of its names. -/
theorem length_variables_add_one_lt (h : declarators.all declaresOnly = false) :
    (hoistedNames ⟨span, .variableDeclaration .hoisted declarators⟩).length + 1 <
      size ⟨span, .variableDeclaration .hoisted declarators⟩ := by
  rw [length_hoistedNames_variables, size_variables, Nat.add_lt_add_iff_right]
  obtain ⟨d, hd, honly⟩ := List.all_eq_false.1 h
  refine List.sum_lt_sum _ _
    (fun d _ => Nat.le_add_right_of_le (length_boundNames_le d.pattern)) ⟨d, hd, ?_⟩
  obtain ⟨⟨spanP, pattern⟩, initializer⟩ := d
  cases initializer with
  | none =>
    refine Nat.lt_add_right _ (length_boundNames_lt fun name hname => honly ?_)
    cases hname
    rfl
  | some value =>
    have hvalue := size_eq value
    have hpattern := length_boundNames_le ⟨spanP, pattern⟩
    simp only [Option.toList_some, List.map_cons, List.map_nil, List.sum_cons, List.sum_nil]
    omega

end Variables

/-- The names that `var` declares in some code have nodes of their own below the code. -/
theorem length_hoistedNames_lt (n : Node) : n.hoistedNames.length < n.size := by
  induction n using Node.induction with
  | h n ih =>
    obtain ⟨span, shape⟩ := n
    by_cases hnames : hoistedNames ⟨span, shape⟩ = []
    · rw [hnames, size_eq]
      exact Nat.succ_pos _
    by_cases hvar : ∃ declarators, shape = .variableDeclaration .hoisted declarators
    · obtain ⟨declarators, rfl⟩ := hvar
      exact length_variables_lt span declarators
    · rw [hoistedNames_eq_flatMap hnames (not_exists.1 hvar), size_eq, List.length_flatMap]
      have hle := List.sum_le_sum fun c hc => (ih c hc).le
      omega

theorem sum_length_add_length_le (ns : List Node) :
    (ns.map fun n => n.hoistedNames.length).sum + ns.length ≤ (ns.map size).sum := by
  induction ns with
  | nil => rfl
  | cons n ns ih =>
    have hn := length_hoistedNames_lt n
    simp only [List.map_cons, List.sum_cons, List.length_cons]
    omega

/-- What declares names below itself has a node more for each of its children. -/
theorem length_add_children_lt {n : Node} (h : n.hoistedNames ≠ [])
    (hn : ∀ declarators, n.shape ≠ .variableDeclaration .hoisted declarators) :
    n.hoistedNames.length + n.shape.children.length < n.size := by
  have hle := sum_length_add_length_le n.shape.children
  rw [hoistedNames_eq_flatMap h hn, size_eq, List.length_flatMap]
  omega

/-- The variables of a statement stand in it alone or in the head of a loop. -/
theorem shape_of_variables_mem_places {s : Shape Node} {c : Node} (hs : s.isStatement)
    (hfunction : s.isFunction = false) (h : (Role.variables, c) ∈ s.places) :
    s = .variableStatement c ∨ ∃ head body, s = .forLoop head body ∧ c ∈ head.children := by
  cases s
  case variableStatement declaration =>
    left
    simpa [Shape.places, eq_comm] using h
  case forLoop head body =>
    have hplaces : (Role.variables, c) ∈ head.places := by simpa [Shape.places] using h
    exact .inr ⟨head, body, rfl, head.snd_places ▸ List.mem_map_of_mem hplaces⟩
  case functionDeclaration | classDeclaration => cases hfunction
  all_goals
    first
    | cases hs; done
    | simp [Shape.places, ModuleNames.places, Role.each] at h

/-- A statement that is left out after a jump has two nodes besides itself and those of its names.
-/
theorem length_hoistedNames_add_two_lt {n : Node} (hn : n.Fits .statement)
    (hcounts : countsUnreached n = false) (hnames : n.hoistedNames ≠ []) :
    n.hoistedNames.length + 2 < n.size := by
  have hvar : ∀ declarators, n.shape ≠ .variableDeclaration .hoisted declarators := by
    intro declarators hshape
    have haccepted := hn.accepted
    rw [hshape] at haccepted
    cases haccepted
  have hfunction : n.shape.isFunction = false := by
    refine Bool.eq_false_iff.2 fun hfunction => hnames ?_
    rw [hoistedNames_eq, collect_eq, if_pos hfunction]
  have hflatMap := hoistedNames_eq_flatMap hnames hvar
  have hchild := hnames
  rw [hflatMap, Ne, List.flatMap_eq_nil_iff, not_forall₂] at hchild
  obtain ⟨c, hc, hcnames⟩ := hchild
  by_cases hcvar : ∃ declarators, c.shape = .variableDeclaration .hoisted declarators
  · obtain ⟨role, hp⟩ := Shape.exists_mem_places hc
    have haccepted := (hn.wellFormed.fits hp).accepted
    obtain ⟨declarators, hshape⟩ := hcvar
    obtain rfl : role = .variables := by
      rw [hshape] at haccepted
      cases role <;> first | rfl | cases haccepted
    obtain hstatement | ⟨head, body, hloop, hhead⟩ :=
      shape_of_variables_mem_places hn.accepted hfunction hp
    · -- A `var` is only left out if it is more than its names.
      obtain ⟨span, shape⟩ := n
      obtain ⟨spanC, shapeC⟩ := c
      cases hshape
      cases hstatement
      have hlt := length_variables_add_one_lt spanC declarators hcounts
      rw [hflatMap, size_eq]
      simp only [Shape.children, List.flatMap_singleton, List.map_singleton, List.sum_singleton]
      omega
    · -- A loop has a body as well.
      have hlt := length_add_children_lt hnames hvar
      have hpos := List.length_pos_of_mem hhead
      rw [hloop, Shape.children, List.length_append, List.length_singleton] at hlt
      omega
  · -- A child that is no `var` itself has one below it.
    have hlt := length_add_children_lt hcnames (not_exists.1 hcvar)
    have hpos : 0 < c.shape.children.length := by
      rw [hoistedNames_eq_flatMap hcnames (not_exists.1 hcvar)] at hcnames
      refine List.length_pos_iff.2 fun hnil => hcnames ?_
      rw [hnil]
      rfl
    obtain ⟨before, after, hsplit⟩ := List.append_of_mem hc
    have hbefore := sum_length_add_length_le before
    have hafter := sum_length_add_length_le after
    rw [hflatMap, size_eq, hsplit]
    simp only [List.length_flatMap, List.map_append, List.map_cons, List.sum_append, List.sum_cons]
    omega

end Node

namespace Rewrite

open Node

/-! ## The rule -/

section Rule

variable {k : Nat} {context : Context} {n n' : Node}

theorem length_eraseDups_le (names : List String) : names.eraseDups.length ≤ names.length := by
  match names with
  | [] => rfl
  | name :: rest =>
    have hfilter := List.length_filter_le (fun other => !other == name) rest
    have hle := length_eraseDups_le (rest.filter fun other => !other == name)
    rw [List.eraseDups_cons, List.length_cons, List.length_cons]
    omega
termination_by names.length
decreasing_by
  rw [List.length_cons]
  omega

/-- A name without a value is a node. -/
theorem weight_bareVariables (k : Nat) (n : Node) (names : List String) :
    (bareVariables n names).weight k = names.length + 2 := by
  have hnames : weights k ((names.map fun name =>
      (⟨n.withShape (.bindingName name), none⟩ : Declarator Node)).flatMap Declarator.children) =
      names.length := by
    induction names with
    | nil => rfl
    | cons name names ih =>
      simp only [List.map_cons, List.flatMap_cons, Declarator.children, Option.toList, withShape,
        weights_append, weights_cons, weights_nil, weight_mk, Shape.children, Shape.surplus,
        List.length_cons] at ih ⊢
      omega
  simp only [bareVariables, Node.withShape, weight_mk, Shape.children, Shape.surplus, weights_cons,
    weights_nil] at hnames ⊢
  omega

theorem weights_filter_add (k : Nat) (keep : Node → Bool) (row : List Node) :
    weights k (row.filter keep) + weights k (row.filter (!keep ·)) = weights k row := by
  induction row with
  | nil => rfl
  | cons n row ih =>
    cases h : keep n <;>
      simp only [List.filter_cons, h, Bool.not_true, Bool.not_false, Bool.false_eq_true, if_true,
        if_false, weights_cons] <;>
      omega

/-- Statements that are left out have two nodes besides those of their names, and one to spare. -/
theorem length_flatMap_hoistedNames_lt {row : List Node}
    (hrow : ∀ n ∈ row, n.Fits .statement ∧ countsUnreached n = false)
    (hnames : row.flatMap hoistedNames ≠ []) :
    (row.flatMap hoistedNames).length + 2 < weights k row := by
  induction row with
  | nil => exact absurd rfl hnames
  | cons n row ih =>
    rw [List.forall_mem_cons] at hrow
    have hn := size_le_weight k n
    rw [List.flatMap_cons, List.length_append, weights_cons]
    by_cases hnil : n.hoistedNames = []
    · rw [List.flatMap_cons, hnil, List.nil_append] at hnames
      have hle := ih hrow.2 hnames
      rw [hnil, List.length_nil]
      omega
    · have hlt := length_hoistedNames_add_two_lt hrow.1.1 hrow.1.2 hnil
      have hle := sum_length_add_length_le row
      have hsize := List.sum_le_sum fun n (_ : n ∈ row) => size_le_weight k n
      rw [List.length_flatMap, weights]
      omega

theorem weights_keptAfter (hk : k ≤ 1) (jump : Node) {unreached : List Node}
    (hunreached : ∀ n ∈ unreached, n.Fits .statement)
    (hcounts : ∃ n ∈ unreached, countsUnreached n = false) :
    weights k (keptAfter jump unreached) + k ≤ weights k unreached := by
  rw [← weights_filter_add k countsUnreached unreached, keptAfter, weights_append]
  have hdropped : ∀ n ∈ unreached.filter (!countsUnreached ·),
      n.Fits .statement ∧ countsUnreached n = false := by
    intro n hn
    obtain ⟨hn, hnot⟩ := List.mem_filter.1 hn
    exact ⟨hunreached n hn, by simpa using hnot⟩
  have hpos : 0 < (unreached.filter (!countsUnreached ·)).length := by
    obtain ⟨n, hn, hnot⟩ := hcounts
    exact List.length_pos_of_mem (List.mem_filter.2 ⟨hn, by simpa using hnot⟩)
  generalize unreached.filter (!countsUnreached ·) = dropped at hdropped hpos
  have hlength := length_le_weights k dropped
  split
  case isTrue =>
    rw [weights_nil]
    omega
  case isFalse hnames =>
    have hdedup := length_eraseDups_le (dropped.flatMap hoistedNames)
    have hlt := length_flatMap_hoistedNames_lt (k := k) hdropped fun hnil => hnames (by simp [hnil])
    rw [weights_cons, weights_nil, weight_bareVariables]
    omega

theorem lightens_dropUnreached (hk : k ≤ 1) (hn : n.WellFormed)
    (h : dropUnreached context n = some n') : Lightens k n n' := by
  obtain ⟨row, hrow, h⟩ := Option.bind_eq_some_iff.1 h
  obtain ⟨row', hreached, rfl⟩ := Option.map_eq_some_iff.1 h
  obtain ⟨before, jump, unreached, rfl, -, hcounts, rfl⟩ := reached?_eq_some hreached
  have hrows := forall_fits_of_statements hrow hn
  have hunreached : ∀ n ∈ unreached, n.Fits .statement :=
    fun n hn => hrows n (by simp [hn])
  have hle := weights_keptAfter hk jump hunreached hcounts
  refine lightens_withStatements hrow ?_
  simp only [weights_append, weights_cons]
  omega

end Rule

end Rewrite

end ScriptMin
