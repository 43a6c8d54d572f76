import ScriptMin.Layout.Checked
import ScriptMin.Proofs.Tree.WellFormed

/-!
# Well-formed trees are printed

What printing asks of a tree is part of being well formed, so the checks of a well-formed tree find
nothing.
-/

namespace ScriptMin

open Layout Node

namespace Layout

/-- A child that breaks no assumption. -/
def faultless (c : Node) : Inspected := (c, none)

theorem firstFault?_faultless (cs : List Node) : firstFault? (cs.map faultless) = none := by
  simp [firstFault?, faultless]

/-- A node whose children break no assumption breaks one only in a place of a certain role. -/
theorem firstFault?_children_faultless (s : Shape Node) :
    firstFault? (s.map faultless).children = none := by
  rw [Shape.children_map]
  exact firstFault?_faultless _

theorem variablesFault?_faultless {c : Node} (h : c.Fits .variables) :
    variablesFault? (faultless c) = none := by
  obtain ⟨span, shape⟩ := c
  have haccepted := h.accepted
  cases shape <;> first | rfl | cases haccepted

theorem moduleNameFault?_faultless {n : ModuleName Node} (h : n.asName.Fits .binding) :
    moduleNameFault? (n.map faultless) = none := by
  obtain ⟨target, span, shape⟩ := n
  have haccepted := h.accepted
  cases shape <;> first | rfl | cases haccepted

theorem moduleNameFaults_faultless {names : List (ModuleName Node)}
    (h : Filled (ModuleNames.listed names).places) :
    (names.map (·.map faultless)).findSome? moduleNameFault? = none := by
  rw [ModuleNames.places, filled_each] at h
  simp only [ModuleNames.children, List.forall_mem_map] at h
  simp only [List.findSome?_eq_none_iff, List.forall_mem_map]
  exact fun n hn => moduleNameFault?_faultless (h n hn)

theorem shapeFault?_faultless {s : Shape Node} (h : Filled s.places) :
    shapeFault? (s.map faultless) = none := by
  cases s
  case exportList names source =>
    cases names with
    | all asName => exact firstFault?_children_faultless (.exportList (.all asName) source)
    | listed names => exact moduleNameFaults_faultless h
  case importDeclaration defaultName names source =>
    obtain - | asName | names := names
    · exact firstFault?_children_faultless (.importDeclaration defaultName none source)
    · exact firstFault?_children_faultless
        (.importDeclaration defaultName (some (.all asName)) source)
    · have hdefault := firstFault?_faultless defaultName.toList
      rw [← toList_optionMap] at hdefault
      have hplaces : Filled (ModuleNames.listed names).places := by
        simpa using (filled_append.1 h).2
      have hnames := moduleNameFaults_faultless hplaces
      exact Option.or_eq_none_iff.2 ⟨hdefault, hnames⟩
  case variableStatement declaration =>
    exact variablesFault?_faultless (filled_cons.1 h).1
  case forLoop head body =>
    have hplain := firstFault?_children_faultless (.forLoop head body)
    obtain ⟨- | value | declaration, condition, post⟩ |
      ⟨isOf, awaits, declaration | target, subject⟩ := head
    case stepped.declaration =>
      have hdeclaration := variablesFault?_faultless (filled_cons.1 (filled_append.1 h).1).1
      have hrest := firstFault?_faultless (condition.toList ++ post.toList ++ [body])
      simp only [List.map_append, ← toList_optionMap] at hrest
      exact Option.or_eq_none_iff.2 ⟨hdeclaration, hrest⟩
    case each.declaration =>
      have hdeclaration := variablesFault?_faultless (filled_cons.1 h).1
      exact Option.or_eq_none_iff.2 ⟨hdeclaration, firstFault?_faultless [subject, body]⟩
    all_goals exact hplain
  case patternProperty key target fallback shorthand =>
    cases shorthand with
    | false => exact firstFault?_children_faultless (.patternProperty key target fallback false)
    | true =>
      have hprinted := firstFault?_faultless (target :: fallback.toList)
      rwa [List.map_cons, ← toList_optionMap] at hprinted
  all_goals exact firstFault?_children_faultless _

end Layout

theorem Node.printFault?_eq (n : Node) :
    n.printFault? = shapeFault? (n.shape.map fun c => (c, c.printFault?)) := by
  rw [printFault?, fold_eq]
  rfl

/-- A well-formed tree breaks no assumption of printing. -/
theorem Node.WellFormed.printFault?_eq_none {n : Node} (h : n.WellFormed) :
    n.printFault? = none := by
  induction n using Node.induction with
  | h n ih =>
    have hchildren : ∀ c ∈ n.shape.children, (c, c.printFault?) = faultless c :=
      fun c hc => congrArg (c, ·) (ih c hc (h.child hc))
    rw [printFault?_eq, Shape.map_congr hchildren]
    exact shapeFault?_faultless (wellFormed_iff.1 h)

/-- What declares nothing cannot stand in the place of a declaration. -/
example : Node.printFault? ⟨⟨0, 3⟩, .variableStatement ⟨⟨1, 2⟩, .thisExpression⟩⟩ =
    some ⟨.variables, some ⟨1, 2⟩⟩ := by
  decide

theorem Node.WellFormed.printChecked {n : Node} (h : n.WellFormed) (style : Style) :
    n.printChecked style = .ok (n.print style) := by
  rw [Node.printChecked, h.printFault?_eq_none]

end ScriptMin
