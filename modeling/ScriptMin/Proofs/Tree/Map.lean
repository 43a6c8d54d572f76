import ScriptMin.Tree.Children

/-!
# Maps over the children of a shape

The laws of `Shape.map`: a map of a map is the map of both, a map that keeps each child keeps the
shape, and two maps that agree on the children are the same.
-/

namespace ScriptMin

variable {α β γ : Type}

/-! ## One map after another -/

section MapMap

variable (f : α → β) (g : β → γ)

theorem ArrayElement.map_map (x : ArrayElement α) : (x.map f).map g = x.map (g ∘ f) := by
  cases x <;> rfl

theorem Defaulted.map_map (x : Defaulted α) : (x.map f).map g = x.map (g ∘ f) := by
  simp [Defaulted.map]

theorem Key.map_map (x : Key α) : (x.map f).map g = x.map (g ∘ f) := by
  cases x <;> rfl

theorem MemberValue.map_map (x : MemberValue α) : (x.map f).map g = x.map (g ∘ f) := by
  cases x <;> simp [MemberValue.map]

theorem ClassMember.map_map (x : ClassMember α) : (x.map f).map g = x.map (g ∘ f) := by
  simp [ClassMember.map, Key.map_map, MemberValue.map_map]

theorem ObjectMember.map_map (x : ObjectMember α) : (x.map f).map g = x.map (g ∘ f) := by
  cases x <;> simp [ObjectMember.map, Key.map_map, MemberValue.map_map]

theorem ModuleNames.map_map (x : ModuleNames α) : (x.map f).map g = x.map (g ∘ f) := by
  cases x <;> simp [ModuleNames.map, ModuleName.map]

theorem Declarator.map_map (x : Declarator α) : (x.map f).map g = x.map (g ∘ f) := by
  simp [Declarator.map]

theorem ForHead.map_map (x : ForHead α) : (x.map f).map g = x.map (g ∘ f) := by
  cases x with
  | stepped init _ _ => cases init <;> simp [ForHead.map, ForInit.map]
  | each _ _ target _ => cases target <;> simp [ForHead.map, ForTarget.map]

theorem TemplatePart.map_map (x : TemplatePart α) : (x.map f).map g = x.map (g ∘ f) := by
  cases x <;> rfl

theorem Shape.map_map (s : Shape α) : (s.map f).map g = s.map (g ∘ f) := by
  cases s <;>
    simp [Shape.map, ArrayElement.map_map, Defaulted.map_map, Key.map_map, ClassMember.map_map,
      ObjectMember.map_map, ModuleNames.map_map, Declarator.map_map, ForHead.map_map,
      TemplatePart.map_map, Function.comp_def]

end MapMap

/-! ## A map that changes nothing -/

section MapId

theorem ArrayElement.map_id (x : ArrayElement α) : x.map id = x := by
  cases x <;> rfl

theorem Defaulted.map_id (x : Defaulted α) : x.map id = x := by
  simp [Defaulted.map]

theorem Key.map_id (x : Key α) : x.map id = x := by
  cases x <;> rfl

theorem MemberValue.map_id (x : MemberValue α) : x.map id = x := by
  cases x <;> simp [MemberValue.map]

theorem ClassMember.map_id (x : ClassMember α) : x.map id = x := by
  simp [ClassMember.map, Key.map_id, MemberValue.map_id]

theorem ObjectMember.map_id (x : ObjectMember α) : x.map id = x := by
  cases x <;> simp [ObjectMember.map, Key.map_id, MemberValue.map_id]

theorem ModuleName.map_id (x : ModuleName α) : x.map id = x := rfl

theorem ModuleNames.map_id (x : ModuleNames α) : x.map id = x := by
  cases x <;> simp [ModuleNames.map, ModuleName.map_id]

theorem Declarator.map_id (x : Declarator α) : x.map id = x := by
  simp [Declarator.map]

theorem ForHead.map_id (x : ForHead α) : x.map id = x := by
  cases x with
  | stepped init _ _ => cases init <;> simp [ForHead.map, ForInit.map]
  | each _ _ target _ => cases target <;> simp [ForHead.map, ForTarget.map]

theorem TemplatePart.map_id (x : TemplatePart α) : x.map id = x := by
  cases x <;> rfl

theorem Shape.map_id (s : Shape α) : s.map id = s := by
  cases s <;>
    simp [Shape.map, ArrayElement.map_id, Defaulted.map_id, Key.map_id, ClassMember.map_id,
      ObjectMember.map_id, ModuleNames.map_id, Declarator.map_id, ForHead.map_id,
      TemplatePart.map_id]

end MapId

/-! ## Maps that agree -/

section MapCongr

variable {f g : α → β}

theorem ArrayElement.map_congr {x : ArrayElement α} (h : ∀ c ∈ x.children, f c = g c) :
    x.map f = x.map g := by
  cases x <;> simp_all [map, children]

theorem optionMap_congr {o : Option α} (h : ∀ c ∈ o.toList, f c = g c) : o.map f = o.map g :=
  Option.map_congr fun c hc => h c (Option.mem_toList.2 hc)

theorem Defaulted.map_congr {x : Defaulted α} (h : ∀ c ∈ x.children, f c = g c) :
    x.map f = x.map g := by
  simp only [children, List.forall_mem_cons] at h
  simp only [map, h.1, optionMap_congr h.2]

theorem Key.map_congr {x : Key α} (h : ∀ c ∈ x.children, f c = g c) : x.map f = x.map g := by
  cases x <;> simp_all [map, children]

theorem MemberValue.map_congr {x : MemberValue α} (h : ∀ c ∈ x.children, f c = g c) :
    x.map f = x.map g := by
  cases x with
  | property initializer => exact congrArg _ (optionMap_congr h)
  | _ => simp_all [map, children]

theorem ClassMember.map_congr {x : ClassMember α} (h : ∀ c ∈ x.children, f c = g c) :
    x.map f = x.map g := by
  simp only [children, List.forall_mem_append] at h
  simp only [map, Key.map_congr h.1, MemberValue.map_congr h.2]

theorem ObjectMember.map_congr {x : ObjectMember α} (h : ∀ c ∈ x.children, f c = g c) :
    x.map f = x.map g := by
  cases x with
  | valued key value =>
    simp only [children, List.forall_mem_append] at h
    simp only [map, Key.map_congr h.1, MemberValue.map_congr h.2]
  | _ => simp_all [map, children]

theorem ModuleNames.map_congr {x : ModuleNames α} (h : ∀ c ∈ x.children, f c = g c) :
    x.map f = x.map g := by
  cases x with
  | all asName => exact congrArg _ (optionMap_congr h)
  | listed names =>
    simp only [children, List.forall_mem_map] at h
    refine congrArg _ (List.map_congr_left fun n hn => ?_)
    simp only [ModuleName.map, h n hn]

theorem Declarator.map_congr {x : Declarator α} (h : ∀ c ∈ x.children, f c = g c) :
    x.map f = x.map g := by
  simp only [children, List.forall_mem_cons] at h
  simp only [map, h.1, optionMap_congr h.2]

theorem ForHead.map_congr {x : ForHead α} (h : ∀ c ∈ x.children, f c = g c) :
    x.map f = x.map g := by
  cases x with
  | stepped init condition post =>
    simp only [children, List.forall_mem_append] at h
    obtain ⟨⟨hinit, hcondition⟩, hpost⟩ := h
    simp only [map, optionMap_congr hcondition, optionMap_congr hpost]
    cases init <;> simp_all [ForInit.map, ForInit.children]
  | each isOf awaits target subject =>
    cases target <;> simp_all [map, children, ForTarget.map, ForTarget.child]

theorem TemplatePart.map_congr {x : TemplatePart α} (h : ∀ c ∈ x.children, f c = g c) :
    x.map f = x.map g := by
  cases x <;> simp_all [map, children]

/-- Maps of parts agree in a list if they agree on the children of each part. -/
theorem listMap_congr {δ ε : Type} {before : δ → List α} {f' g' : δ → ε} {l : List δ}
    (hpart : ∀ x, (∀ c ∈ before x, f c = g c) → f' x = g' x)
    (h : ∀ c ∈ l.flatMap before, f c = g c) : l.map f' = l.map g' :=
  List.map_congr_left fun x hx => hpart x fun c hc => h c (List.mem_flatMap.2 ⟨x, hx, hc⟩)

theorem Shape.map_congr {s : Shape α} (h : ∀ c ∈ s.children, f c = g c) : s.map f = s.map g := by
  cases s <;>
    simp only [children, List.forall_mem_append, List.forall_mem_cons, List.not_mem_nil,
      false_implies, implies_true, and_true] at h <;>
    simp only [map]
  case arrayPattern elements rest =>
    rw [optionMap_congr h.2, listMap_congr _ h.1]
    intro x hx
    refine optionMap_congr fun c hc => Defaulted.map_congr fun d hd => hx d ?_
    exact List.mem_flatMap.2 ⟨c, hc, hd⟩
  case patternProperty => rw [Key.map_congr h.1.1, h.1.2, optionMap_congr h.2]
  case classDeclaration | classExpression =>
    rw [optionMap_congr h.1.1, optionMap_congr h.1.2,
      listMap_congr (fun _ => ClassMember.map_congr) h.2]
  case variableDeclaration => rw [listMap_congr (fun _ => Declarator.map_congr) h]
  case arrayLiteral => rw [listMap_congr (fun _ => ArrayElement.map_congr) h]
  case objectMember => rw [ObjectMember.map_congr h]
  case templateLiteral => rw [listMap_congr (fun _ => TemplatePart.map_congr) h]
  case taggedTemplate => rw [h.1, listMap_congr (fun _ => TemplatePart.map_congr) h.2]
  case exportList => rw [ModuleNames.map_congr h]
  case forLoop => rw [ForHead.map_congr h.1, h.2]
  case importDeclaration =>
    rw [optionMap_congr h.1]
    refine congrArg (fun names => importDeclaration _ names _) (Option.map_congr fun names hn => ?_)
    exact ModuleNames.map_congr fun c hc =>
      h.2 c (List.mem_flatMap.2 ⟨names, Option.mem_toList.2 hn, hc⟩)
  case objectPattern => rw [List.map_congr_left h.1, optionMap_congr h.2]
  case parameter => rw [h.1, optionMap_congr h.2]
  case functionDeclaration | functionExpression => rw [optionMap_congr h.1, h.2.1, h.2.2]
  case yieldExpression | returnStatement => rw [optionMap_congr h]
  case ifStatement => rw [h.1.1, h.1.2, optionMap_congr h.2]
  case switchCase => rw [optionMap_congr h.1, List.map_congr_left h.2]
  case tryStatement => rw [h.1.1, optionMap_congr h.1.2, optionMap_congr h.2]
  case catchClause => rw [optionMap_congr h.1, h.2]
  -- The other shapes hold single children and lists of them.
  all_goals simp_all

end MapCongr

end ScriptMin
