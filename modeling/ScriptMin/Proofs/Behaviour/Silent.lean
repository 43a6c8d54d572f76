import ScriptMin.Proofs.Behaviour.Meaning

/-!
# Pure expressions are silent

With the pure expressions as the silent ones, the evaluation of a pure expression only reads its
value off the log, and a literal whose truth is known has a value of that truth.
-/

namespace ScriptMin.Behaviour

open Rewrite

/-- Nobody can tell that a pure expression is evaluated. -/
def World.HidesPure (w : World) : Prop := ∀ n, isPure n → w.isSilent n

/-! ## Computations that only read the log -/

theorem Run.reading_bind {α β : Type} (f : Log → α) (g : α → Log → β) :
    (reading f >>= fun a => reading (g a)) = reading fun log => g (f log) log := rfl

/-- The value of an expression is read off the log. -/
def IsSilent (evaluate : Run Value) : Prop := ∃ f, evaluate = .reading f

theorem IsSilent.pure (v : Value) : IsSilent (pure v) := ⟨fun _ => v, rfl⟩

theorem IsSilent.discard {evaluate : Run Value} (h : IsSilent evaluate) :
    Run.discard evaluate = Pure.pure () := by
  obtain ⟨f, rfl⟩ := h
  rfl

/-- What is evaluated after a silent expression may depend on its value. -/
theorem IsSilent.bind {evaluate : Run Value} {next : Value → Run Value} (h : IsSilent evaluate)
    (hnext : ∀ v, IsSilent (next v)) : IsSilent (evaluate >>= next) := by
  obtain ⟨f, rfl⟩ := h
  choose g hg using hnext
  rw [funext hg]
  exact ⟨_, Run.reading_bind f g⟩

theorem IsSilent.bind_holds {test : Run Value} {next : Bool → Run Value} (h : IsSilent test)
    (hnext : ∀ b, IsSilent (next b)) : IsSilent (test.holds >>= next) := by
  simp only [Run.holds, bind_assoc, pure_bind]
  exact h.bind fun v => hnext v.truth

theorem IsSilent.ite {b : Bool} {first second : Run Value} (h : IsSilent first)
    (h' : IsSilent second) : IsSilent (if b then first else second) := by
  cases b
  · exact h'
  · exact h

theorem IsSilent.inTurn {values : List (Run Value)} (h : ∀ v ∈ values, IsSilent v) :
    IsSilent (inTurn values) := by
  induction values with
  | nil => exact .pure _
  | cons first rest ih =>
    rw [List.forall_mem_cons] at h
    cases rest with
    | nil => exact h.1
    | cons => exact h.1.bind fun _ => ih h.2

/-- Runs that do nothing do nothing one after another. -/
theorem forM_eq_pure {α : Type} {f : α → Run Unit} {xs : List α} (h : ∀ x ∈ xs, f x = pure ()) :
    forM xs f = pure () := by
  induction xs with
  | nil => rfl
  | cons x rest ih =>
    rw [List.forall_mem_cons] at h
    rw [List.forM_cons, h.1, pure_bind, ih h.2]

/-! ## Pure expressions -/

section Pure

variable {w : World}

theorem elements_silent {xs : List (ArrayElement Node)} (hpure : areElementsPure xs)
    (h : ∀ n ∈ xs.flatMap ArrayElement.children, isPure n → IsSilent (meaning w n).evaluate) :
    forM (xs.map (ArrayElement.map fun c => (c.outline, meaning w c))) (elementRun w) =
      pure () := by
  induction xs with
  | nil => rfl
  | cons x rest ih =>
    simp only [List.flatMap_cons, List.forall_mem_append] at h
    rw [List.map_cons, List.forM_cons]
    cases x with
    | item value =>
      simp only [areElementsPure, Bool.and_eq_true] at hpure
      have hvalue := (h.1 value List.mem_cons_self hpure.1).discard
      rw [ArrayElement.map, elementRun, hvalue, pure_bind, ih hpure.2 h.2]
    | spread => cases hpure
    | hole => rw [ArrayElement.map, elementRun, pure_bind, ih hpure h.2]

theorem arePure_iff (ns : List Node) : arePure ns ↔ ∀ n ∈ ns, isPure n := by
  induction ns with
  | nil => simp [arePure]
  | cons n rest ih => simp [arePure, ih]

theorem areMembersPure_iff (ms : List Node) : areMembersPure ms ↔ ∀ m ∈ ms, areMembersPure [m] := by
  induction ms with
  | nil => simp [areMembersPure]
  | cons m rest ih => rw [areMembersPure_cons, Bool.and_eq_true, ih, List.forall_mem_cons]

theorem members_silent {ms : List Node} (hpure : areMembersPure ms)
    (h : ∀ m ∈ ms, areMembersPure [m] → (meaning w m).run [] = pure ()) :
    forM (ms.map fun m => (m.outline, meaning w m)) (fun m => m.2.run []) =
      (pure () : Run Unit) := by
  rw [areMembersPure_iff] at hpure
  refine forM_eq_pure fun x hx => ?_
  obtain ⟨m, hm, rfl⟩ := List.mem_map.1 hx
  exact h m hm (hpure m hm)

/-- A pure expression is silent, and so is a pure member of an object literal. -/
theorem silent_of_pure (hw : w.HidesPure) (n : Node) :
    (isPure n → IsSilent (meaning w n).evaluate) ∧
      (areMembersPure [n] → (meaning w n).run [] = pure ()) := by
  induction n using Node.induction with
  | h n ih =>
    obtain ⟨span, shape⟩ := n
    constructor
    · intro hpure
      -- The world sees outlines, which are as pure as the expressions.
      have hown : w.isSilent (Node.outline ⟨span, shape⟩) := hw _ (by rw [isPure_outline, hpure])
      have hwhole : IsSilent (whole w (Node.outline ⟨span, shape⟩)) := by
        rw [whole, if_pos hown]
        exact ⟨_, rfl⟩
      rw [meaning_eq]
      cases shape
      case unary operator operand =>
        cases operator
        case logicalNot =>
          exact ((ih operand (by simp [Shape.children])).1 hpure).bind_holds fun b =>
            .pure (.boolean !b)
        case void =>
          -- The operand is not evaluated at all, so nothing is needed of it.
          show IsSilent (if w.isSilent _ then _ else _)
          rw [if_pos hown]
          exact .pure _
        all_goals exact hwhole
      case binary operator left right =>
        have hleft := (ih left (by simp [Shape.children])).1
        have hright := (ih right (by simp [Shape.children])).1
        cases operator
        case logicalAnd =>
          obtain ⟨hl, hr⟩ := Bool.and_eq_true_iff.1 hpure
          exact (hleft hl).bind fun v => (hright hr).ite (.pure v)
        case logicalOr =>
          obtain ⟨hl, hr⟩ := Bool.and_eq_true_iff.1 hpure
          exact (hleft hl).bind fun v => IsSilent.ite (.pure v) (hright hr)
        -- Arithmetic over primitive values is not taken apart.
        all_goals exact hwhole
      case conditional test consequent alternate =>
        simp only [isPure, Bool.and_eq_true] at hpure
        obtain ⟨⟨htest, hconsequent⟩, halternate⟩ := hpure
        have htest := (ih test (by simp [Shape.children])).1 htest
        have hconsequent := (ih consequent (by simp [Shape.children])).1 hconsequent
        have halternate := (ih alternate (by simp [Shape.children])).1 halternate
        exact htest.bind_holds fun b => hconsequent.ite halternate
      case sequence elements =>
        rw [isPure, arePure_iff] at hpure
        refine .inTurn fun v hv => ?_
        simp only [List.map_map, List.mem_map] at hv
        obtain ⟨e, he, rfl⟩ := hv
        exact (ih e he).1 (hpure e he)
      case arrayLiteral elements =>
        have helements := elements_silent hpure fun e he => (ih e he).1
        show IsSilent (do forM _ _; made w _)
        rw [helements, pure_bind]
        exact ⟨_, rfl⟩
      case objectLiteral members =>
        have hmembers := members_silent hpure fun m hm => (ih m hm).2
        show IsSilent (do forM _ _; made w _)
        rw [hmembers, pure_bind]
        exact ⟨_, rfl⟩
      case stringLiteral value raw =>
        cases raw
        · exact .pure _
        · exact ⟨_, rfl⟩
      case nullLiteral | undefinedLiteral | booleanLiteral | numberLiteral | bigIntLiteral =>
        exact .pure _
      case regexLiteral | functionExpression | arrowFunction => exact ⟨_, rfl⟩
      case thisExpression | templateLiteral => exact hwhole
      all_goals cases hpure
    · intro hpure
      rw [meaning_eq]
      cases shape
      case objectMember content =>
        rcases content with ⟨⟨⟩ | ⟨⟩, ⟨⟩ | ⟨⟩ | ⟨_ | value⟩ | ⟨⟩⟩ | ⟨⟩ | ⟨⟩
        case valued.direct.property.some =>
          have hvalue := (ih value (by simp [Shape.children, ObjectMember.children,
            MemberValue.children])).1 (by simpa [areMembersPure] using hpure)
          exact hvalue.discard
        case valued.direct.getter | valued.direct.method | valued.direct.setter => rfl
        all_goals cases hpure
      all_goals cases hpure

theorem evaluate_of_isPure (hw : w.HidesPure) {n : Node} (h : isPure n) :
    IsSilent (meaning w n).evaluate :=
  (silent_of_pure hw n).1 h

/-- Whatever has a known truth is silent, and its value counts as it says. -/
theorem holds_of_truth (hw : w.HidesPure) {n : Node} {b : Bool} (h : truth? n = some b) :
    (meaning w n).evaluate.holds = pure b := by
  -- Only a negation looks further down, and it turns the truth of its operand over.
  induction n using Node.induction generalizing b with
  | h n ih =>
    obtain ⟨span, shape⟩ := n
    cases shape
    case unary operator operand =>
      cases operator
      case logicalNot =>
        simp only [truth?, Option.map_eq_some_iff] at h
        obtain ⟨b', hb', rfl⟩ := h
        have hoperand := ih operand (by simp [Shape.children]) hb'
        rw [meaning_eq]
        show Run.holds (do return .boolean !(← Run.holds _)) = _
        rw [hoperand]
        rfl
      case void =>
        simp only [truth?, Option.ite_none_right_eq_some, Option.some.injEq] at h
        obtain ⟨hoperand, rfl⟩ := h
        have hown : w.isSilent (Node.outline ⟨span, .unary .void operand⟩) :=
          hw _ (by rw [isPure_outline, isPure, hoperand])
        rw [meaning_eq]
        show Run.holds (if w.isSilent _ then _ else _) = _
        rw [if_pos hown]
        rfl
      all_goals cases h
    case arrayLiteral elements =>
      simp only [truth?, Option.ite_none_right_eq_some, Option.some.injEq] at h
      obtain ⟨helements, rfl⟩ := h
      have helements := elements_silent helements fun e _ => evaluate_of_isPure hw
      rw [meaning_eq]
      show Run.holds (do forM _ _; made w _) = _
      rw [helements]
      rfl
    case objectLiteral members =>
      simp only [truth?, Option.ite_none_right_eq_some, Option.some.injEq] at h
      obtain ⟨hmembers, rfl⟩ := h
      have hmembers := members_silent hmembers fun m _ => (silent_of_pure hw m).2
      rw [meaning_eq]
      show Run.holds (do forM _ _; made w _) = _
      rw [hmembers]
      rfl
    case stringLiteral value raw =>
      cases raw with
      | none => cases h; rw [meaning_eq]; rfl
      | some => cases h
    case nullLiteral | undefinedLiteral | booleanLiteral | numberLiteral | functionExpression
        | arrowFunction =>
      cases h
      rw [meaning_eq]
      rfl
    all_goals cases h

end Pure

end ScriptMin.Behaviour
