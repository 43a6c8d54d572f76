import ScriptMin.Grammar.Reader

/-!
# What readers ensure

`p.Ensures Q` says that what the reader `p` gives satisfies `Q`, wherever it starts. A reader
that fails gives nothing. There is one rule for each way of making a reader, so a property of what a
construct is read as is proved along its reader.
-/

namespace ScriptMin.Grammar.Parse

open Source

/-- Whatever the reader gives satisfies `Q`. -/
def Ensures {α : Type} (p : Parse α) (Q : α → Prop) : Prop :=
  ∀ reader a reader', p reader = .ok (a, reader') → Q a

/-- What a round comes to: a state in which another one can start, or a result. -/
def Round.Holds {σ ρ : Type} (I : σ → Prop) (Q : ρ → Prop) : Round σ ρ → Prop
  | .again state => I state
  | .done result => Q result

namespace Ensures

variable {α β σ ρ : Type} {p : Parse α} {k : α → Parse β} {Q : α → Prop} {R : β → Prop}

theorem mono {stronger : α → Prop} (h : p.Ensures stronger) (himp : ∀ a, stronger a → Q a) :
    p.Ensures Q :=
  fun reader a reader' hp => himp a (h reader a reader' hp)

theorem and {other : α → Prop} (h : p.Ensures Q) (h' : p.Ensures other) :
    p.Ensures fun a => Q a ∧ other a :=
  fun reader a reader' hp => ⟨h reader a reader' hp, h' reader a reader' hp⟩

/-- A reader after another one, whose value is known to satisfy something. -/
theorem bind (h : p.Ensures Q) (hk : ∀ a, Q a → (k a).Ensures R) :
    (p >>= k).Ensures R := by
  intro reader b reader' hb
  simp only [Bind.bind, StateT.bind, Except.bind] at hb
  split at hb
  case h_1 => cases hb
  case h_2 result hp =>
    obtain ⟨a, after⟩ := result
    exact hk a (h reader a after hp) after b reader' hb

/-- A reader after one whose value may be anything. -/
theorem bind_any (hk : ∀ a, (k a).Ensures R) : (p >>= k).Ensures R :=
  bind (Q := fun _ => True) (fun _ _ _ _ => trivial) fun a _ => hk a

theorem pure {a : α} (h : Q a) : (pure a : Parse α).Ensures Q := by
  intro reader a' reader' hp
  cases hp
  exact h

theorem ite {c : Prop} [Decidable c] {p q : Parse α} (hp : c → p.Ensures Q)
    (hq : ¬c → q.Ensures Q) : (if c then p else q).Ensures Q := by
  split
  · exact hp ‹_›
  · exact hq ‹_›

/-! ## Readers that give nothing -/

theorem fails (failure : Failure) : (throw failure : Parse α).Ensures Q := by
  intro reader a reader' h
  cases h

theorem refuse {error : SyntaxError} : (refuse error : Parse α).Ensures Q := fails _

theorem exhausted : (exhausted : Parse α).Ensures Q := fails _

theorem unexpected {t : Token} : (unexpected t : Parse α).Ensures Q := refuse

/-- What stands after a reader that gives nothing is not reached. -/
theorem bind_refuse {error : SyntaxError} : (Parse.refuse error >>= k).Ensures R :=
  refuse.bind fun _ (h : False) => h.elim

theorem bind_unexpected {t : Token} : (Parse.unexpected t >>= k).Ensures R :=
  unexpected.bind fun _ (h : False) => h.elim

/-! ## Checks -/

theorem check {r : Except SyntaxError α} (h : ∀ a, r = .ok a → Q a) :
    (check r).Ensures Q := by
  cases r with
  | ok a => exact pure (h a rfl)
  | error _ => exact refuse

/-! ## Repetition -/

/-- What holds at the start and is kept by every round holds at the end. -/
theorem iterate {round : σ → Parse (Round σ ρ)} {I : σ → Prop} {Q : ρ → Prop}
    (h : ∀ state, I state → (round state).Ensures (Round.Holds I Q))
    (bound : Nat) {state : σ} (hstate : I state) :
    (iterate round bound state).Ensures Q := by
  induction bound generalizing state with
  | zero => exact exhausted
  | succ bound ih =>
    refine bind (h state hstate) fun r hr => ?_
    cases r with
    | again state => exact ih hr
    | done result => exact pure hr

/-- Every value that is collected satisfies what a round ensures. -/
theorem collect {round : Parse (Option α)} (h : round.Ensures fun o => ∀ a ∈ o, Q a)
    (bound : Nat) : (collect bound round).Ensures fun read => ∀ a ∈ read, Q a := by
  refine bind (iterate (I := fun read => ∀ a ∈ read, Q a)
    (Q := fun read => ∀ a ∈ read, Q a) (fun read hread => ?_) bound nofun)
    fun reversed hreversed => pure (by simpa using hreversed)
  refine bind h fun o ho => ?_
  cases o with
  | none => exact pure hread
  | some a => exact pure (List.forall_mem_cons.2 ⟨ho a rfl, hread⟩)

theorem attempt {keeps : Cause → Bool} {read : Parse α} (h : read.Ensures Q) :
    (attempt keeps read).Ensures fun o => ∀ a ∈ o, Q a := by
  intro reader o reader' ho
  simp only [Parse.attempt] at ho
  split at ho
  case h_1 a after hread =>
    cases ho
    intro b hb
    cases hb
    exact h reader a reader' hread
  case h_2 =>
    split at ho
    · cases ho
    · cases ho
      nofun
  case h_3 => cases ho

end Ensures

end ScriptMin.Grammar.Parse
