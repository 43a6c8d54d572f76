import ScriptMin.Grammar.Reader

/-!
# Readers that end

`p.Runs r Q` says that the reader `p`, started at `r`, comes to an end before a bound on the work
does, and that a value it gives and the place it leaves off at satisfy `Q`. As for `Ensures`, there
is one rule for each way of making a reader; `iterate` asks for a measure that every round lowers.
-/

namespace ScriptMin.Grammar.Parse

open Source

/-- From `r` the reader ends: it is refused, or gives a value and a place that satisfy `Q`. -/
def Runs {α : Type} (p : Parse α) (r : Reader) (Q : α → Reader → Prop) : Prop :=
  match p r with
  | .ok (a, r') => Q a r'
  | .error failure => failure ≠ .exhausted

/-- What a round comes to, and where. -/
def Round.Meets {σ ρ : Type} (I : σ → Reader → Prop) (Q : ρ → Reader → Prop) :
    Round σ ρ → Reader → Prop
  | .again state => I state
  | .done result => Q result

namespace Runs

variable {α β σ ρ : Type} {p : Parse α} {k : α → Parse β} {r : Reader} {Q : α → Reader → Prop}
  {R : β → Reader → Prop}

theorem mono {stronger : α → Reader → Prop} (h : p.Runs r stronger)
    (himp : ∀ a r', stronger a r' → Q a r') : p.Runs r Q := by
  unfold Runs at h ⊢
  split at h
  case h_1 a r' _ => exact himp a r' h
  case h_2 => exact h

/-- A reader that goes on where another one left off. -/
theorem bind (h : p.Runs r Q) (hk : ∀ a r', Q a r' → (k a).Runs r' R) : (p >>= k).Runs r R := by
  unfold Runs at h ⊢
  simp only [Bind.bind, StateT.bind, Except.bind]
  split at h
  case h_1 a r' hp =>
    rw [hp]
    exact hk a r' h
  case h_2 failure hp =>
    rw [hp]
    exact h

theorem pure {a : α} (h : Q a r) : (pure a : Parse α).Runs r Q := h

/-- A value between two readers. -/
theorem bind_pure {a : α} (h : (k a).Runs r R) : (Pure.pure a >>= k).Runs r R := h

theorem ite {c : Prop} [Decidable c] {p q : Parse α} (hp : c → p.Runs r Q)
    (hq : ¬c → q.Runs r Q) : (if c then p else q).Runs r Q := by
  split
  · exact hp ‹_›
  · exact hq ‹_›

/-! ## Refusals and checks -/

theorem refuse {error : SyntaxError} : (refuse error : Parse α).Runs r Q := by
  simp [Runs, Parse.refuse, throw, throwThe, MonadExceptOf.throw, StateT.lift, Except.bind,
    Bind.bind]

theorem unexpected {t : Token} : (unexpected t : Parse α).Runs r Q := refuse

/-- What stands after a reader that is refused is not reached. -/
theorem bind_refuse {error : SyntaxError} : (Parse.refuse error >>= k).Runs r R :=
  refuse.bind fun _ _ (h : False) => h.elim

theorem bind_unexpected {t : Token} : (Parse.unexpected t >>= k).Runs r R := bind_refuse

theorem check {result : Except SyntaxError α} (h : ∀ a, result = .ok a → Q a r) :
    (check result).Runs r Q := by
  cases result with
  | ok a => exact pure (h a rfl)
  | error _ => exact refuse

/-- A check between two readers. -/
theorem bind_check {result : Except SyntaxError α} (h : ∀ a, result = .ok a → (k a).Runs r R) :
    (Parse.check result >>= k).Runs r R := by
  cases result with
  | ok a => exact h a rfl
  | error _ => exact bind_refuse

theorem bind_require {cause : Cause} {t : Token} {value : Option α} (h : ∀ a, (k a).Runs r R) :
    (require cause t value >>= k).Runs r R := by
  cases value with
  | some a => exact h a
  | none => exact bind_refuse

/-! ## Places -/

theorem bind_get {k : Reader → Parse β} (h : (k r).Runs r R) : (get >>= k).Runs r R := h

/-- Reads on with the place of the next token in hand. -/
theorem bind_mark {k : Cursor → Parse β} (h : (k r.cursor).Runs r R) : (mark >>= k).Runs r R := h

theorem bind_rewind {place : Cursor} {k : Unit → Parse β} (h : (k ()).Runs ⟨place, none⟩ R) :
    (rewind place >>= k).Runs r R := h

theorem bind_spanFrom {place : Cursor} {k : Span → Parse β}
    (h : (k ⟨place.position, r.cursor.position⟩).Runs r R) : (spanFrom place >>= k).Runs r R := h

/-! ## Repetition -/

/-- What holds at the start and is kept by every round holds at the end, and the rounds come to an
end if each one that is not the last lowers a measure below the bound. -/
theorem iterate {round : σ → Parse (Round σ ρ)} {I : σ → Reader → Prop} {Q : ρ → Reader → Prop}
    {m : Reader → Nat}
    (h : ∀ state r, I state r →
      (round state).Runs r (Round.Meets (fun state r' => I state r' ∧ m r' < m r) Q))
    {bound : Nat} {state : σ} {r : Reader} (hstate : I state r) (hbound : m r < bound) :
    (iterate round bound state).Runs r Q := by
  induction bound generalizing state r with
  | zero => exact absurd hbound (Nat.not_lt_zero _)
  | succ bound ih =>
    refine bind (h state r hstate) fun x r' hx => ?_
    cases x with
    | again state => exact ih hx.1 (Nat.lt_of_lt_of_le hx.2 (Nat.le_of_lt_succ hbound))
    | done result => exact pure hx

/-- A reading that is tried leaves no trace if it is refused. -/
theorem attempt {keeps : Cause → Bool} {Q : Option α → Reader → Prop}
    (h : p.Runs r fun a r' => Q (some a) r') (hnone : Q none ⟨r.cursor, none⟩) :
    (attempt keeps p).Runs r Q := by
  unfold Runs Parse.attempt at *
  cases hp : p r with
  | ok result =>
    rw [hp] at h
    exact h
  | error failure =>
    rw [hp] at h
    cases failure with
    | refused error => by_cases hkeeps : keeps error.cause <;> simp [hkeeps, hnone]
    | exhausted => exact absurd rfl h

end Runs

end ScriptMin.Grammar.Parse
