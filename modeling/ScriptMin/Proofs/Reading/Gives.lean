import ScriptMin.Proofs.Reading.Tokens
import ScriptMin.Proofs.Token.Word

/-!
# Readers run on a known text

Where the next token is known, it is known what a reader of one token does. `Meets` says which token
comes next, also if it was read ahead, and `bind_ok` follows a reader from one step to the next.

`p.Gives r Q` is for a reader that need not come to an end: what `p` gives from `r` satisfies `Q`,
and a reader that is refused or runs into a bound on the work gives nothing.
-/

namespace ScriptMin.Grammar

open Source Parse

/-! ## The next token -/

/-- The next token is this one in both slash modes, also if it was read ahead. -/
structure Reader.Meets (r : Reader) (t : Token) (c : Cursor) : Prop where
  coherent : r.Coherent
  starts : r.cursor.Starts t c

section

variable {α β σ ρ : Type} {p : Parse α} {k : α → Parse β} {r r' : Reader} {a : α} {t : Token}
  {c c' : Cursor}

/-- A token that was looked at is the one ahead. -/
theorem Reader.coherent_ahead {c c' : Cursor} {mode : SlashMode} {t : Token}
    (h : c.next mode = .ok (t, c')) : Reader.Coherent ⟨c, some ⟨t, mode, c'⟩⟩ := by
  rintro _ ⟨⟩
  exact h

theorem Reader.Meets.fresh (h : c.Starts t c') : Reader.Meets ⟨c, none⟩ t c' :=
  ⟨coherent_fresh c, h⟩

/-- A look at the next token changes nothing. -/
theorem Reader.Meets.again (h : r.Meets t c) (mode : SlashMode) :
    Reader.Meets ⟨r.cursor, some ⟨t, mode, c⟩⟩ t c :=
  ⟨coherent_ahead (h.starts mode), h.starts⟩

namespace Parse

/-- A reader after one that is known to give a value. -/
theorem bind_ok (h : p r = .ok (a, r')) : (p >>= k) r = k a r' := by
  simp only [Bind.bind, StateT.bind, Except.bind, h]

theorem bind_error {failure : Failure} (h : p r = .error failure) :
    (p >>= k) r = .error failure := by
  simp only [Bind.bind, StateT.bind, Except.bind, h]

theorem mark_ok (r : Reader) : mark r = .ok (r.cursor, r) := rfl

/-- A token ahead is stepped over. -/
theorem skip_ahead (place after : Cursor) (t : Token) (mode : SlashMode) :
    skip ⟨place, some ⟨t, mode, after⟩⟩ = .ok ((), ⟨after, none⟩) := rfl

theorem rewind_ok (place : Cursor) (r : Reader) : rewind place r = .ok ((), ⟨place, none⟩) := rfl

theorem spanFrom_ok (place : Cursor) (r : Reader) :
    spanFrom place r = .ok (⟨place.position, r.cursor.position⟩, r) := rfl

theorem iterate_done {round : σ → Parse (Round σ ρ)} {s : σ} (bound : Nat) (result : ρ)
    (r' : Reader) (h : round s r = .ok (.done result, r')) :
    iterate round (bound + 1) s r = .ok (result, r') :=
  bind_ok h

/-- A reader that goes on like another one from elsewhere. -/
theorem bind_eq {q : Parse α} (h : p r = q r') : (p >>= k) r = (q >>= k) r' := by
  simp only [Bind.bind, StateT.bind, Except.bind, h]

/-- A reader that changes what another one gives. -/
theorem bind_map {q : Parse ρ} {g : ρ → α} (h : p r = (do return g (← q) : Parse α) r') :
    (p >>= k) r = (q >>= fun b => k (g b)) r' := by
  simp only [Bind.bind, StateT.bind, Except.bind] at h ⊢
  rw [h]
  cases q r' <;> rfl

/-- The next token is the one that the text gives, also if it was read ahead. -/
theorem forward_eq (h : r.Coherent) (mode : SlashMode) (takes : Token → Bool) :
    forward mode takes r =
      match r.cursor.next mode with
      | .ok (t, after) =>
        .ok (t, if takes t then ⟨after, none⟩ else ⟨r.cursor, some ⟨t, mode, after⟩⟩)
      | .error error => .error (.refused error) := by
  have hlex : lex mode r = check (r.cursor.next mode) r := rfl
  obtain ⟨cursor, ahead⟩ := r
  refine (bind_ok (r := ⟨cursor, ahead⟩) rfl).trans ?_
  have hafresh {k : Token × Cursor → Parse Token} : (lex mode >>= k) ⟨cursor, ahead⟩ =
      match cursor.next mode with
      | .ok result => k result ⟨cursor, ahead⟩
      | .error error => .error (.refused error) := by
    simp only [Bind.bind, StateT.bind, Except.bind, hlex]
    cases cursor.next mode <;> rfl
  cases ahead with
  | none =>
    refine hafresh.trans ?_
    cases cursor.next mode <;> rfl
  | some ahead =>
    by_cases hmode : ahead.mode = mode
    · subst hmode
      rw [show cursor.next ahead.mode = _ from h ahead rfl]
      simp only [if_true]
      rfl
    · simp only [hmode, if_false]
      refine hafresh.trans ?_
      cases cursor.next mode <;> rfl

theorem forward_ok (h : r.Meets t c) (mode : SlashMode) (takes : Token → Bool) :
    forward mode takes r =
      .ok (t, if takes t then ⟨c, none⟩ else ⟨r.cursor, some ⟨t, mode, c⟩⟩) := by
  rw [forward_eq h.coherent, h.starts]

theorem nextIn_ok (h : r.Meets t c) (mode : SlashMode) : nextIn mode r = .ok (t, ⟨c, none⟩) :=
  forward_ok h mode _

theorem peekIn_ok (h : r.Meets t c) (mode : SlashMode) :
    peekIn mode r = .ok (t, ⟨r.cursor, some ⟨t, mode, c⟩⟩) :=
  forward_ok h mode _

theorem takeIf_some (h : r.Meets t c) (accepts : Kind → Bool) (ht : accepts t.kind) :
    takeIf accepts r = .ok (some t, ⟨c, none⟩) := by
  refine (bind_ok (forward_ok h _ _)).trans ?_
  simp only [ht, if_true]
  rfl

theorem took_true (h : r.Meets t c) {kind : Kind} (ht : t.kind = kind) :
    took kind r = .ok (true, ⟨c, none⟩) :=
  bind_ok (takeIf_some h (· == kind) (beq_iff_eq.2 ht))

theorem takeIf_none (h : r.Meets t c) (accepts : Kind → Bool) (ht : accepts t.kind = false) :
    takeIf accepts r = .ok (none, ⟨r.cursor, some ⟨t, .division, c⟩⟩) := by
  refine (bind_ok (forward_ok h _ _)).trans ?_
  simp only [ht]
  rfl

theorem took_false (h : r.Meets t c) {kind : Kind} (ht : t.kind ≠ kind) :
    took kind r = .ok (false, ⟨r.cursor, some ⟨t, .division, c⟩⟩) :=
  bind_ok (takeIf_none h (· == kind) (beq_eq_false_iff_ne.2 ht))

theorem expectIn_ok (h : r.Meets t c) (accepts : Kind → Bool) (ht : accepts t.kind) :
    expectIn accepts r = .ok (t, ⟨c, none⟩) := by
  refine (bind_ok (nextIn_ok h _)).trans ?_
  simp only [ht, if_true]
  rfl

theorem expect_ok (h : r.Meets t c) {kind : Kind} (ht : t.kind = kind) :
    expect kind r = .ok (t, ⟨c, none⟩) :=
  expectIn_ok h (· == kind) (beq_iff_eq.2 ht)

theorem expect_error (h : r.Meets t c) {kind : Kind} (ht : t.kind ≠ kind) :
    expect kind r = .error (.refused t.unexpected) := by
  refine (bind_ok (nextIn_ok h _)).trans ?_
  rw [if_neg (mt beq_iff_eq.1 ht)]
  rfl

theorem atPunctuator_ok (h : r.Meets t c) (p : Punctuator) :
    atPunctuator p r = .ok (t.kind == .punctuator p, ⟨r.cursor, some ⟨t, .division, c⟩⟩) :=
  bind_ok (peekIn_ok h _)

end Parse

end

/-! ## What a reader gives -/

/-- What the reader gives from `r`, if it gives something, satisfies `Q`. -/
def Parse.Gives {α : Type} (p : Parse α) (r : Reader) (Q : α → Reader → Prop) : Prop :=
  ∀ a r', p r = .ok (a, r') → Q a r'

/-- From `r` the reader gives nothing. -/
abbrev Parse.Fails {α : Type} (p : Parse α) (r : Reader) : Prop := p.Gives r fun _ _ => False

namespace Parse.Gives

variable {α β σ ρ : Type} {p : Parse α} {k : α → Parse β} {r r' : Reader} {a : α}
  {Q : α → Reader → Prop} {R : β → Reader → Prop}

theorem bind (h : p.Gives r Q) (hk : ∀ a r', Q a r' → (k a).Gives r' R) : (p >>= k).Gives r R := by
  intro b r'' hb
  simp only [Bind.bind, StateT.bind, Except.bind] at hb
  split at hb
  case h_1 => cases hb
  case h_2 result hp =>
    obtain ⟨a, r'⟩ := result
    exact hk a r' (h a r' hp) b r'' hb

/-- A reader after one that is known to give a value. -/
theorem step (h : p r = .ok (a, r')) (hk : (k a).Gives r' R) : (p >>= k).Gives r R := by
  intro b r'' hb
  rw [bind_ok h] at hb
  exact hk b r'' hb

theorem mono {Q' : α → Reader → Prop} (h : p.Gives r Q) (himp : ∀ a r', Q a r' → Q' a r') :
    p.Gives r Q' := fun a r' hp => himp a r' (h a r' hp)

theorem of_fails (h : p.Fails r) : p.Gives r Q := fun a r' hp => (h a r' hp).elim

/-- A reader that goes on like another one from elsewhere. -/
theorem of_eq {q : Parse α} (h : p r = q r') (hq : q.Gives r' Q) : p.Gives r Q := by
  intro a r'' hp
  rw [h] at hp
  exact hq a r'' hp

theorem bind_any (hk : ∀ a r', (k a).Gives r' R) : (p >>= k).Gives r R :=
  bind (Q := fun _ _ => True) (fun _ _ _ => trivial) fun a r' _ => hk a r'

/-- What stands after a reader that gives nothing is not reached. -/
theorem bind_fails (h : p.Fails r) : (p >>= k).Gives r R := h.bind fun _ _ hfalse => hfalse.elim

theorem pure (h : Q a r) : (Pure.pure a : Parse α).Gives r Q := by
  rintro _ _ ⟨⟩
  exact h

theorem refuse {error : SyntaxError} : (Parse.refuse error : Parse α).Gives r Q := by
  rintro _ _ ⟨⟩

theorem unexpected {t : Token} : (Parse.unexpected t : Parse α).Gives r Q := refuse

theorem exhausted : (Parse.exhausted : Parse α).Gives r Q := by
  rintro _ _ ⟨⟩

theorem ite {c : Prop} [Decidable c] {q : Parse α} (hp : c → p.Gives r Q) (hq : ¬c → q.Gives r Q) :
    (if c then p else q).Gives r Q := by
  split
  · exact hp ‹_›
  · exact hq ‹_›

/-- What stands after a check that fails is not reached. -/
theorem bind_check {result : Except SyntaxError α} (h : ∀ a, result ≠ .ok a) :
    (check result >>= k).Gives r R := by
  cases result with
  | ok a => exact absurd rfl (h a)
  | error error => exact bind_fails refuse

theorem check {result : Except SyntaxError α} :
    (Parse.check result).Gives r fun a r' => result = .ok a ∧ r' = r := by
  cases result with
  | ok a => exact pure ⟨rfl, rfl⟩
  | error error => exact refuse

/-- One more round of a repetition. -/
theorem unroll {round : σ → Parse (Round σ ρ)} {s : σ} {R : ρ → Reader → Prop}
    (h : (round s).Gives r
      (Round.Meets (fun s r' => ∀ bound, (iterate round bound s).Gives r' R) R)) (bound : Nat) :
    (iterate round bound s).Gives r R := by
  cases bound with
  | zero => exact exhausted
  | succ bound =>
    refine bind h fun x r' hx => ?_
    cases x with
    | again s => exact hx bound
    | done result => exact pure hx

/-- What a repetition gives is related to where it started, if every round hands the relation
back. -/
theorem iterate {round : σ → Parse (Round σ ρ)} {I : σ → Reader → Prop}
    {T : σ → Reader → ρ → Reader → Prop}
    (h : ∀ s r, I s r → (round s).Gives r
      (Round.Meets (fun s' r' => I s' r' ∧ ∀ a r'', T s' r' a r'' → T s r a r'') (T s r)))
    (bound : Nat) {s : σ} (hs : I s r) : (iterate round bound s).Gives r (T s r) := by
  induction bound generalizing s r with
  | zero => exact exhausted
  | succ bound ih =>
    refine bind (h s r hs) fun x r' hx => ?_
    cases x with
    | again s' => exact fun a r'' ha => hx.2 a r'' (ih hx.1 a r'' ha)
    | done result => exact pure hx

/-- A reading that is tried and gives nothing is taken back. -/
theorem attempt_value {keeps : Cause → Bool} :
    (attempt keeps p).Gives r fun o r' => o = none → r' = ⟨r.cursor, none⟩ := by
  intro o r' ho
  unfold attempt at ho
  split at ho
  case h_1 =>
    cases ho
    exact nofun
  case h_2 =>
    split at ho
    · cases ho
    · cases ho
      exact fun _ => rfl
  case h_3 => cases ho

/-- A reading that is tried and fails is taken back. -/
theorem attempt_fails {keeps : Cause → Bool} (h : p.Fails r) :
    (attempt keeps p).Gives r fun o r' => o = none ∧ r' = ⟨r.cursor, none⟩ := by
  intro o r' ho
  unfold attempt at ho
  split at ho
  case h_1 a r'' hp => exact (h a r'' hp).elim
  case h_2 =>
    split at ho
    · cases ho
    · cases ho
      exact ⟨rfl, rfl⟩
  case h_3 => cases ho

/-! ## By the next token -/

section

variable {t : Token} {c : Cursor} {p : Punctuator} {yes no : Parse β} (hr : r.Coherent)

include hr

theorem forward (mode : SlashMode) (takes : Token → Bool) :
    (Parse.forward mode takes).Gives r (Advances mode takes r) := by
  intro t r' hforward
  rw [forward_eq hr] at hforward
  split at hforward
  case h_1 hnext =>
    cases hforward
    exact ⟨_, hnext, rfl⟩
  case h_2 => cases hforward

theorem bind_peek {k : Token → Parse β} (hk : ∀ t c, r.cursor.next .division = .ok (t, c) →
    (k t).Gives ⟨r.cursor, some ⟨t, .division, c⟩⟩ R) : (peek >>= k).Gives r R := by
  refine (forward hr .division fun _ => false).bind ?_
  rintro t _ ⟨c, hnext, rfl⟩
  exact hk t c hnext

theorem bind_expectIn {accepts : Kind → Bool} {k : Token → Parse β}
    (hk : ∀ t c, r.cursor.next .division = .ok (t, c) → accepts t.kind → (k t).Gives ⟨c, none⟩ R) :
    (expectIn accepts >>= k).Gives r R := by
  refine .bind (Q := fun t r' => ∃ c, r.cursor.next .division = .ok (t, c) ∧ accepts t.kind ∧
    r' = ⟨c, none⟩) ?_ ?_
  · refine (forward hr .division fun _ => true).bind ?_
    rintro t _ ⟨c, hnext, rfl⟩
    exact ite (fun haccepts => pure ⟨c, hnext, haccepts, rfl⟩) fun _ => unexpected
  · rintro t _ ⟨c, hnext, haccepts, rfl⟩
    exact hk t c hnext haccepts

theorem bind_expectPunctuator {k : Token → Parse β}
    (hk : ∀ t c, r.cursor.next .division = .ok (t, c) → t.kind = .punctuator p →
      (k t).Gives ⟨c, none⟩ R) : (expectPunctuator p >>= k).Gives r R := by
  show (expectIn (· == .punctuator p) >>= k).Gives r R
  exact bind_expectIn hr fun t c hnext hp => hk t c hnext (beq_iff_eq.1 hp)

theorem if_tookPunctuator
    (htakes : ∀ t c, r.cursor.next .division = .ok (t, c) → t.kind = .punctuator p →
      yes.Gives ⟨c, none⟩ R)
    (hsees : ∀ t c, r.cursor.next .division = .ok (t, c) → t.kind ≠ .punctuator p →
      no.Gives ⟨r.cursor, some ⟨t, .division, c⟩⟩ R) :
    (tookPunctuator p >>= fun b => if b then yes else no).Gives r R := by
  refine .bind (Q := fun b r' => ∃ t, b = (t.kind == .punctuator p) ∧
    Advances .division (fun t => t.kind == .punctuator p) r t r') ?_ ?_
  · refine .bind (Q := fun o r' => ∃ t, o.isSome = (t.kind == .punctuator p) ∧
      Advances .division (fun t => t.kind == .punctuator p) r t r') ?_ ?_
    · exact (forward hr .division _).bind fun t r' h => pure ⟨t, by split <;> simp_all, h⟩
    · rintro o r' ⟨t, ho, h⟩
      exact pure ⟨t, ho, h⟩
  · rintro b r' ⟨t, rfl, c, hnext, rfl⟩
    refine ite (fun hp => ?_) fun hp => ?_
    · simp only [hp, if_true]
      exact htakes t c hnext (beq_iff_eq.1 hp)
    · simp only [hp]
      exact hsees t c hnext (mt beq_iff_eq.2 hp)

theorem if_atPunctuator
    (hyes : ∀ t c, r.cursor.next .division = .ok (t, c) → t.kind = .punctuator p →
      yes.Gives ⟨r.cursor, some ⟨t, .division, c⟩⟩ R)
    (hno : ∀ t c, r.cursor.next .division = .ok (t, c) → t.kind ≠ .punctuator p →
      no.Gives ⟨r.cursor, some ⟨t, .division, c⟩⟩ R) :
    (atPunctuator p >>= fun b => if b then yes else no).Gives r R := by
  refine .bind (Q := fun b r' => ∃ t c, b = (t.kind == .punctuator p) ∧
    r.cursor.next .division = .ok (t, c) ∧ r' = ⟨r.cursor, some ⟨t, .division, c⟩⟩) ?_ ?_
  · exact bind_peek hr fun t c hnext => pure ⟨t, c, rfl, hnext, rfl⟩
  · rintro b r' ⟨t, c, rfl, hnext, rfl⟩
    refine ite (fun hp => hyes t c hnext (beq_iff_eq.1 hp)) fun hp => ?_
    exact hno t c hnext (mt beq_iff_eq.2 hp)

end

end Parse.Gives

end ScriptMin.Grammar
