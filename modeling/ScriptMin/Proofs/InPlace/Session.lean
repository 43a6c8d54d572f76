import ScriptMin.Grammar.Rules

/-!
# One stack of frames

A parser can keep its frames in one stack and change them where they are. Whoever goes into a
function pushes a frame and pops it afterwards, a flag is set and set back, a label is put on and
taken off, and a directive changes the frame at hand. A failure undoes nothing by itself: the stack
stays as it is where the failure happened, but for what those who pass it on put back.

`p.Follows q f R` says that `p`, run in place on the frame `f`, does what `q` does: it gives the
same failure, or leaves off at the same reader with a value and a frame at hand that are related by
`R`. What lies below the frame at hand is left alone, also by a failure.
-/

namespace ScriptMin.Grammar

open Parse

/-- A reader, the frame at hand and the frames below it. -/
structure Session where
  reader : Reader
  frame : Frame
  below : List Frame

/-- The session without the frame at hand. The last frame is never dropped. -/
def Session.popped (s : Session) : Session :=
  match s.below with
  | [] => s
  | frame :: below => ⟨s.reader, frame, below⟩

/-- A flag of a frame that is set for a part of the source. -/
inductive Flag where
  | loop
  | switch
  | parameters

namespace Flag

def get : Flag → Frame → Bool
  | .loop, f => f.inLoop
  | .switch, f => f.inSwitch
  | .parameters, f => f.inParameters

def set : Flag → Bool → Frame → Frame
  | .loop, inLoop, f => { f with inLoop }
  | .switch, inSwitch, f => { f with inSwitch }
  | .parameters, inParameters, f => { f with inParameters }

theorem set_get_set (flag : Flag) (f : Frame) (value : Bool) :
    flag.set (flag.get f) (flag.set value f) = f := by
  cases flag <;> rfl

end Flag

/-- Reading in a session. The session is there also after a failure. -/
abbrev InPlace := ExceptT Failure (StateM Session)

namespace InPlace

variable {α σ ρ : Type}

/-- What only reads tokens leaves the frames alone. -/
def lift (p : Parse α) : InPlace α := fun s =>
  match p s.reader with
  | .ok (a, reader) => (.ok a, { s with reader })
  | .error failure => (.error failure, s)

instance : MonadLift Parse InPlace := ⟨lift⟩

/-- The frame at hand. -/
def frame : InPlace Frame := fun s => (.ok s.frame, s)

def modifyFrame (change : Frame → Frame) : InPlace Unit :=
  fun s => (.ok (), { s with frame := change s.frame })

/-- Reads with a frame of its own at hand, and gives what has become of that frame. The frame is
dropped also after a failure, as the caller may go back and read on. -/
def withFrame (frame : Frame) (p : InPlace α) : InPlace (α × Frame) := fun s =>
  let (result, s) := p ⟨s.reader, frame, s.frame :: s.below⟩
  (result.map (·, s.frame), s.popped)

/-- Reads with a flag set, which then gets its old value back. -/
def withFlag (flag : Flag) (p : InPlace α) : InPlace α := fun s =>
  let previous := flag.get s.frame
  let (result, s) := p { s with frame := flag.set true s.frame }
  (result, { s with frame := flag.set previous s.frame })

/-- Reads behind a label, which is then taken off. -/
def withLabel (name : String) (p : InPlace α) : InPlace α := fun s =>
  let (result, s) := p { s with frame := s.frame.labelled name }
  (result, { s with frame := { s.frame with labels := s.frame.labels.tail } })

/-- Tries to read. If that is refused, the reader goes back to the start, but the frames stay as
they are by then. -/
def attempt (keeps : Cause → Bool) (p : InPlace α) : InPlace (Option α) := fun s =>
  match p s with
  | (.ok a, s) => (.ok (some a), s)
  | (.error (.refused error), s') =>
    if keeps error.cause then (.error (.refused error), s')
    else (.ok none, { s' with reader := ⟨s.reader.cursor, none⟩ })
  | (.error .exhausted, s) => (.error .exhausted, s)

/-- Repeats a round for as long as it asks for it, at most `bound` times. -/
def iterate (round : σ → InPlace (Round σ ρ)) : Nat → σ → InPlace ρ
  | 0, _ => exhausted
  | bound + 1, state => do
    match ← round state with
    | .again state => iterate round bound state
    | .done result => return result

/-- Collects what each round reads, until one reads nothing. -/
def collect (bound : Nat) (round : InPlace (Option α)) : InPlace (List α) := do
  let reversed ← iterate
    (fun (read : List α) => do
      match ← round with
      | some value => return Round.again (value :: read)
      | none => return .done read)
    bound []
  return reversed.reverse

/-! ## Following -/

/-- Two runs with the same outcome, the first of them with `below` under the frame at hand. -/
inductive RunsAlong {α β : Type} (below : List Frame) (R : α → β → Frame → Prop) :
    Except Failure α × Session → Except Failure (β × Reader) → Prop
  | ok {a : α} {b : β} {r : Reader} {g : Frame} (h : R a b g) :
    RunsAlong below R (.ok a, ⟨r, g, below⟩) (.ok (b, r))
  | error {failure : Failure} {s : Session} (h : s.below = below) :
    RunsAlong below R (.error failure, s) (.error failure)

/-- On the frame `f`, the first does in place what the second does. -/
def Follows {α β : Type} (p : InPlace α) (q : Parse β) (f : Frame)
    (R : α → β → Frame → Prop) : Prop :=
  ∀ r below, RunsAlong below R (p ⟨r, f, below⟩) (q r)

/-- On the frame `f`, the two give the same values, and the frame is at hand again afterwards. -/
abbrev Tracks {α : Type} (p : InPlace α) (q : Parse α) (f : Frame) : Prop :=
  p.Follows q f fun a b g => a = b ∧ g = f

section

variable {α β α' β' σ σ' ρ ρ' : Type} {p : InPlace α} {q : Parse β} {f g : Frame}
  {R : α → β → Frame → Prop} {S : α' → β' → Frame → Prop} {k : α → InPlace α'} {l : β → Parse β'}

namespace Follows

theorem bind (h : p.Follows q f R) (hk : ∀ a b g, R a b g → (k a).Follows (l b) g S) :
    Follows (p >>= k) (q >>= l) f S := by
  intro r below
  have hrun := h r below
  show RunsAlong below S ((ExceptT.bind p k).run ⟨r, f, below⟩) (StateT.bind q l r)
  simp only [ExceptT.run, ExceptT.bind, ExceptT.mk, StateT.bind, Bind.bind, Except.bind]
  generalize p ⟨r, f, below⟩ = x at hrun ⊢
  generalize q r = y at hrun ⊢
  cases hrun with
  | ok hab => exact hk _ _ _ hab _ _
  | error hbelow => exact .error hbelow

theorem pure {a : α} {b : β} (h : R a b f) : Follows (Pure.pure a) (Pure.pure b) f R :=
  fun _ _ => .ok h

theorem mono {R' : α → β → Frame → Prop} (h : p.Follows q f R) (hR : ∀ a b g, R a b g → R' a b g) :
    p.Follows q f R' := by
  intro r below
  have hrun := h r below
  generalize p ⟨r, f, below⟩ = x at hrun ⊢
  generalize q r = y at hrun ⊢
  cases hrun with
  | ok hab => exact .ok (hR _ _ _ hab)
  | error hbelow => exact .error hbelow

theorem refuse (error : SyntaxError) :
    Follows (InPlace.lift (Parse.refuse error) : InPlace α) (Parse.refuse error : Parse β) f R :=
  fun _ _ => .error rfl

theorem of_eq {q' : Parse β} (h : p.Follows q f R) (hq : q' = q) : p.Follows q' f R := by
  rwa [hq]

theorem ite {c : Prop} [Decidable c] {p' : InPlace α} {q' : Parse β} (hp : c → p.Follows q f R)
    (hp' : ¬c → p'.Follows q' f R) : Follows (if c then p else p') (if c then q else q') f R := by
  split
  · exact hp ‹_›
  · exact hp' ‹_›

/-- What needs the frame at hand finds it there. -/
theorem frame {k : Frame → InPlace α} (h : (k f).Follows q f R) :
    Follows (InPlace.frame >>= k) q f R := h

theorem modifyFrame {k : Unit → InPlace α} {change : Frame → Frame}
    (h : (k ()).Follows q (change f) R) : Follows (InPlace.modifyFrame change >>= k) q f R := h

end Follows

theorem Tracks.bind {p : InPlace α} {q : Parse α} {l : α → Parse β'} (h : p.Tracks q f)
    (hk : ∀ a, (k a).Follows (l a) f S) : Follows (p >>= k) (q >>= l) f S := by
  refine Follows.bind h ?_
  rintro a _ _ ⟨rfl, rfl⟩
  exact hk a

/-- Only the second reader says more about what was read. -/
theorem Tracks.bind_right {p : InPlace α} {q : Parse α} {l : α → Parse β} (h : p.Tracks q f)
    (hl : ∀ a, Follows (Pure.pure a) (l a) f R) : p.Follows (q >>= l) f R := by
  have h := h.bind hl
  rwa [bind_pure] at h

namespace Follows

theorem same (a : α) : Tracks (Pure.pure a) (Pure.pure a) f := .pure ⟨rfl, rfl⟩

theorem lift (q : Parse α) : Tracks (InPlace.lift q) q f := by
  intro r below
  unfold InPlace.lift
  cases q r with
  | ok result => exact .ok ⟨rfl, rfl⟩
  | error failure => exact .error rfl

/-- What only reads tokens, and what stands after it. -/
theorem step {l : α → Parse β'} (q : Parse α) (hk : ∀ a, (k a).Follows (l a) f S) :
    Follows (InPlace.lift q >>= k) (q >>= l) f S := (lift q).bind hk

/-- What only reads tokens, and a change of the frame at hand after it. -/
theorem last {k : β → InPlace α} (q : Parse β) (hk : ∀ b, (k b).Follows (Pure.pure b) f R) :
    Follows (InPlace.lift q >>= k) q f R := by
  have h := step q hk
  rwa [bind_pure] at h

end Follows

/-! ### Repetition -/

/-- What rounds come to, with the frames at hand by then. -/
inductive RoundsAlong (I : σ → σ' → Frame → Prop) (R : ρ → ρ' → Frame → Prop) :
    Round σ ρ → Round σ' ρ' → Frame → Prop
  | again {x : σ} {y : σ'} {g : Frame} (h : I x y g) : RoundsAlong I R (.again x) (.again y) g
  | done {x : ρ} {y : ρ'} {g : Frame} (h : R x y g) : RoundsAlong I R (.done x) (.done y) g

/-- Rounds that may change the frame at hand, as long as `I` holds between them. -/
theorem Follows.iterate {round : σ → InPlace (Round σ ρ)} {round' : σ' → Parse (Round σ' ρ')}
    {I : σ → σ' → Frame → Prop} {R : ρ → ρ' → Frame → Prop}
    (h : ∀ x y g, I x y g → (round x).Follows (round' y) g (RoundsAlong I R)) (bound : Nat) {x : σ}
    {y : σ'} (hxy : I x y f) :
    Follows (InPlace.iterate round bound x) (Parse.iterate round' bound y) f R := by
  induction bound generalizing x y f with
  | zero => exact fun _ _ => .error rfl
  | succ bound ih =>
    refine (h x y f hxy).bind fun _ _ g hround => ?_
    cases hround with
    | again hxy => exact ih hxy
    | done hR => exact .pure hR

/-- Rounds that leave the frame at hand as it is. -/
theorem Tracks.iterate {round : σ → InPlace (Round σ ρ)} {round' : σ → Parse (Round σ ρ)}
    (h : ∀ x, (round x).Tracks (round' x) f) (bound : Nat) (x : σ) :
    Tracks (InPlace.iterate round bound x) (Parse.iterate round' bound x) f := by
  refine Follows.iterate (I := fun x y g => x = y ∧ g = f) ?_ bound ⟨rfl, rfl⟩
  rintro x _ _ ⟨rfl, rfl⟩
  refine (h x).mono ?_
  rintro a _ _ ⟨rfl, rfl⟩
  cases a with
  | again => exact .again ⟨rfl, rfl⟩
  | done => exact .done ⟨rfl, rfl⟩

theorem Tracks.collect {round : InPlace (Option α)} {round' : Parse (Option α)}
    (h : round.Tracks round' f) (bound : Nat) :
    Tracks (InPlace.collect bound round) (Parse.collect bound round') f := by
  refine (Tracks.iterate (fun read => h.bind fun value => ?_) bound []).bind fun _ => .same _
  cases value <;> exact .same _

/-! ### What is left behind -/

/-- On the frame at hand, the two give the same value or failure. -/
theorem Tracks.result {p : InPlace α} {q : Parse α} {s : Session} (h : p.Tracks q s.frame) :
    (p s).1 = (q s.reader).map Prod.fst := by
  have hrun := h s.reader s.below
  generalize p _ = x at hrun ⊢
  generalize q _ = y at hrun ⊢
  cases hrun with
  | ok hab => exact congrArg Except.ok hab.1
  | error => rfl

/-- With a value, the stack is as it was. -/
theorem Tracks.leaves {p : InPlace α} {q : Parse α} {s s' : Session} {a : α}
    (h : p.Tracks q s.frame) (hp : p s = (.ok a, s')) :
    ∃ r, q s.reader = .ok (a, r) ∧ s' = { s with reader := r } := by
  have hrun := h s.reader s.below
  rw [show p _ = _ from hp] at hrun
  generalize q s.reader = y at hrun ⊢
  cases hrun with
  | ok hab =>
    obtain ⟨rfl, rfl⟩ := hab
    exact ⟨_, rfl, rfl⟩

/-! ### Changes of the stack -/

/-- A frame that was pushed is popped again, and the one below it is as it was. -/
theorem Follows.withFrame (h : p.Follows q g R) :
    Follows (InPlace.withFrame g p) q f fun a b f' => R a.1 b a.2 ∧ f' = f := by
  intro r below
  have hrun := h r (f :: below)
  unfold InPlace.withFrame
  dsimp only
  generalize p ⟨r, g, f :: below⟩ = x at hrun ⊢
  generalize q r = y at hrun ⊢
  cases hrun with
  | ok hab => exact .ok ⟨hab, rfl⟩
  | @error failure s hbelow =>
    refine .error ?_
    unfold Session.popped
    rw [hbelow]

/-- A part with a frame of its own, which nothing is asked about afterwards. -/
theorem Tracks.withFrame {q : Parse α} {k : α × Frame → InPlace α'} {l : α → Parse β'}
    {p : InPlace α} (h : p.Tracks q g) (hk : ∀ a, (k (a, g)).Follows (l a) f S) :
    Follows (InPlace.withFrame g p >>= k) (q >>= l) f S := by
  refine (Follows.withFrame h).bind ?_
  rintro ⟨a, _⟩ _ _ ⟨⟨rfl, rfl⟩, rfl⟩
  exact hk a

/-- A reading in a frame of its own can be taken back: the frame was popped also by the failure. -/
theorem Follows.attempt_withFrame (h : p.Follows q g R) (keeps : Cause → Bool) :
    Follows (InPlace.attempt keeps (InPlace.withFrame g p)) (Parse.attempt keeps q) f
      fun a b f' => Option.Rel (fun a b => R a.1 b a.2) a b ∧ f' = f := by
  intro r below
  have hrun := h r (f :: below)
  unfold InPlace.attempt InPlace.withFrame Parse.attempt
  dsimp only
  generalize p ⟨r, g, f :: below⟩ = x at hrun ⊢
  generalize q r = y at hrun ⊢
  cases hrun with
  | ok hab => exact .ok ⟨.some hab, rfl⟩
  | @error failure s hbelow =>
    have hpopped : s.popped = ⟨s.reader, f, below⟩ := by
      unfold Session.popped
      rw [hbelow]
    cases failure with
    | exhausted => exact .error (by rw [hpopped])
    | refused error =>
      simp only [Except.map, hpopped]
      by_cases hkeeps : keeps error.cause
      · simp only [hkeeps, if_true]
        exact .error rfl
      · simp only [hkeeps, Bool.false_eq_true, if_false]
        exact .ok ⟨.none, rfl⟩

/-- A flag that was set has its old value again. -/
theorem Tracks.withFlag {q : Parse α} {flag : Flag} (h : p.Tracks q (flag.set true f)) :
    Tracks (InPlace.withFlag flag p) q f := by
  intro r below
  have hrun := h r below
  unfold InPlace.withFlag
  dsimp only
  generalize p ⟨r, flag.set true f, below⟩ = x at hrun ⊢
  generalize q r = y at hrun ⊢
  cases hrun with
  | ok hab =>
    obtain ⟨rfl, rfl⟩ := hab
    exact .ok ⟨rfl, flag.set_get_set f true⟩
  | error hbelow => exact .error hbelow

/-- On the frame `f`, the two read the same statement. If it is a loop, the labels before it are
labels of a loop afterwards. -/
abbrev TracksStatement (p : InPlace α) (q : Parse α) (f : Frame) : Prop :=
  p.Follows q f fun a b g => a = b ∧ ∃ isLoop, g = f.statement isLoop

/-- Without a label before it, a statement leaves the frame as it is. -/
theorem TracksStatement.tracks {q : Parse α} (h : p.TracksStatement q f) (hf : f.directLabels = 0) :
    p.Tracks q f := by
  refine h.mono ?_
  rintro a b _ ⟨hab, isLoop, rfl⟩
  refine ⟨hab, ?_⟩
  obtain ⟨⟩ := f
  subst hf
  cases isLoop <;> rfl

/-- A label that was put on is taken off. -/
theorem TracksStatement.withLabel {q : Parse α} {name : String}
    (h : p.TracksStatement q (f.labelled name)) :
    TracksStatement (InPlace.withLabel name p) q f := by
  intro r below
  have hrun := h r below
  unfold InPlace.withLabel
  dsimp only
  generalize p ⟨r, f.labelled name, below⟩ = x at hrun ⊢
  generalize q r = y at hrun ⊢
  cases hrun with
  | ok hab =>
    obtain ⟨rfl, isLoop, rfl⟩ := hab
    refine .ok ⟨rfl, isLoop, ?_⟩
    cases isLoop <;> rfl
  | error hbelow => exact .error hbelow

end

end InPlace

end ScriptMin.Grammar
