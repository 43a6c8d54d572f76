import ScriptMin.Proofs.Reading.Place

/-!
# Readers of single tokens

Each reader of `Grammar.Reader` consumes the next token, looks at it, or goes back to a place.
-/

namespace ScriptMin.Grammar.Parse

open Source Reader

variable {α : Type} {source : List Char} {limit : Nat} {r : Reader} {mode : SlashMode}
  {R : α → Reader → Prop}

/-- The next token was read, and consumed or kept ahead as `takes` says. -/
def Advances (mode : SlashMode) (takes : Token → Bool) (r : Reader) (t : Token) (r' : Reader) :
    Prop :=
  ∃ after, r.cursor.next mode = .ok (t, after) ∧
    r' = if takes t then ⟨after, none⟩ else ⟨r.cursor, some ⟨t, mode, after⟩⟩

/-- A token that is ahead is the one that would be read. -/
theorem runs_forward (h : r.Good source limit) (takes : Token → Bool) :
    (forward mode takes).Runs r (Advances mode takes r) := by
  refine .bind_get ?_
  extract_lets goesOn
  have hgoesOn {t : Token} {after : Cursor} (hnext : r.cursor.next mode = .ok (t, after)) :
      (goesOn (t, after)).Runs r (Advances mode takes r) := ⟨after, hnext, rfl⟩
  have hlex : (lex mode >>= goesOn).Runs r (Advances mode takes r) := by
    refine .bind (Q := fun result r' => r.cursor.next mode = .ok result ∧ r' = r)
      (.check fun _ hnext => ⟨hnext, rfl⟩) ?_
    rintro result _ ⟨hnext, rfl⟩
    exact hgoesOn hnext
  cases hahead : r.ahead with
  | none => exact hlex
  | some ahead =>
    refine .ite (fun hmode => hgoesOn ?_) fun _ => hlex
    exact hmode ▸ h.coherent ahead (by simp [hahead])

/-- The next token is consumed, whatever it is. -/
theorem bind_nextIn {k : Token → Parse α} (h : r.Good source limit)
    (hk : ∀ t r', r.cursor.next mode = .ok (t, r'.cursor) → r'.ahead = none →
      (k t).Runs r' R) : (nextIn mode >>= k).Runs r R := by
  refine (runs_forward h _).bind ?_
  rintro t _ ⟨after, hnext, rfl⟩
  exact hk t _ hnext rfl

theorem bind_next {k : Token → Parse α} (h : r.Good source limit)
    (hk : ∀ t r', r.cursor.next .division = .ok (t, r'.cursor) → r'.ahead = none →
      (k t).Runs r' R) : (next >>= k).Runs r R :=
  bind_nextIn h hk

theorem bind_peekIn {k : Token → Parse α} (h : r.Good source limit)
    (hk : ∀ t r', r.Sees mode t r' → (k t).Runs r' R) : (peekIn mode >>= k).Runs r R := by
  refine (runs_forward h _).bind ?_
  rintro t _ ⟨after, hnext, rfl⟩
  exact hk t _ ⟨after, hnext, rfl⟩

theorem bind_peek {k : Token → Parse α} (h : r.Good source limit)
    (hk : ∀ t r', r.Sees .division t r' → (k t).Runs r' R) : (peek >>= k).Runs r R :=
  bind_peekIn h hk

/-- The token that was looked at is consumed. -/
theorem bind_skip {k : Unit → Parse α} {t : Token} {r' : Reader} (hs : r.Sees mode t r')
    (hkind : t.kind ≠ .endOfInput) (hk : ∀ r', r.Takes mode t r' → (k ()).Runs r' R) :
    (skip >>= k).Runs r' R := by
  obtain ⟨after, hnext, rfl⟩ := hs
  exact hk ⟨after, none⟩ ⟨hnext, rfl, hkind⟩

/-- The token that was looked at is the next one. -/
theorem bind_next_of_sees {k : Token → Parse α} {t : Token} {r' : Reader} (h : r.Good source limit)
    (hs : r.Sees .division t r') (hkind : t.kind ≠ .endOfInput)
    (hk : ∀ r', r.Takes .division t r' → (k t).Runs r' R) : (next >>= k).Runs r' R := by
  refine bind_nextIn (hs.good h) fun t' r'' hnext hahead => ?_
  rw [hs.cursor] at hnext
  obtain ⟨after, hfirst, -⟩ := hs
  obtain ⟨rfl, -⟩ : t = t' ∧ after = r''.cursor := by simpa [hfirst] using hnext
  exact hk r'' ⟨hnext, hahead, hkind⟩

/-- A look at the token after the next one leaves the place as it is. -/
theorem bind_peekSecond {k : Token → Parse α} (h : r.Good source limit)
    (hk : ∀ t, (k t).Runs ⟨r.cursor, none⟩ R) : (peekSecond >>= k).Runs r R := by
  refine .bind (Q := fun _ r' => r' = ⟨r.cursor, none⟩) ?_ fun t r' hr' => hr' ▸ hk t
  unfold peekSecond
  refine .bind_mark (bind_nextIn h fun t r₁ hnext hahead => ?_)
  have h₁ : r₁.Good source limit :=
    have hafter : r₁.Good source (r₁.cursor.rest.length + 1) :=
      ⟨(h.standsIn.lexed hnext).standsIn, by simp [Coherent, hahead], Nat.lt_succ_self _⟩
    h.of_le hafter (h.standsIn.lexed hnext).encloses.le
  exact bind_peek h₁ fun t r₂ _ => .pure rfl

/-- The next token is consumed if it is of the class, and looked at otherwise. -/
theorem runs_takeIf {accepts : Kind → Bool} (h : r.Good source limit) :
    (takeIf accepts).Runs r fun o r' =>
      (∃ t, o = some t ∧ accepts t.kind ∧ r.cursor.next .division = .ok (t, r'.cursor) ∧
        r'.ahead = none) ∨ (o = none ∧ ∃ t, r.Sees .division t r') := by
  refine (runs_forward h _).bind ?_
  rintro t r' ⟨after, hnext, hr'⟩
  cases haccepts : accepts t.kind with
  | true =>
    simp only [haccepts, if_true] at hr'
    subst hr'
    exact .pure (.inl ⟨t, rfl, haccepts, hnext, rfl⟩)
  | false =>
    simp only [haccepts, Bool.false_eq_true, if_false] at hr'
    subst hr'
    exact .pure (.inr ⟨rfl, t, after, hnext, rfl⟩)

/-- A token of a class without the end of the input. -/
theorem bind_takeIf {accepts : Kind → Bool} {k : Option Token → Parse α}
    (h : r.Good source limit) (hend : accepts .endOfInput = false)
    (htakes : ∀ t r', accepts t.kind → r.Takes .division t r' → (k (some t)).Runs r' R)
    (hsees : ∀ t r', r.Sees .division t r' → (k none).Runs r' R) :
    (takeIf accepts >>= k).Runs r R := by
  refine (runs_takeIf h).bind ?_
  rintro _ r' (⟨t, rfl, haccepts, hnext, hahead⟩ | ⟨rfl, t, hs⟩)
  · exact htakes t r' haccepts ⟨hnext, hahead, fun hkind => by simp [hkind, hend] at haccepts⟩
  · exact hsees t r' hs

/-- Behind the end of the input nothing is read. -/
theorem if_tookEnd {yes no : Parse α} (h : r.Good source limit) (hyes : ∀ r', yes.Runs r' R)
    (hsees : ∀ t r', r.Sees .division t r' → no.Runs r' R) :
    (took .endOfInput >>= fun b => if b then yes else no).Runs r R := by
  refine .bind (Q := fun b r' => b = true ∨ (b = false ∧ ∃ t, r.Sees .division t r')) ?_ ?_
  · refine (runs_takeIf h).bind ?_
    rintro _ r' (⟨t, rfl, -⟩ | ⟨rfl, hs⟩)
    · exact .pure (.inl rfl)
    · exact .pure (.inr ⟨rfl, hs⟩)
  · rintro b r' (rfl | ⟨rfl, t, hs⟩)
    · exact hyes r'
    · exact hsees t r' hs

theorem bind_took {kind : Kind} {k : Bool → Parse α} (h : r.Good source limit)
    (hend : kind ≠ .endOfInput)
    (htakes : ∀ t r', r.Takes .division t r' → (k true).Runs r' R)
    (hsees : ∀ t r', r.Sees .division t r' → (k false).Runs r' R) :
    (took kind >>= k).Runs r R := by
  refine .bind (Q := fun b r' => (b = true ∧ ∃ t, r.Takes .division t r') ∨
    (b = false ∧ ∃ t, r.Sees .division t r')) ?_ ?_
  · exact bind_takeIf h (by simpa using hend.symm)
      (fun t r' _ ht => .pure (.inl ⟨rfl, t, ht⟩)) fun t r' hs => .pure (.inr ⟨rfl, t, hs⟩)
  · rintro b r' (⟨rfl, t, ht⟩ | ⟨rfl, t, hs⟩)
    · exact htakes t r' ht
    · exact hsees t r' hs

theorem bind_tookPunctuator {p : Punctuator} {k : Bool → Parse α} (h : r.Good source limit)
    (htakes : ∀ t r', r.Takes .division t r' → (k true).Runs r' R)
    (hsees : ∀ t r', r.Sees .division t r' → (k false).Runs r' R) :
    (tookPunctuator p >>= k).Runs r R :=
  bind_took h nofun htakes hsees

theorem bind_tookWord {w : Word} {k : Bool → Parse α} (h : r.Good source limit)
    (htakes : ∀ t r', r.Takes .division t r' → (k true).Runs r' R)
    (hsees : ∀ t r', r.Sees .division t r' → (k false).Runs r' R) :
    (tookWord w >>= k).Runs r R :=
  bind_took h nofun htakes hsees

theorem if_tookPunctuator {p : Punctuator} {yes no : Parse α} (h : r.Good source limit)
    (htakes : ∀ t r', r.Takes .division t r' → yes.Runs r' R)
    (hsees : ∀ t r', r.Sees .division t r' → no.Runs r' R) :
    (tookPunctuator p >>= fun b => if b then yes else no).Runs r R :=
  bind_tookPunctuator h htakes hsees

theorem if_tookWord {w : Word} {yes no : Parse α} (h : r.Good source limit)
    (htakes : ∀ t r', r.Takes .division t r' → yes.Runs r' R)
    (hsees : ∀ t r', r.Sees .division t r' → no.Runs r' R) :
    (tookWord w >>= fun b => if b then yes else no).Runs r R :=
  bind_tookWord h htakes hsees

theorem bind_expectIn {accepts : Kind → Bool} {k : Token → Parse α} (h : r.Good source limit)
    (hend : accepts .endOfInput = false)
    (hk : ∀ t r', accepts t.kind → r.Takes .division t r' → (k t).Runs r' R) :
    (expectIn accepts >>= k).Runs r R := by
  refine .bind (Q := fun t r' => accepts t.kind ∧ r.Takes .division t r') ?_
    fun t r' ht => hk t r' ht.1 ht.2
  refine bind_nextIn h fun t r' hnext hahead => .ite (fun haccepts => .pure ?_) fun _ => .unexpected
  exact ⟨haccepts, hnext, hahead, fun hkind => by simp [hkind, hend] at haccepts⟩

theorem bind_expect {kind : Kind} {k : Token → Parse α} (h : r.Good source limit)
    (hend : kind ≠ .endOfInput)
    (hk : ∀ t r', r.Takes .division t r' → (k t).Runs r' R) : (expect kind >>= k).Runs r R :=
  bind_expectIn h (by simpa using hend.symm) fun t r' _ => hk t r'

theorem bind_expectPunctuator {p : Punctuator} {k : Token → Parse α} (h : r.Good source limit)
    (hk : ∀ t r', r.Takes .division t r' → (k t).Runs r' R) :
    (expectPunctuator p >>= k).Runs r R :=
  bind_expect h nofun hk

theorem bind_expectWord {w : Word} {k : Token → Parse α} (h : r.Good source limit)
    (hk : ∀ t r', r.Takes .division t r' → (k t).Runs r' R) : (expectWord w >>= k).Runs r R :=
  bind_expect h nofun hk

theorem bind_atPunctuator {p : Punctuator} {k : Bool → Parse α} (h : r.Good source limit)
    (hk : ∀ b t r', r.Sees .division t r' → (k b).Runs r' R) :
    (atPunctuator p >>= k).Runs r R := by
  refine .bind (Q := fun _ r' => ∃ t, r.Sees .division t r') ?_ fun b r' ⟨t, hs⟩ => hk b t r' hs
  exact bind_peek h fun t r' hs => .pure ⟨t, hs⟩

theorem if_atPunctuator {p : Punctuator} {yes no : Parse α} (h : r.Good source limit)
    (hyes : ∀ t r', r.Sees .division t r' → yes.Runs r' R)
    (hno : ∀ t r', r.Sees .division t r' → no.Runs r' R) :
    (atPunctuator p >>= fun b => if b then yes else no).Runs r R :=
  bind_atPunctuator h fun _ t r' hs => .ite (fun _ => hyes t r' hs) fun _ => hno t r' hs

theorem bind_templateTail {k : Token → Parse α} (h : r.Good source limit)
    (hk : ∀ t r', r'.Good source limit →
      Encloses source r.cursor.position t.span [] r'.cursor.position → (k t).Runs r' R) :
    (templateTail >>= k).Runs r R := by
  refine .bind (Q := fun t r' => r'.Good source limit ∧
    Encloses source r.cursor.position t.span [] r'.cursor.position) ?_
    fun t r' ht => hk t r' ht.1 ht.2
  refine .bind_get (.bind_check fun (t, after) htail => ?_)
  obtain ⟨hafter, hencloses⟩ := h.standsIn.templateTail htail
  have hgood : Reader.Good source (after.rest.length + 1) ⟨after, none⟩ :=
    ⟨hafter, Reader.coherent_fresh _, Nat.lt_succ_self _⟩
  exact show Reader.Good source limit ⟨after, none⟩ ∧ _ from
    ⟨h.of_le hgood hencloses.le, hencloses⟩

/-- A token of a class without the end of the input, or nothing. -/
theorem runs_takeIf_spans {accepts : Kind → Bool} (h : r.Good source limit)
    (hend : accepts .endOfInput = false) :
    (takeIf accepts).Runs r fun o r' =>
      (∃ t, o = some t ∧ r.Takes .division t r') ∨
        (o = none ∧ Spans source limit r.cursor [] r') := by
  refine (runs_takeIf h).mono ?_
  rintro _ r' (⟨t, rfl, haccepts, hnext, hahead⟩ | ⟨rfl, t, hs⟩)
  · exact .inl ⟨t, rfl, hnext, hahead, fun hkind => by simp [hkind, hend] at haccepts⟩
  · exact .inr ⟨rfl, (Spans.refl h).sees hs⟩

theorem runs_took {kind : Kind} (h : r.Good source limit) (hend : kind ≠ .endOfInput) :
    (took kind).Runs r fun _ => Spans source limit r.cursor [] :=
  bind_takeIf h (by simpa using hend.symm) (fun _ _ _ ht => .pure (ht.spans h.weaken))
    fun _ _ hs => .pure ((Spans.refl h).sees hs)

theorem runs_tookPunctuator {p : Punctuator} (h : r.Good source limit) :
    (tookPunctuator p).Runs r fun _ => Spans source limit r.cursor [] :=
  runs_took h nofun

theorem runs_tookWord {w : Word} (h : r.Good source limit) :
    (tookWord w).Runs r fun _ => Spans source limit r.cursor [] :=
  runs_took h nofun

/-- At the end of a statement there is a semicolon or nothing. -/
theorem runs_endStatement (h : r.Good source limit) :
    endStatement.Runs r fun _ r' => Spans source limit r.cursor [] r' := by
  refine bind_peek h fun t r₁ hs => ?_
  have hsees : Spans source limit r.cursor [] r₁ := (Spans.refl h).sees hs
  split
  case h_1 hkind =>
    refine (bind_skip (k := pure) hs (hkind ▸ nofun) fun r₂ ht => .pure ?_)
    exact ht.spans h.weaken
  case h_2 | h_3 => exact .pure hsees
  case h_4 => exact .ite (fun _ => .pure hsees) fun _ => .unexpected

/-! ## Rows of what rounds read -/

/-- Rounds that go on read something, so no more of them than there are characters left go on. -/
theorem Runs.loop {σ ρ : Type} {round : σ → Parse (Round σ ρ)} {I : σ → Reader → Prop}
    {Q : ρ → Reader → Prop} (hgood : ∀ state r, I state r → r.Good source limit)
    (hround : ∀ state r, I state r → (round state).Runs r
      (Round.Meets (fun state r' => I state r' ∧ r.cursor.position < r'.cursor.position) Q))
    {bound : Nat} (hbound : limit ≤ bound) {state : σ} (h : I state r) :
    (Parse.iterate round bound state).Runs r Q := by
  refine .iterate (m := fun r => r.cursor.rest.length) (fun state r hstate => ?_) h
    ((hgood state r h).left.trans_le hbound)
  refine (hround state r hstate).mono fun x r' hx => ?_
  cases x with
  | again state' =>
    have hr := hgood state r hstate
    have hr' := hgood state' r' hx.1
    exact ⟨hx.1, hr.standsIn.length_lt hr'.standsIn hx.2⟩
  | done result => exact hx

/-- A round that collects nodes backwards: the row grows, and where another round follows, it starts
behind `start`. -/
def Collects (source : List Char) (limit : Nat) (c : Cursor) (start : Nat) :
    Round (List Node) (List Node) → Reader → Prop :=
  Round.Meets (fun read r => Spans source limit c read.reverse r ∧ start < r.cursor.position)
    fun read => Spans source limit c read.reverse

/-- What is collected is a row if each round reads a row. -/
theorem runs_collect {β : Type} {round : Parse (Option β)} {parts : β → List Node}
    (hround : ∀ r : Reader, r.Good source limit → round.Runs r fun o r' =>
      Spans source limit r.cursor (o.toList.flatMap parts) r' ∧
        (o.isSome → r.cursor.Passes r'.cursor.position))
    {bound : Nat} (hbound : limit ≤ bound) (h : r.Good source limit) :
    (collect bound round).Runs r fun xs => Spans source limit r.cursor (xs.flatMap parts) := by
  refine .bind (Runs.loop
    (I := fun read => Spans source limit r.cursor (read.reverse.flatMap parts))
    (Q := fun read => Spans source limit r.cursor (read.reverse.flatMap parts))
    (fun _ _ h => h.good) (fun read r₁ h₁ => ?_) hbound (.refl h)) fun _ _ hread => .pure hread
  refine (hround r₁ h₁.good).bind fun o r₂ ⟨h₂, hpasses⟩ => ?_
  cases o with
  | none => exact .pure (by simpa [Round.Meets] using h₁.append h₂)
  | some x => exact .pure ⟨h₁.snocParts (by simpa using h₂), (hpasses rfl).lt h₁.good.standsIn⟩

/-- The nodes that are collected one by one are a row. -/
theorem runs_collectNodes {round : Parse (Option Node)}
    (hround : ∀ r : Reader, r.Good source limit → round.Runs r fun o r' =>
      Spans source limit r.cursor o.toList r' ∧ (o.isSome → r.cursor.Passes r'.cursor.position))
    {bound : Nat} (hbound : limit ≤ bound) (h : r.Good source limit) :
    (collect bound round).Runs r fun ns => Spans source limit r.cursor ns := by
  have hcollect : (collect bound round).Runs r fun ns =>
      Spans source limit r.cursor (ns.flatMap fun n => [n]) :=
    runs_collect (fun r h => (hround r h).mono fun o r' ho => by simpa using ho) hbound h
  exact hcollect.mono fun ns r' hns => by simpa using hns

end ScriptMin.Grammar.Parse
